import Mathlib.Data.List.Basic
import Mathlib.Data.List.Induction
import Mathlib.Tactic.Common

/-!
# Bit stuffing and NRZI

The line code of a serial bus that sends a one by keeping the line level and a
zero by changing it, and that inserts a zero after six ones in a row so that the
level never stays for long. Both codes are defined on lists of bits, together
with their behaviour on concatenated lists and the machine that undoes them.
-/
namespace UsbDev.LineCode

/-- The bits of a word, least significant first. -/
def bitsLsb {w : ℕ} (x : BitVec w) : List Bool := (List.range w).map x.getLsbD

/-- The bits of a word, most significant first. -/
def bitsMsb {w : ℕ} (x : BitVec w) : List Bool := (List.range w).map x.getMsbD

@[simp] theorem length_bitsLsb {w : ℕ} (x : BitVec w) : (bitsLsb x).length = w := by
  simp [bitsLsb]

@[simp] theorem length_bitsMsb {w : ℕ} (x : BitVec w) : (bitsMsb x).length = w := by
  simp [bitsMsb]

theorem bitsLsb_cons {w : ℕ} (x : BitVec (w + 1)) :
    bitsLsb x = x.getLsbD 0 :: (bitsLsb x).tail := by
  simp [bitsLsb, List.range_succ_eq_map]

theorem bitsLsb_inj {w : ℕ} {x y : BitVec w} (h : bitsLsb x = bitsLsb y) : x = y := by
  refine BitVec.eq_of_getLsbD_eq fun k hk => ?_
  have hget := congrArg (fun l => l[k]?) h
  simpa [bitsLsb, hk] using hget

/-- A right shift drops the first bit to send. -/
theorem bitsLsb_ushiftRight {w : ℕ} (x : BitVec (w + 1)) :
    bitsLsb (x >>> 1) = (bitsLsb x).tail ++ [false] := by
  refine List.ext_getElem (by simp) fun k hk _ => ?_
  have hlt : k < w + 1 := by simpa using hk
  by_cases h : k < w
  · have hleft : k < (bitsLsb x).tail.length := by simpa using h
    rw [List.getElem_append_left hleft, List.getElem_tail]
    simp [bitsLsb, Nat.add_comm 1]
  · have hkw : k = w := by omega
    subst hkw
    rw [List.getElem_append_right (by simp)]
    simp only [bitsLsb, List.getElem_map, List.getElem_range, BitVec.getLsbD_ushiftRight,
      List.getElem_singleton]
    exact BitVec.getLsbD_of_ge _ _ (by omega)

theorem bitsLsb_append {v w : ℕ} (x : BitVec v) (y : BitVec w) :
    bitsLsb (x ++ y) = bitsLsb y ++ bitsLsb x := by
  refine List.ext_getElem (by simp [Nat.add_comm]) fun k hk _ => ?_
  by_cases h : k < w
  · rw [List.getElem_append_left (by simpa using h)]
    simp [bitsLsb, BitVec.getLsbD_append, h]
  · rw [List.getElem_append_right (by simpa using h)]
    simp [bitsLsb, BitVec.getLsbD_append, h]

theorem bitsMsb_append {v w : ℕ} (x : BitVec v) (y : BitVec w) :
    bitsMsb (x ++ y) = bitsMsb x ++ bitsMsb y := by
  refine List.ext_getElem (by simp) fun k hk _ => ?_
  by_cases h : k < v
  · rw [List.getElem_append_left (by simpa using h)]
    simp only [bitsMsb, List.getElem_map, List.getElem_range, BitVec.getMsbD_append]
    rw [if_neg (by omega)]
  · rw [List.getElem_append_right (by simpa using h)]
    simp only [bitsMsb, List.getElem_map, List.getElem_range, BitVec.getMsbD_append,
      List.length_map, List.length_range]
    rw [if_pos (by omega)]

/-- A word of two bytes. -/
theorem bytes_append (x : BitVec 16) : x.extractLsb' 8 8 ++ x.extractLsb' 0 8 = x :=
  (BitVec.extractLsb'_append_extractLsb'_eq_extractLsb' (show 8 = 0 + 8 from rfl)).trans
    BitVec.extractLsb'_eq_self

theorem bitsLsb_not {w : ℕ} (x : BitVec w) : bitsLsb (~~~x) = (bitsLsb x).map (!·) := by
  rw [bitsLsb, bitsLsb, List.map_map]
  refine List.map_congr_left fun k hk => ?_
  simp [List.mem_range.1 hk]

theorem bitsMsb_not {w : ℕ} (x : BitVec w) : bitsMsb (~~~x) = (bitsMsb x).map (!·) := by
  rw [bitsMsb, bitsMsb, List.map_map]
  refine List.map_congr_left fun k hk => ?_
  simp [List.mem_range.1 hk]

theorem bitsLsb_reverse {w : ℕ} (x : BitVec w) : bitsLsb x.reverse = bitsMsb x := by
  simp [bitsLsb, bitsMsb, BitVec.getLsbD_reverse]

/-- Position `k` of a word is assigned. -/
def setBit {w : ℕ} (x : BitVec w) (k : ℕ) (b : Bool) : BitVec w :=
  if b then x ||| BitVec.twoPow w k else x &&& ~~~BitVec.twoPow w k

theorem getLsbD_setBit {w : ℕ} (x : BitVec w) (k : ℕ) (b : Bool) {j : ℕ} (hj : j < w) :
    (setBit x k b).getLsbD j = if j = k then b else x.getLsbD j := by
  unfold setBit
  by_cases hjk : j = k
  · subst hjk
    cases b <;> simp [hj]
  · cases b <;> simp [hj, hjk]

/-! ### Bit stuffing -/

/-- The bits with a zero after every six ones; `ones` ones were sent just before. -/
def stuff (ones : ℕ) : List Bool → List Bool
  | [] => []
  | false :: bs => false :: stuff 0 bs
  | true :: bs => if ones = 5 then true :: false :: stuff 0 bs else true :: stuff (ones + 1) bs

/-- The number of ones at the end of what was sent. -/
def onesAfter (ones : ℕ) : List Bool → ℕ
  | [] => ones
  | false :: bs => onesAfter 0 bs
  | true :: bs => onesAfter (if ones = 5 then 0 else ones + 1) bs

@[simp] theorem stuff_nil (ones : ℕ) : stuff ones [] = [] := rfl

@[simp] theorem stuff_false (ones : ℕ) (bs : List Bool) :
    stuff ones (false :: bs) = false :: stuff 0 bs := rfl

theorem stuff_true_five (bs : List Bool) : stuff 5 (true :: bs) = true :: false :: stuff 0 bs := rfl

theorem stuff_true {ones : ℕ} (h : ones < 5) (bs : List Bool) :
    stuff ones (true :: bs) = true :: stuff (ones + 1) bs := by
  simp [stuff, show ones ≠ 5 by omega]

@[simp] theorem stuff_eq_nil {ones : ℕ} {bs : List Bool} : stuff ones bs = [] ↔ bs = [] := by
  cases bs with
  | nil => simp
  | cons b bs =>
      cases b with
      | false => simp
      | true =>
          simp only [stuff]
          split_ifs <;> simp

theorem stuff_append (ones : ℕ) (as bs : List Bool) :
    stuff ones (as ++ bs) = stuff ones as ++ stuff (onesAfter ones as) bs := by
  induction as generalizing ones with
  | nil => rfl
  | cons a as ih =>
      cases a with
      | false => simp [onesAfter, ih]
      | true =>
          by_cases h : ones = 5
          · simp [stuff, onesAfter, h, ih]
          · simp [stuff, onesAfter, h, ih]

theorem onesAfter_append (ones : ℕ) (as bs : List Bool) :
    onesAfter ones (as ++ bs) = onesAfter (onesAfter ones as) bs := by
  induction as generalizing ones with
  | nil => rfl
  | cons a as ih => cases a <;> exact ih _

theorem onesAfter_lt {ones : ℕ} (h : ones < 6) (bs : List Bool) : onesAfter ones bs < 6 := by
  induction bs generalizing ones with
  | nil => exact h
  | cons b bs ih =>
      cases b with
      | false => exact ih (by omega)
      | true =>
          refine ih ?_
          split_ifs <;> omega

/-- The bits without those that follow six ones, where `ones` ones came just before. -/
def unstuff (ones : ℕ) : List Bool → List Bool
  | [] => []
  | b :: bs =>
      if 6 ≤ ones then unstuff (if b then ones + 1 else 0) bs
      else b :: unstuff (if b then ones + 1 else 0) bs

/-- The number of ones at the end of what was received. -/
def onesEnd (ones : ℕ) (bs : List Bool) : ℕ := bs.foldl (fun n b => if b then n + 1 else 0) ones

/-- Some bit follows seven ones in a row. -/
def violates (ones : ℕ) : List Bool → Bool
  | [] => false
  | b :: bs => decide (7 ≤ ones) || violates (if b then ones + 1 else 0) bs

@[simp] theorem unstuff_nil (ones : ℕ) : unstuff ones [] = [] := rfl

theorem unstuff_append (ones : ℕ) (as bs : List Bool) :
    unstuff ones (as ++ bs) = unstuff ones as ++ unstuff (onesEnd ones as) bs := by
  induction as generalizing ones with
  | nil => rfl
  | cons a as ih =>
      simp only [List.cons_append, unstuff, ih, onesEnd, List.foldl_cons]
      split_ifs <;> rfl

theorem violates_append (ones : ℕ) (as bs : List Bool) :
    violates ones (as ++ bs) = (violates ones as || violates (onesEnd ones as) bs) := by
  induction as generalizing ones with
  | nil => rfl
  | cons a as ih => simp only [List.cons_append, violates, ih, onesEnd, List.foldl_cons,
      Bool.or_assoc]

theorem onesEnd_append (ones : ℕ) (as bs : List Bool) :
    onesEnd ones (as ++ bs) = onesEnd (onesEnd ones as) bs := List.foldl_append

/-- Unstuffing undoes stuffing. -/
theorem unstuff_stuff {ones : ℕ} (h : ones < 6) (bs : List Bool) :
    unstuff ones (stuff ones bs) = bs := by
  have hne : ¬ 6 ≤ ones := by omega
  induction bs generalizing ones with
  | nil => rfl
  | cons b bs ih =>
      have hzero := ih (show 0 < 6 by omega) (by omega)
      cases b with
      | false => simp [unstuff, hne, hzero]
      | true =>
          by_cases h5 : ones = 5
          · simp [h5, stuff_true_five, unstuff, hzero]
          · have hnext := ih (show ones + 1 < 6 by omega) (by omega)
            simp [stuff, unstuff, hne, h5, hnext]

/-- A stuffed list never has a bit after seven ones. -/
theorem violates_stuff {ones : ℕ} (h : ones < 6) (bs : List Bool) :
    violates ones (stuff ones bs) = false := by
  have hne : ¬ 7 ≤ ones := by omega
  induction bs generalizing ones with
  | nil => rfl
  | cons b bs ih =>
      have hzero := ih (show 0 < 6 by omega) (by omega)
      cases b with
      | false => simp [violates, hne, hzero]
      | true =>
          by_cases h5 : ones = 5
          · simp [h5, stuff_true_five, violates, hzero]
          · have hnext := ih (show ones + 1 < 6 by omega) (by omega)
            simp only [stuff, h5, if_false, violates, hne, decide_false, Bool.false_or, if_true]
            exact hnext

/-- There are never six ones in a row, counted on from `ones`. -/
def FewOnes (ones : ℕ) : List Bool → Prop
  | [] => ones < 6
  | b :: bs => ones < 6 ∧ FewOnes (if b then ones + 1 else 0) bs

instance decidableFewOnes : ∀ (ones : ℕ) (bs : List Bool), Decidable (FewOnes ones bs)
  | ones, [] => inferInstanceAs (Decidable (ones < 6))
  | ones, b :: bs =>
      have := decidableFewOnes (if b then ones + 1 else 0) bs
      inferInstanceAs (Decidable (ones < 6 ∧ FewOnes (if b then ones + 1 else 0) bs))

theorem FewOnes.lt {ones : ℕ} {bs : List Bool} (h : FewOnes ones bs) : ones < 6 := by
  cases bs with
  | nil => exact h
  | cons b bs => exact h.1

theorem unstuff_of_fewOnes {ones : ℕ} {bs : List Bool} (h : FewOnes ones bs) :
    unstuff ones bs = bs := by
  induction bs generalizing ones with
  | nil => rfl
  | cons b bs ih =>
      have hlt : ¬ 6 ≤ ones := by
        have := h.lt
        omega
      rw [unstuff, if_neg hlt, ih h.2]

theorem violates_of_fewOnes {ones : ℕ} {bs : List Bool} (h : FewOnes ones bs) :
    violates ones bs = false := by
  induction bs generalizing ones with
  | nil => rfl
  | cons b bs ih =>
      have hlt : ¬ 7 ≤ ones := by
        have := h.lt
        omega
      rw [violates, ih h.2, decide_eq_false hlt, Bool.false_or]

/-- Where the unstuffed bits have few ones nothing was dropped. -/
theorem unstuff_eq_self {ones : ℕ} {bs : List Bool} (h : FewOnes ones (unstuff ones bs)) :
    unstuff ones bs = bs := by
  induction bs generalizing ones with
  | nil => rfl
  | cons b bs ih =>
      have hlt : ¬ 6 ≤ ones := by
        have := h.lt
        omega
      rw [unstuff, if_neg hlt] at h ⊢
      rw [ih h.2]

/-- Seven ones in a row occur. -/
def SevenOnes (bs : List Bool) : Prop := List.replicate 7 true <:+: bs

theorem onesEnd_snoc (ones : ℕ) (bs : List Bool) (b : Bool) :
    onesEnd ones (bs ++ [b]) = if b then onesEnd ones bs + 1 else 0 := by
  rw [onesEnd_append]
  rfl

theorem le_onesEnd_iff {k : ℕ} (bs : List Bool) :
    k ≤ onesEnd 0 bs ↔ List.replicate k true <:+ bs := by
  induction bs using List.reverseRecOn generalizing k with
  | nil =>
      cases k with
      | zero => simp
      | succ k => simp [onesEnd]
  | append_singleton bs b ih =>
      rw [onesEnd_snoc]
      cases k with
      | zero => simp
      | succ k =>
          rw [List.replicate_succ', List.suffix_concat_iff]
          cases b with
          | false => simp
          | true => simp [ih]

/-- A run of seven ones is followed by a bit or stands at the end. -/
theorem sevenOnes_iff (bs : List Bool) :
    SevenOnes bs ↔ violates 0 bs = true ∨ List.replicate 7 true <:+ bs := by
  induction bs using List.reverseRecOn with
  | nil => simp [SevenOnes, violates]
  | append_singleton bs b ih =>
      rw [SevenOnes] at ih ⊢
      rw [List.infix_concat_iff, ih, ← le_onesEnd_iff bs, violates_append]
      simp only [violates, Bool.or_false, Bool.or_eq_true, decide_eq_true_eq]
      tauto

/-! ### NRZI -/

/-- The level after a bit: a one keeps it, a zero changes it. -/
def nrziStep (level b : Bool) : Bool := level == b

/-- The levels sent for a list of bits. -/
def nrzi (level : Bool) : List Bool → List Bool
  | [] => []
  | b :: bs => nrziStep level b :: nrzi (nrziStep level b) bs

@[simp] theorem nrzi_nil (level : Bool) : nrzi level [] = [] := rfl

@[simp] theorem nrzi_cons (level b : Bool) (bs : List Bool) :
    nrzi level (b :: bs) = nrziStep level b :: nrzi (nrziStep level b) bs := rfl

@[simp] theorem nrziStep_true (level : Bool) : nrziStep level true = level := by
  cases level <;> rfl

@[simp] theorem nrziStep_false (level : Bool) : nrziStep level false = !level := by
  cases level <;> rfl

/-- The bit is recovered by comparing two levels. -/
theorem beq_nrziStep (level b : Bool) : (level == nrziStep level b) = b := by
  cases level <;> cases b <;> rfl

theorem nrzi_append (level : Bool) (as bs : List Bool) :
    nrzi level (as ++ bs) = nrzi level as ++ nrzi (as.foldl nrziStep level) bs := by
  induction as generalizing level with
  | nil => rfl
  | cons a as ih => simp [ih]

@[simp] theorem length_nrzi (level : Bool) (bs : List Bool) :
    (nrzi level bs).length = bs.length := by
  induction bs generalizing level with
  | nil => rfl
  | cons b bs ih => simp [ih]

/-- The last level sent is the one the bits lead to. -/
theorem getLast?_nrzi (level : Bool) {bs : List Bool} (h : bs ≠ []) :
    (nrzi level bs).getLast? = some (bs.foldl nrziStep level) := by
  obtain ⟨as, b, rfl⟩ := (List.eq_nil_or_concat' bs).resolve_left h
  simp [nrzi_append]

/-! ### Packets on the line -/

/-- The states of the differential pair. -/
inductive Line where
  | j
  | k
  | se0
  deriving DecidableEq, Repr

/-- The idle level is J. -/
def Line.ofLevel (level : Bool) : Line := if level then .j else .k

/-- A packet: its bits stuffed and coded from the idle level, then the end of packet. -/
def packetLines (bits : List Bool) : List Line :=
  (nrzi true (stuff 0 bits)).map Line.ofLevel ++ [.se0, .se0, .j]

end UsbDev.LineCode
