import Mathlib.Data.List.GetD
import Mathlib.Data.List.Induction
import UsbDev.LineCode

/-!
# Shift registers with a sentinel

A register that collects `n` bits, least significant bit first, behind a single
one that reaches the lowest position when all of them are in.
-/
namespace UsbDev.Deserializer

open LineCode

variable {n : ℕ} {bits : List Bool}

/-- The bit enters at the top. -/
def shiftIn (x : BitVec (1 + n)) (b : Bool) : BitVec (1 + n) := BitVec.ofBool b ++ x.extractLsb' 1 n

/-- The empty register. -/
def sentinel (n : ℕ) : BitVec (1 + n) := BitVec.twoPow (1 + n) n

/-- The register after some bits. -/
def collect (n : ℕ) (bits : List Bool) : BitVec (1 + n) := bits.foldl shiftIn (sentinel n)

@[simp] theorem collect_nil : collect n [] = sentinel n := rfl

theorem collect_snoc (bits : List Bool) (b : Bool) :
    collect n (bits ++ [b]) = shiftIn (collect n bits) b := by
  simp [collect]

theorem getLsbD_shiftIn (x : BitVec (1 + n)) (b : Bool) {j : ℕ} (hj : j ≤ n) :
    (shiftIn x b).getLsbD j = if j = n then b else x.getLsbD (j + 1) := by
  rw [shiftIn, BitVec.getLsbD_append]
  by_cases h : j = n
  · subst h
    simp
  · have hlt : j < n := by omega
    simp [hlt, h, Nat.add_comm]

theorem getLsbD_collect (h : bits.length ≤ n) {j : ℕ} (hj : j ≤ n) :
    (collect n bits).getLsbD j =
      if j + bits.length < n then false
      else if j + bits.length = n then true
      else bits.getD (j + bits.length - n - 1) false := by
  induction bits using List.reverseRecOn generalizing j with
  | nil =>
      simp only [collect_nil, sentinel, BitVec.getLsbD_twoPow, List.length_nil, Nat.add_zero]
      split_ifs <;> simp <;> omega
  | append_singleton bits b ih =>
      rw [List.length_append, List.length_singleton] at h ⊢
      rw [collect_snoc, getLsbD_shiftIn _ _ hj]
      by_cases hjn : j = n
      · subst hjn
        rw [if_pos rfl, if_neg (by omega), if_neg (by omega)]
        rw [show j + (bits.length + 1) - j - 1 = bits.length by omega]
        simp
      · rw [if_neg hjn, ih (by omega) (by omega), Nat.add_right_comm, Nat.add_assoc]
        split_ifs
        · rfl
        · rfl
        · rw [List.getD_append _ _ _ _ (by omega)]

/-- The sentinel is out when all bits are in. -/
theorem collect_full (h : bits.length ≤ n) :
    (collect n bits).getLsbD 0 = decide (bits.length = n) := by
  rw [getLsbD_collect h (Nat.zero_le n), Nat.zero_add]
  split_ifs with hlt heq
  · simp
    omega
  · simp [heq]
  · omega

/-- The full register holds the bits. -/
theorem bitsLsb_collect (h : bits.length = n) :
    bitsLsb ((collect n bits).extractLsb' 1 n) = bits := by
  subst h
  refine List.ext_getElem (by simp) fun k hk hk' => ?_
  have hget := getLsbD_collect (Nat.le_refl bits.length) (show 1 + k ≤ bits.length by omega)
  rw [if_neg (by omega), if_neg (by omega),
    show 1 + k + bits.length - bits.length - 1 = k by omega] at hget
  simp only [bitsLsb, List.getElem_map, List.getElem_range, BitVec.getLsbD_extractLsb', hk',
    decide_true, Bool.true_and, hget]
  exact List.getD_eq_getElem _ _ hk'

/-! ### Words filled by position -/

/-- Some bits are assigned from position `k` up. -/
def fill {w : ℕ} (x : BitVec w) (k : ℕ) : List Bool → BitVec w
  | [] => x
  | b :: bs => fill (setBit x k b) (k + 1) bs

theorem getLsbD_fill {w : ℕ} (x : BitVec w) (k : ℕ) (bs : List Bool) {j : ℕ} (hj : j < w) :
    (fill x k bs).getLsbD j =
      if k ≤ j ∧ j < k + bs.length then bs.getD (j - k) false else x.getLsbD j := by
  induction bs generalizing x k with
  | nil =>
      rw [if_neg (by simp)]
      rfl
  | cons b bs ih =>
      rw [fill, ih, getLsbD_setBit x k b hj]
      simp only [List.length_cons]
      by_cases hjk : j = k
      · subst hjk
        rw [if_neg (by omega), if_pos rfl, if_pos (by omega), Nat.sub_self]
        rfl
      · rw [if_neg hjk]
        by_cases hin : k + 1 ≤ j ∧ j < k + 1 + bs.length
        · rw [if_pos hin, if_pos (by omega), show j - k = j - (k + 1) + 1 by omega]
          rfl
        · rw [if_neg hin, if_neg (by omega)]

/-- A word is what its bits fill it with. -/
theorem fill_bitsLsb {w : ℕ} (x y : BitVec w) : fill x 0 (bitsLsb y) = y := by
  apply BitVec.eq_of_getLsbD_eq
  intro j hj
  rw [getLsbD_fill x 0 _ hj, length_bitsLsb, if_pos (by omega), Nat.sub_zero,
    List.getD_eq_getElem _ _ (by simpa using hj)]
  simp [bitsLsb]

/-- The bytes collected so far and the one that is being filled. -/
structure Assembly where
  bytes : List (BitVec 8)
  curByte : BitVec 8
  bitCnt : ℕ
  deriving DecidableEq, Repr

namespace Assembly

def empty : Assembly := ⟨[], 0, 0⟩

/-- One more bit, and the byte when it is full. -/
def push (a : Assembly) (b : Bool) : Assembly :=
  let curByte := setBit a.curByte a.bitCnt b
  if a.bitCnt + 1 = 8 then ⟨a.bytes ++ [curByte], curByte, 0⟩
  else ⟨a.bytes, curByte, a.bitCnt + 1⟩

theorem foldl_push {a : Assembly} {bs : List Bool} (h : a.bitCnt + bs.length < 8) :
    bs.foldl push a = ⟨a.bytes, fill a.curByte a.bitCnt bs, a.bitCnt + bs.length⟩ := by
  induction bs generalizing a with
  | nil => rfl
  | cons b bs ih =>
      simp only [List.length_cons] at h
      have hpush : a.push b = ⟨a.bytes, setBit a.curByte a.bitCnt b, a.bitCnt + 1⟩ := by
        simp only [push]
        rw [if_neg (by omega)]
      rw [List.foldl_cons, hpush, ih (by dsimp only ; omega), fill, List.length_cons]
      simp only [Nat.add_assoc, Nat.add_comm 1]

/-- The bits of a byte make the byte. -/
theorem foldl_push_byte (bytes : List (BitVec 8)) (cur x : BitVec 8) :
    (bitsLsb x).foldl push ⟨bytes, cur, 0⟩ = ⟨bytes ++ [x], x, 0⟩ := by
  obtain ⟨bs, b, hbits⟩ : ∃ bs b, bitsLsb x = bs ++ [b] :=
    (List.eq_nil_or_concat' (bitsLsb x)).resolve_left (by simp [bitsLsb])
  have hlen : bs.length = 7 := by
    have hlen := congrArg List.length hbits
    simpa using hlen.symm
  have hfill : fill cur 0 (bs ++ [b]) = x := by rw [← hbits, fill_bitsLsb]
  have hsnoc : fill cur 0 (bs ++ [b]) = setBit (fill cur 0 bs) 7 b := by
    have happend : ∀ (y : BitVec 8) (k : ℕ) (cs : List Bool),
        fill y k (cs ++ [b]) = setBit (fill y k cs) (k + cs.length) b := by
      intro y k cs
      induction cs generalizing y k with
      | nil => rfl
      | cons c cs ih =>
          rw [List.cons_append, fill, ih, fill, List.length_cons]
          congr 1
          omega
    rw [happend, Nat.zero_add, hlen]
  have hseven : bs.foldl push ⟨bytes, cur, 0⟩ = ⟨bytes, fill cur 0 bs, 0 + bs.length⟩ :=
    foldl_push (show 0 + bs.length < 8 by omega)
  rw [hbits, List.foldl_append, hseven]
  simp only [List.foldl_cons, List.foldl_nil, push, hlen, Nat.zero_add, if_true, ← hsnoc, hfill]

theorem foldl_push_bytes (bytes : List (BitVec 8)) (cur : BitVec 8) (xs : List (BitVec 8)) :
    ∃ cur', (xs.flatMap bitsLsb).foldl push ⟨bytes, cur, 0⟩ = ⟨bytes ++ xs, cur', 0⟩ := by
  induction xs generalizing bytes cur with
  | nil => exact ⟨cur, by simp⟩
  | cons x xs ih =>
      obtain ⟨cur', hrest⟩ := ih (bytes ++ [x]) x
      refine ⟨cur', ?_⟩
      rw [List.flatMap_cons, List.foldl_append, foldl_push_byte, hrest]
      simp

end Assembly

end UsbDev.Deserializer
