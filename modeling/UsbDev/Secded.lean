import Mathlib.Data.BitVec
import UsbDev.LineCode

/-!
# Single error correction, double error detection

Codes that add check bits to a word so that each check is the parity of the bits of
a mask. An error shows in the syndrome as the sum of the columns of its bits. With
distinct columns of odd weight every single error is found and corrected, and every
double error is told from a single one.
-/
namespace UsbDev.Secded

open LineCode

variable {n k r : ℕ}

/-! ### Parity -/

def parityBelow (x : BitVec n) : ℕ → Bool
  | 0 => false
  | i + 1 => parityBelow x i ^^ x.getLsbD i

/-- The sum of all bits. -/
def parity (x : BitVec n) : Bool := parityBelow x n

theorem parityBelow_xor (x y : BitVec n) (m : ℕ) :
    parityBelow (x ^^^ y) m = (parityBelow x m ^^ parityBelow y m) := by
  induction m with
  | zero => rfl
  | succ m ih =>
      rw [parityBelow, parityBelow, parityBelow, ih, BitVec.getLsbD_xor]
      cases parityBelow x m <;> cases parityBelow y m <;> simp

theorem parity_xor (x y : BitVec n) : parity (x ^^^ y) = (parity x ^^ parity y) :=
  parityBelow_xor x y n

theorem parityBelow_and_twoPow (x : BitVec n) {i : ℕ} (hi : i < n) (m : ℕ) :
    parityBelow (x &&& BitVec.twoPow n i) m = (decide (i < m) && x.getLsbD i) := by
  induction m with
  | zero => simp [parityBelow]
  | succ m ih =>
      rw [parityBelow, ih, BitVec.getLsbD_and, BitVec.getLsbD_twoPow]
      obtain hlt | rfl | hgt : i < m ∨ i = m ∨ m < i := by omega
      · have hne : i ≠ m := by omega
        simp [hlt, hne, show i < m + 1 by omega]
      · simp [hi]
      · have hne : i ≠ m := by omega
        simp [hne, show ¬i < m by omega, show ¬i < m + 1 by omega]

/-- The bit that a mask has at a place. -/
theorem parity_and_twoPow (x : BitVec n) {i : ℕ} (hi : i < n) :
    parity (x &&& BitVec.twoPow n i) = x.getLsbD i := by
  simp [parity, parityBelow_and_twoPow x hi, hi]

theorem parity_zero : parity (0 : BitVec n) = false := by
  have hbelow : ∀ m, parityBelow (0 : BitVec n) m = false := by
    intro m
    induction m with
    | zero => rfl
    | succ m ih =>
        rw [parityBelow, ih]
        simp
  exact hbelow n

/-! ### Encoding -/

/-- The check bits from place `pos` on, each from the word so far. -/
def encodeFrom : List (BitVec n) → ℕ → BitVec n → BitVec n
  | [], _, x => x
  | m :: ms, pos, x => encodeFrom ms (pos + 1) (setBit x pos (parity (x &&& m)))

/-- The masks of a decoder, each with its own check bit. -/
def withChecks : List (BitVec n) → ℕ → List (BitVec n)
  | [], _ => []
  | m :: ms, pos => (m ^^^ BitVec.twoPow n pos) :: withChecks ms (pos + 1)

/-- What a mask sees of two words that agree on its bits. -/
theorem and_eq_of_low {m x y : BitVec n} (hm : m.toNat < 2 ^ k)
    (hxy : ∀ i < k, x.getLsbD i = y.getLsbD i) : x &&& m = y &&& m := by
  refine BitVec.eq_of_getLsbD_eq fun i _ => ?_
  rw [BitVec.getLsbD_and, BitVec.getLsbD_and]
  by_cases hi : i < k
  · rw [hxy i hi]
  · have hzero : m.getLsbD i = false :=
      Nat.testBit_lt_two_pow (hm.trans_le (Nat.pow_le_pow_right (by omega) (by omega)))
    rw [hzero, Bool.and_false, Bool.and_false]

theorem getLsbD_encodeFrom {ms : List (BitVec n)} {pos : ℕ} (hpos : pos + ms.length ≤ n)
    (x : BitVec n) {i : ℕ} (hi : i < pos) : (encodeFrom ms pos x).getLsbD i = x.getLsbD i := by
  induction ms generalizing pos x with
  | nil => rfl
  | cons m ms ih =>
      rw [List.length_cons] at hpos
      rw [encodeFrom, ih (by omega) _ (by omega), getLsbD_setBit _ _ _ (by omega), if_neg (by omega)]

theorem and_xor_left (a b y : BitVec n) : y &&& (a ^^^ b) = (y &&& a) ^^^ (y &&& b) := by
  refine BitVec.eq_of_getLsbD_eq fun i _ => ?_
  simp only [BitVec.getLsbD_and, BitVec.getLsbD_xor, Bool.and_xor_distrib_left]

/-- Every check of an encoded word holds. -/
theorem parity_encodeFrom {ms : List (BitVec n)} {pos : ℕ} (hpos : pos + ms.length ≤ n)
    (hk : k ≤ pos) (hlow : ∀ m ∈ ms, m.toNat < 2 ^ k) (x : BitVec n) :
    ∀ m ∈ withChecks ms pos, parity (encodeFrom ms pos x &&& m) = false := by
  induction ms generalizing pos x with
  | nil => simp [withChecks]
  | cons m ms ih =>
      rw [List.length_cons] at hpos
      simp only [withChecks, List.mem_cons, forall_eq_or_imp, encodeFrom] at hlow ⊢
      refine ⟨?_, ih (by omega) (by omega) hlow.2 _⟩
      have hkept : ∀ i < pos + 1, (encodeFrom ms (pos + 1)
          (setBit x pos (parity (x &&& m)))).getLsbD i =
            if i = pos then parity (x &&& m) else x.getLsbD i := by
        intro i hi
        rw [getLsbD_encodeFrom (by omega) _ hi, getLsbD_setBit _ _ _ (by omega)]
      have hsame := and_eq_of_low (x := encodeFrom ms (pos + 1) (setBit x pos (parity (x &&& m))))
        (y := x) hlow.1 fun i hi => by rw [hkept i (by omega), if_neg (by omega)]
      have hsplit : ∀ y : BitVec n, y &&& (m ^^^ BitVec.twoPow n pos) =
          (y &&& m) ^^^ (y &&& BitVec.twoPow n pos) := and_xor_left m (BitVec.twoPow n pos)
      rw [hsplit, parity_xor, hsame, parity_and_twoPow _ (by omega), hkept pos (by omega), if_pos rfl,
        Bool.xor_self]

/-! ### The codes -/

/-- The word with the bits `f`, least significant first. -/
def ofBits (r : ℕ) (f : ℕ → Bool) : BitVec r :=
  (BitVec.ofBoolListLE ((List.range r).map f)).setWidth r

theorem getLsbD_ofBits (f : ℕ → Bool) {i : ℕ} (hi : i < r) : (ofBits r f).getLsbD i = f i := by
  rw [ofBits, BitVec.getLsbD_setWidth, BitVec.getLsbD_ofBoolListLE]
  simp [hi]

/-- What a mask list says about the bit at a place: the syndrome of an error there. -/
def column (masks : List (BitVec n)) (r i : ℕ) : BitVec r :=
  ofBits r fun j => (masks.getD j 0).getLsbD i

/-- A code of `k` data bits and `r` check bits in words of `n` bits, with the constants of its
encoder and decoder. Both invert some of the check bits. -/
structure Code (n k r : ℕ) where
  invert : BitVec n
  encMasks : List (BitVec n)
  decMasks : List (BitVec n)
  columns : List (BitVec r)
  width : k + r = n
  length : encMasks.length = r
  low : ∀ m ∈ encMasks, m.toNat < 2 ^ k
  invertHigh : invert.setWidth k = 0
  checks : decMasks = withChecks encMasks k
  corrects : (List.range n).map (column decMasks r) =
    columns ++ (List.range r).map (BitVec.twoPow r)
  distinct : (columns ++ (List.range r).map (BitVec.twoPow r)).Nodup
  odd : ∀ c ∈ columns ++ (List.range r).map (BitVec.twoPow r), parity c = true

namespace Code
variable (c : Code n k r)

def encode (data : BitVec k) : BitVec n :=
  encodeFrom c.encMasks k (data.setWidth n) ^^^ c.invert

def syndrome (word : BitVec n) : BitVec r :=
  ofBits r fun j => parity ((word ^^^ c.invert) &&& c.decMasks.getD j 0)

/-- Each data bit, changed if the syndrome is its column. -/
def correct (word : BitVec n) : BitVec k :=
  ofBits k fun i => (c.syndrome word == c.columns.getD i 0) ^^ word.getLsbD i

/-- `err_o[0]`. -/
def singleErr (word : BitVec n) : Bool := parity (c.syndrome word)

/-- `err_o[1]`. -/
def doubleErr (word : BitVec n) : Bool := !c.singleErr word && c.syndrome word != 0

theorem decMasks_length : c.decMasks.length = r := by
  have hlength : ∀ (ms : List (BitVec n)) (pos : ℕ), (withChecks ms pos).length = ms.length := by
    intro ms
    induction ms with
    | nil => exact fun _ => rfl
    | cons m ms ih => exact fun pos => by simp [withChecks, ih]
  rw [c.checks, hlength, c.length]

theorem syndrome_encode (data : BitVec k) : c.syndrome (c.encode data) = 0 := by
  have hwidth := c.width
  have hlength := c.length
  refine BitVec.eq_of_getLsbD_eq fun j hj => ?_
  have hmem : c.decMasks.getD j 0 ∈ withChecks c.encMasks k := by
    have hj' : j < c.decMasks.length := by rwa [c.decMasks_length]
    rw [← c.checks, List.getD_eq_getElem?_getD, List.getElem?_eq_getElem hj']
    exact List.getElem_mem hj'
  have hcheck := parity_encodeFrom (by omega) le_rfl c.low (data.setWidth n) _ hmem
  rw [syndrome, getLsbD_ofBits _ hj, encode, BitVec.xor_assoc, BitVec.xor_self, BitVec.xor_zero, hcheck]
  simp

/-- An error at one place adds the column of the place. -/
theorem syndrome_xor_twoPow (word : BitVec n) {i : ℕ} (hi : i < n) :
    c.syndrome (word ^^^ BitVec.twoPow n i) = c.syndrome word ^^^ column c.decMasks r i := by
  refine BitVec.eq_of_getLsbD_eq fun j hj => ?_
  have hsplit : (word ^^^ BitVec.twoPow n i ^^^ c.invert) &&& c.decMasks.getD j 0 =
      ((word ^^^ c.invert) &&& c.decMasks.getD j 0) ^^^
        (c.decMasks.getD j 0 &&& BitVec.twoPow n i) := by
    have hlast : word ^^^ BitVec.twoPow n i ^^^ c.invert =
        (word ^^^ c.invert) ^^^ BitVec.twoPow n i := by
      rw [BitVec.xor_assoc, BitVec.xor_comm (BitVec.twoPow n i), ← BitVec.xor_assoc]
    rw [hlast, BitVec.and_comm, and_xor_left, BitVec.and_comm (c.decMasks.getD j 0)]
  rw [BitVec.getLsbD_xor, syndrome, syndrome, column, getLsbD_ofBits _ hj, getLsbD_ofBits _ hj,
    getLsbD_ofBits _ hj, hsplit, parity_xor, parity_and_twoPow _ hi]

/-! The columns. -/

theorem column_eq {i : ℕ} (hi : i < n) : column c.decMasks r i =
    (c.columns ++ (List.range r).map (BitVec.twoPow r)).getD i 0 := by
  rw [← c.corrects]
  simp [hi]

theorem columns_length : c.columns.length = k := by
  have hlength := congrArg List.length c.corrects
  have hwidth := c.width
  simp at hlength
  omega

theorem column_odd {i : ℕ} (hi : i < n) : parity (column c.decMasks r i) = true := by
  have hmem : column c.decMasks r i ∈ (List.range n).map (column c.decMasks r) :=
    List.mem_map.2 ⟨i, List.mem_range.2 hi, rfl⟩
  rw [c.corrects] at hmem
  exact c.odd _ hmem

theorem column_ne_zero {i : ℕ} (hi : i < n) : column c.decMasks r i ≠ 0 := by
  intro hzero
  have hodd := c.column_odd hi
  rw [hzero, parity_zero] at hodd
  exact Bool.noConfusion hodd

theorem column_inj {i j : ℕ} (hi : i < n) (hj : j < n)
    (h : column c.decMasks r i = column c.decMasks r j) : i = j := by
  have hnodup : ((List.range n).map (column c.decMasks r)).Nodup := c.corrects ▸ c.distinct
  exact List.inj_on_of_nodup_map hnodup (List.mem_range.2 hi) (List.mem_range.2 hj) h

/-! ### Correction and detection -/

theorem getLsbD_invert {i : ℕ} (hi : i < k) : c.invert.getLsbD i = false := by
  have hzero : (c.invert.setWidth k).getLsbD i = false := by
    rw [c.invertHigh]
    simp
  simpa [hi] using hzero

theorem getLsbD_encode (data : BitVec k) {i : ℕ} (hi : i < k) :
    (c.encode data).getLsbD i = data.getLsbD i := by
  have hwidth := c.width
  have hlength := c.length
  rw [encode, BitVec.getLsbD_xor, getLsbD_encodeFrom (by omega) _ hi, c.getLsbD_invert hi,
    Bool.xor_false, BitVec.getLsbD_setWidth]
  simp [show i < n by omega]

theorem getLsbD_correct (word : BitVec n) {i : ℕ} (hi : i < k) : (c.correct word).getLsbD i =
    ((c.syndrome word == column c.decMasks r i) ^^ word.getLsbD i) := by
  have hwidth := c.width
  have hcolumns : i < c.columns.length := by rwa [c.columns_length]
  rw [correct, getLsbD_ofBits _ hi, c.column_eq (by omega), List.getD_eq_getElem?_getD,
    List.getD_eq_getElem?_getD, List.getElem?_append_left hcolumns]

/-- An encoded word is read back, without an error. -/
theorem decode_encode (data : BitVec k) : c.correct (c.encode data) = data ∧
    c.singleErr (c.encode data) = false ∧ c.doubleErr (c.encode data) = false := by
  have hwidth := c.width
  have hsingle : c.singleErr (c.encode data) = false := by
    rw [singleErr, syndrome_encode, parity_zero]
  refine ⟨BitVec.eq_of_getLsbD_eq fun i hi => ?_, hsingle, ?_⟩
  · have hne : ((0 : BitVec r) == column c.decMasks r i) = false :=
      beq_false_of_ne (c.column_ne_zero (by omega)).symm
    rw [c.getLsbD_correct _ hi, c.syndrome_encode, hne, Bool.false_xor, c.getLsbD_encode _ hi]
  · rw [doubleErr, syndrome_encode]
    simp

/-- A single error is corrected, and reported as one. -/
theorem decode_single (data : BitVec k) {i : ℕ} (hi : i < n) :
    c.correct (c.encode data ^^^ BitVec.twoPow n i) = data ∧
      c.singleErr (c.encode data ^^^ BitVec.twoPow n i) = true ∧
      c.doubleErr (c.encode data ^^^ BitVec.twoPow n i) = false := by
  have hwidth := c.width
  have hsyndrome : c.syndrome (c.encode data ^^^ BitVec.twoPow n i) = column c.decMasks r i := by
    rw [c.syndrome_xor_twoPow _ hi, c.syndrome_encode]
    exact BitVec.zero_xor
  have hsingle : c.singleErr (c.encode data ^^^ BitVec.twoPow n i) = true := by
    rw [singleErr, hsyndrome, c.column_odd hi]
  refine ⟨BitVec.eq_of_getLsbD_eq fun j hj => ?_, hsingle, by simp [doubleErr, hsingle]⟩
  have hcolumn : (column c.decMasks r i == column c.decMasks r j) = decide (i = j) := by
    rw [Bool.eq_iff_iff, beq_iff_eq, decide_eq_true_iff]
    exact ⟨c.column_inj hi (by omega), fun h => h ▸ rfl⟩
  rw [c.getLsbD_correct _ hj, hsyndrome, hcolumn, BitVec.getLsbD_xor, c.getLsbD_encode _ hj,
    BitVec.getLsbD_twoPow]
  by_cases hij : i = j
  · subst hij
    simp [hi]
  · simp [hij]

/-- A double error is reported as one. -/
theorem decode_double (data : BitVec k) {i j : ℕ} (hi : i < n) (hj : j < n) (hij : i ≠ j) :
    c.singleErr (c.encode data ^^^ BitVec.twoPow n i ^^^ BitVec.twoPow n j) = false ∧
      c.doubleErr (c.encode data ^^^ BitVec.twoPow n i ^^^ BitVec.twoPow n j) = true := by
  have hsyndrome : c.syndrome (c.encode data ^^^ BitVec.twoPow n i ^^^ BitVec.twoPow n j) =
      column c.decMasks r i ^^^ column c.decMasks r j := by
    rw [c.syndrome_xor_twoPow _ hj, c.syndrome_xor_twoPow _ hi, c.syndrome_encode]
    exact congrArg (· ^^^ column c.decMasks r j) BitVec.zero_xor
  have hsingle : c.singleErr (c.encode data ^^^ BitVec.twoPow n i ^^^ BitVec.twoPow n j) =
      false := by
    rw [singleErr, hsyndrome, parity_xor, c.column_odd hi, c.column_odd hj]
    rfl
  have hne : column c.decMasks r i ^^^ column c.decMasks r j ≠ 0 := by
    intro hzero
    exact hij (c.column_inj hi hj (BitVec.xor_eq_zero_iff.1 hzero))
  refine ⟨hsingle, ?_⟩
  rw [doubleErr, hsingle, hsyndrome]
  simpa using hne

/-- What the name of these codes says: intact words are read back, single errors corrected, and
double errors told from single ones. -/
structure Corrects : Prop where
  intact : ∀ data, c.correct (c.encode data) = data ∧ c.singleErr (c.encode data) = false ∧
    c.doubleErr (c.encode data) = false
  single : ∀ data, ∀ i < n, c.correct (c.encode data ^^^ BitVec.twoPow n i) = data ∧
    c.singleErr (c.encode data ^^^ BitVec.twoPow n i) = true ∧
    c.doubleErr (c.encode data ^^^ BitVec.twoPow n i) = false
  double : ∀ data, ∀ i < n, ∀ j < n, i ≠ j →
    c.singleErr (c.encode data ^^^ BitVec.twoPow n i ^^^ BitVec.twoPow n j) = false ∧
    c.doubleErr (c.encode data ^^^ BitVec.twoPow n i ^^^ BitVec.twoPow n j) = true

theorem corrects_all : c.Corrects where
  intact := c.decode_encode
  single := fun data _ hi => c.decode_single data hi
  double := fun data _ hi _ hj hij => c.decode_double data hi hj hij

end Code

end UsbDev.Secded
