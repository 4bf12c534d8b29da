import Mathlib.Data.Nat.Notation
import Mathlib.Logic.Function.Basic
import Mathlib.Tactic.Common

/-!
# Byte lanes and the shared packet RAM

A packet buffer is 16 words of four byte lanes. The RAM has one port with a read
latency of one cycle; the USB side wins every collision and its last read data
is held in a copy register that software accesses do not disturb.
-/
namespace UsbDev

/-- Byte lane `k` of a word. -/
def lane (w : BitVec 32) (k : BitVec 2) : BitVec 8 := w.extractLsb' (8 * k.toNat) 8

/-- The word with byte lane `k` replaced. -/
def setLane (w : BitVec 32) (k : BitVec 2) (b : BitVec 8) : BitVec 32 :=
  match k with
  | 0#2 => w.extractLsb' 8 24 ++ b
  | 1#2 => w.extractLsb' 16 16 ++ b ++ w.extractLsb' 0 8
  | 2#2 => w.extractLsb' 24 8 ++ b ++ w.extractLsb' 0 16
  | _ => b ++ w.extractLsb' 0 24

theorem bitVec_two_cases (k : BitVec 2) : k = 0#2 ∨ k = 1#2 ∨ k = 2#2 ∨ k = 3#2 := by
  revert k
  decide

/-- Only the bits of the lane change. -/
theorem getLsbD_setLane (w : BitVec 32) (k : BitVec 2) (b : BitVec 8) {n : ℕ} (hn : n < 32) :
    (setLane w k b).getLsbD n = if n / 8 = k.toNat then b.getLsbD (n % 8) else w.getLsbD n := by
  obtain rfl | rfl | rfl | rfl := bitVec_two_cases k
  · refine (BitVec.getLsbD_append (x := w.extractLsb' 8 24) (y := b) (i := n)).trans ?_
    by_cases h : n < 8
    · rw [if_pos h, if_pos (by simp; omega), Nat.mod_eq_of_lt h]
    · rw [if_neg h, if_neg (by simp; omega), BitVec.getLsbD_extractLsb', decide_eq_true (by omega),
        Bool.true_and, show 8 + (n - 8) = n by omega]
  · refine (BitVec.getLsbD_append (x := w.extractLsb' 16 16 ++ b) (y := w.extractLsb' 0 8)
      (i := n)).trans ?_
    rw [BitVec.getLsbD_append, BitVec.getLsbD_extractLsb', BitVec.getLsbD_extractLsb']
    by_cases h : n < 8
    · rw [if_pos h, if_neg (by simp; omega), Nat.zero_add, decide_eq_true h, Bool.true_and]
    · by_cases h' : n < 16
      · rw [if_neg h, if_pos (by omega), if_pos (by simp; omega), show n % 8 = n - 8 by omega]
      · rw [if_neg h, if_neg (by omega), if_neg (by simp; omega), decide_eq_true (by omega),
          Bool.true_and, show 16 + (n - 8 - 8) = n by omega]
  · refine (BitVec.getLsbD_append (x := w.extractLsb' 24 8 ++ b) (y := w.extractLsb' 0 16)
      (i := n)).trans ?_
    rw [BitVec.getLsbD_append, BitVec.getLsbD_extractLsb', BitVec.getLsbD_extractLsb']
    by_cases h : n < 16
    · rw [if_pos h, if_neg (by simp; omega), Nat.zero_add, decide_eq_true h, Bool.true_and]
    · by_cases h' : n < 24
      · rw [if_neg h, if_pos (by omega), if_pos (by simp; omega), show n % 8 = n - 16 by omega]
      · rw [if_neg h, if_neg (by omega), if_neg (by simp; omega), decide_eq_true (by omega),
          Bool.true_and, show 24 + (n - 16 - 8) = n by omega]
  · refine (BitVec.getLsbD_append (x := b) (y := w.extractLsb' 0 24) (i := n)).trans ?_
    by_cases h : n < 24
    · rw [if_pos h, if_neg (by simp; omega), BitVec.getLsbD_extractLsb', Nat.zero_add,
        decide_eq_true h, Bool.true_and]
    · rw [if_neg h, if_pos (by simp; omega), show n % 8 = n - 24 by omega]

theorem lane_setLane (w : BitVec 32) (k j : BitVec 2) (b : BitVec 8) :
    lane (setLane w k b) j = if j = k then b else lane w j := by
  apply BitVec.eq_of_getLsbD_eq
  intro n hn
  have hj := j.isLt
  have hword : 8 * j.toNat + n < 32 := by omega
  have hdiv : (8 * j.toNat + n) / 8 = j.toNat := by omega
  rw [lane, BitVec.getLsbD_extractLsb', getLsbD_setLane w k b hword, hdiv, decide_eq_true hn,
    Bool.true_and]
  by_cases h : j = k
  · rw [if_pos h, if_pos (congrArg BitVec.toNat h), show (8 * j.toNat + n) % 8 = n by omega]
  · have hne : j.toNat ≠ k.toNat := fun heq => h (BitVec.eq_of_toNat_eq heq)
    rw [if_neg h, if_neg hne, lane, BitVec.getLsbD_extractLsb', decide_eq_true hn, Bool.true_and]

@[simp] theorem lane_setLane_self (w : BitVec 32) (k : BitVec 2) (b : BitVec 8) :
    lane (setLane w k b) k = b := by simp [lane_setLane]

/-- A word is its four bytes. -/
theorem eq_of_lanes {w w' : BitVec 32} (h : ∀ j : BitVec 2, lane w j = lane w' j) : w = w' := by
  apply BitVec.eq_of_getLsbD_eq
  intro n hn
  have hbit : (lane w (BitVec.ofNat 2 (n / 8))).getLsbD (n % 8) =
      (lane w' (BitVec.ofNat 2 (n / 8))).getLsbD (n % 8) := by rw [h]
  have hpos : 8 * (BitVec.ofNat 2 (n / 8)).toNat + n % 8 = n := by
    rw [BitVec.toNat_ofNat]
    omega
  have hlt : n % 8 < 8 := Nat.mod_lt _ (by omega)
  rwa [lane, lane, BitVec.getLsbD_extractLsb', BitVec.getLsbD_extractLsb', hpos,
    decide_eq_true hlt, Bool.true_and, Bool.true_and] at hbit

/-- The highest bit of a byte count. -/
theorem getLsbD_six (x : BitVec 7) : x.getLsbD 6 = decide (64 ≤ x.toNat) := by
  rw [BitVec.getLsbD, Nat.testBit_eq_decide_div_mod_eq]
  have := x.isLt
  congr 1
  apply propext
  constructor <;> intro <;> omega

/-- The RAM word that holds byte `k` of buffer `b`. -/
def bufferAddr (b : BitVec 5) (k : BitVec 6) : BitVec 9 := b ++ k.extractLsb' 2 4

/-- Byte `k` of buffer `b`. -/
def bufferByte (mem : BitVec 9 → BitVec 32) (b : BitVec 5) (k : BitVec 6) : BitVec 8 :=
  lane (mem (bufferAddr b k)) (k.extractLsb' 0 2)

/-- The first `n` bytes of buffer `b`. -/
def bufferBytes (mem : BitVec 9 → BitVec 32) (b : BitVec 5) (n : ℕ) : List (BitVec 8) :=
  (List.range n).map fun k => bufferByte mem b (BitVec.ofNat 6 k)

/-- The buffer a RAM word belongs to. -/
def bufferOf (a : BitVec 9) : BitVec 5 := a.extractLsb' 4 5

@[simp] theorem bufferOf_append (b : BitVec 5) (x : BitVec 4) : bufferOf (b ++ x) = b := by
  apply BitVec.eq_of_getLsbD_eq
  intro n hn
  have happ := BitVec.getLsbD_append (x := b) (y := x) (i := 4 + n)
  simp only [bufferOf, BitVec.getLsbD_extractLsb', hn, decide_true, Bool.true_and]
  simpa [show ¬ 4 + n < 4 by omega] using happ

theorem bufferOf_bufferAddr (b : BitVec 5) (k : BitVec 6) : bufferOf (bufferAddr b k) = b :=
  bufferOf_append _ _

theorem bufferAddr_ofNat (b : BitVec 5) {i : ℕ} (hi : i < 64) :
    bufferAddr b (BitVec.ofNat 6 i) = b ++ BitVec.ofNat 4 (i / 4) := by
  have h : (BitVec.ofNat 6 i).extractLsb' 2 4 = BitVec.ofNat 4 (i / 4) := by
    apply BitVec.eq_of_toNat_eq
    simp only [BitVec.extractLsb'_toNat, BitVec.toNat_ofNat, Nat.shiftRight_eq_div_pow]
    omega
  rw [bufferAddr, h]

theorem lane_index (i : ℕ) : (BitVec.ofNat 6 i).extractLsb' 0 2 = BitVec.ofNat 2 i := by
  apply BitVec.eq_of_toNat_eq
  simp only [BitVec.extractLsb'_toNat, BitVec.toNat_ofNat, Nat.shiftRight_eq_div_pow]
  omega

theorem append_word_inj (b b' : BitVec 5) (x y : BitVec 4) :
    b ++ x = b' ++ y ↔ b = b' ∧ x = y := by
  constructor
  · intro h
    have h' := congrArg BitVec.toNat h
    have hx := x.isLt
    have hy := y.isLt
    rw [BitVec.toNat_append, BitVec.toNat_append, ← Nat.shiftLeft_add_eq_or_of_lt hx,
      ← Nat.shiftLeft_add_eq_or_of_lt hy, Nat.shiftLeft_eq, Nat.shiftLeft_eq] at h'
    constructor <;> apply BitVec.eq_of_toNat_eq <;> omega
  · rintro ⟨rfl, rfl⟩
    rfl

/-- Writing the word that holds byte `u` of a buffer replaces that byte and its three
neighbours in the word, and no other byte of the buffer. -/
theorem bufferByte_writeWord (mem : BitVec 9 → BitVec 32) (b : BitVec 5) (u : BitVec 7)
    (w : BitVec 32) {i : ℕ} (hi : i < 64) (hu : u.toNat < 64) :
    bufferByte (Function.update mem (b ++ u.extractLsb' 2 4) w) b (BitVec.ofNat 6 i) =
      if i / 4 = u.toNat / 4 then lane w (BitVec.ofNat 2 i)
      else bufferByte mem b (BitVec.ofNat 6 i) := by
  have hword : u.extractLsb' 2 4 = BitVec.ofNat 4 (u.toNat / 4) := by
    apply BitVec.eq_of_toNat_eq
    simp only [BitVec.extractLsb'_toNat, BitVec.toNat_ofNat, Nat.shiftRight_eq_div_pow]
  have hiff : (b ++ BitVec.ofNat 4 (i / 4) = b ++ BitVec.ofNat 4 (u.toNat / 4)) ↔
      i / 4 = u.toNat / 4 := by
    rw [append_word_inj]
    constructor
    · rintro ⟨-, h⟩
      have := congrArg BitVec.toNat h
      simp only [BitVec.toNat_ofNat] at this
      omega
    · intro h
      rw [h]
      exact ⟨rfl, rfl⟩
  simp only [bufferByte, bufferAddr_ofNat b hi, hword, lane_index, Function.update_apply, hiff]
  split_ifs <;> rfl

/-- Byte by byte, a buffer holds the first 64 bytes of a list. -/
theorem bufferBytes_eq_take (mem : BitVec 9 → BitVec 32) (b : BitVec 5) (p : List (BitVec 8))
    (h : ∀ k x, p[k]? = some x → k < 64 → bufferByte mem b (BitVec.ofNat 6 k) = x) :
    bufferBytes mem b (min p.length 64) = p.take 64 := by
  apply List.ext_getElem
  · simp [bufferBytes, Nat.min_comm]
  · intro k hk hk'
    simp only [List.length_take] at hk'
    simp only [bufferBytes, List.getElem_map, List.getElem_range, List.getElem_take]
    exact h k _ (List.getElem?_eq_getElem (by omega)) (by omega)

/-- The bytes of a buffer depend on its words only. -/
theorem bufferBytes_eq_of_byte {mem mem' : BitVec 9 → BitVec 32} {b : BitVec 5} {n : ℕ}
    (h : ∀ k < n, bufferByte mem b (BitVec.ofNat 6 k) = bufferByte mem' b (BitVec.ofNat 6 k)) :
    bufferBytes mem b n = bufferBytes mem' b n :=
  List.map_congr_left fun k hk => h k (List.mem_range.1 hk)

namespace PacketRam

/-- One request on a port. -/
structure Req where
  write : Bool
  addr : BitVec 9
  wdata : BitVec 32
  deriving DecidableEq, Repr

structure State where
  mem : BitVec 9 → BitVec 32
  /-- The output register of the RAM, and whether it holds a response. -/
  sramRdata : BitVec 32
  rvalid : Bool
  memRsteering : Bool
  memBRead : Bool
  memBRdata : BitVec 32

/-- Register values under `rst_ni`; the RAM itself is not reset. -/
def State.reset (mem : BitVec 9 → BitVec 32) (sramRdata : BitVec 32) : State where
  mem := mem
  sramRdata := sramRdata
  rvalid := false
  memRsteering := false
  memBRead := false
  memBRdata := 0

/-- `mem_rdata`. -/
def State.memRdata (r : State) : BitVec 32 := if r.rvalid then r.sramRdata else 0

/-- `usb_mem_b_rdata`: held from one USB read to the next. -/
def State.usbRdata (r : State) : BitVec 32 := if r.memBRead then r.memRdata else r.memBRdata

/-- `sw_mem_a_rvalid`: the response is not for the USB side. -/
def State.swRvalid (r : State) : Bool := r.rvalid && !r.memRsteering

/-- `sw_mem_a_rdata`. -/
def State.swRdata (r : State) : BitVec 32 := r.memRdata

/-- `sw_mem_a_gnt`. -/
def swGnt (usb : Option Req) : Bool := usb.isNone

/-- The request the RAM serves: the USB side has absolute priority. -/
def served (usb sw : Option Req) : Option Req := if usb.isSome then usb else sw

def writeMem (mem : BitVec 9 → BitVec 32) : Option Req → BitVec 9 → BitVec 32
  | some ⟨true, a, w⟩ => Function.update mem a w
  | _ => mem

/-- One clock cycle with the requests of the USB side and of software. -/
def step (r : State) (usb sw : Option Req) : State where
  mem := writeMem r.mem (served usb sw)
  sramRdata :=
    match served usb sw with
    | some ⟨false, a, _⟩ => r.mem a
    | _ => r.sramRdata
  rvalid := (served usb sw).any fun q => !q.write
  memRsteering := usb.isSome
  memBRead := usb.any fun q => !q.write
  memBRdata := if r.memBRead then r.memRdata else r.memBRdata

@[simp] theorem writeMem_none (mem : BitVec 9 → BitVec 32) : writeMem mem none = mem := rfl

@[simp] theorem writeMem_read (mem : BitVec 9 → BitVec 32) (a : BitVec 9) (w : BitVec 32) :
    writeMem mem (some ⟨false, a, w⟩) = mem := rfl

@[simp] theorem writeMem_write (mem : BitVec 9 → BitVec 32) (a : BitVec 9) (w : BitVec 32) :
    writeMem mem (some ⟨true, a, w⟩) = Function.update mem a w := rfl

/-- A word changes only under a write to it. -/
theorem writeMem_of_forall_ne (mem : BitVec 9 → BitVec 32) (q : Option Req) (a : BitVec 9)
    (h : ∀ w, q ≠ some ⟨true, a, w⟩) : writeMem mem q a = mem a := by
  match q with
  | none => rfl
  | some ⟨false, _, _⟩ => rfl
  | some ⟨true, b, w⟩ =>
      have hab : a ≠ b := by
        rintro rfl
        exact h w rfl
      simp [Function.update_of_ne hab]

/-- A read by the USB side is answered in the next cycle. -/
theorem usbRdata_step_read (r : State) (a : BitVec 9) (w : BitVec 32) (sw : Option Req) :
    (step r (some ⟨false, a, w⟩) sw).usbRdata = r.mem a := by
  simp [State.usbRdata, State.memRdata, step, served]

/-- Without a USB read the data shown to the USB side stays what it was. -/
theorem usbRdata_step_hold (r : State) (usb sw : Option Req)
    (h : (usb.any fun q => !q.write) = false) : (step r usb sw).usbRdata = r.usbRdata := by
  simp [State.usbRdata, step, h]

end PacketRam

end UsbDev
