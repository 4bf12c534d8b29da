import Mathlib.Data.Nat.Find
import UsbDev.Clocked

/-!
# Synchronized filters

`prim_flop_2sync`, the two flops behind every asynchronous input, and `prim_filter`
with that synchronizer. The filtered value is determined by the samples: it is what
the last `cycles` equal samples in a row were.
-/
namespace UsbDev

open Clocked

/-! ### The synchronizer -/

/-- `prim_flop_2sync`: the output of the first flop and that of the second. -/
structure Flop2Sync (α : Type*) where
  intq : α
  q : α
  deriving DecidableEq, Repr

namespace Flop2Sync
variable {α : Type*}

def reset (resetValue : α) : Flop2Sync α := ⟨resetValue, resetValue⟩

def step (s : Flop2Sync α) (d : α) : Flop2Sync α := ⟨d, s.intq⟩

/-- The input of two cycles before, or the reset value. -/
def delayed (resetValue : α) (d : ℕ → α) (t : ℕ) : α := if 2 ≤ t then d (t - 2) else resetValue

theorem q_traj (resetValue : α) (d : ℕ → α) (t : ℕ) :
    (traj step (reset resetValue) d t).q = delayed resetValue d t := by
  obtain rfl | rfl | ⟨u, rfl⟩ : t = 0 ∨ t = 1 ∨ ∃ u, t = u + 2 := by
    obtain h | h : t < 2 ∨ 2 ≤ t := by omega
    · omega
    · exact .inr (.inr ⟨t - 2, by omega⟩)
  · rfl
  · rfl
  · simp [traj_succ, step, delayed]

end Flop2Sync

/-! ### The filter -/

namespace SyncFilter

/-- The registers of `prim_filter` with `AsyncOn`, always enabled. -/
structure State (cycles : ℕ) where
  sync : Flop2Sync Bool
  storedVector : BitVec cycles
  storedValue : Bool
  deriving DecidableEq, Repr

def State.reset (cycles : ℕ) : State cycles := ⟨.reset false, 0, false⟩

variable {cycles : ℕ}

def filterSynced (s : State cycles) : Bool := s.sync.q

/-- `stored_vector_d`. -/
def storedVectorD (s : State cycles) : BitVec cycles := s.storedVector.shiftConcat (filterSynced s)

def updateStoredValue (s : State cycles) : Bool :=
  storedVectorD s == 0 || storedVectorD s == BitVec.allOnes cycles

/-- One clock cycle; the output is `storedValue`. -/
def step (s : State cycles) (filter : Bool) : State cycles where
  sync := s.sync.step filter
  storedVector := storedVectorD s
  storedValue := if updateStoredValue s then filterSynced s else s.storedValue

/-! ### The filtered value in terms of the samples -/

/-- The samples from cycle `w` on are `b`, as many as the filter is long. -/
def Stable (cycles : ℕ) (x : ℕ → Bool) (b : Bool) (w : ℕ) : Prop := ∀ k < cycles, x (w + k) = b

/-- The condition was sampled in `cycles` cycles in a row, and never since then its opposite; the
samples take two cycles to the filter, and the filter takes one more. -/
def Held (cycles : ℕ) (x : ℕ → Bool) (t : ℕ) : Prop :=
  ∃ w, w + cycles + 2 ≤ t ∧ Stable cycles x true w ∧
    ∀ v, w ≤ v → v + cycles + 2 ≤ t → ¬ Stable cycles x false v

variable {x : ℕ → Bool} {t : ℕ}

/-- The filter in cycle `t` after reset. -/
def stateAt (cycles : ℕ) (x : ℕ → Bool) (t : ℕ) : State cycles := traj step (State.reset cycles) x t

theorem stateAt_succ (cycles : ℕ) (x : ℕ → Bool) (t : ℕ) :
    stateAt cycles x (t + 1) = step (stateAt cycles x t) (x t) := rfl

theorem filterSynced_stateAt (cycles : ℕ) (x : ℕ → Bool) (t : ℕ) :
    filterSynced (stateAt cycles x t) = Flop2Sync.delayed false x t := by
  rw [← Flop2Sync.q_traj]
  exact congrArg Flop2Sync.q
    (traj_part State.sync (fun _ b => b) (fun _ _ => rfl) (State.reset cycles) x t)

theorem getLsbD_storedVectorD (cycles : ℕ) (x : ℕ → Bool) {t k : ℕ} (hk : k < cycles) :
    (storedVectorD (stateAt cycles x t)).getLsbD k = (decide (k + 2 ≤ t) && x (t - 2 - k)) := by
  induction k generalizing t with
  | zero =>
      rw [storedVectorD, BitVec.getLsbD_shiftConcat, filterSynced_stateAt, Flop2Sync.delayed]
      by_cases h : 2 ≤ t <;> simp [hk, h]
  | succ k ih =>
      rw [storedVectorD, BitVec.getLsbD_shiftConcat]
      cases t with
      | zero => simp [stateAt, State.reset]
      | succ t =>
          have hprev : (stateAt cycles x (t + 1)).storedVector = storedVectorD (stateAt cycles x t) :=
            rfl
          rw [hprev, Nat.add_sub_cancel, ih (by omega)]
          simp [hk, show t - 1 - (k + 1) = t - 2 - k by omega]

/-- The vector fills with `b` when the samples were `b`. -/
theorem storedVectorD_of_stable {b : Bool} {w : ℕ} (h : Stable cycles x b w) :
    storedVectorD (stateAt cycles x (w + cycles + 1)) = if b then BitVec.allOnes cycles else 0 := by
  apply BitVec.eq_of_getLsbD_eq
  intro k hk
  have hb := h (cycles - 1 - k) (by omega)
  rw [getLsbD_storedVectorD cycles x hk,
    show w + cycles + 1 - 2 - k = w + (cycles - 1 - k) by omega, hb]
  cases b <;> (simp [hk] ; try omega)

theorem stable_of_storedVectorD {b : Bool}
    (h : storedVectorD (stateAt cycles x t) = if b then BitVec.allOnes cycles else 0)
    (ht : cycles + 1 ≤ t) : Stable cycles x b (t - cycles - 1) := by
  intro k hk
  have hget := getLsbD_storedVectorD cycles x (t := t) (k := cycles - 1 - k) (by omega)
  rw [h, show t - 2 - (cycles - 1 - k) = t - cycles - 1 + k by omega] at hget
  have hlt : cycles - 1 - k < cycles := by omega
  have hle : cycles - 1 - k + 2 ≤ t := by omega
  cases b <;> simpa [hlt, hle] using hget.symm

/-- The reset value of the vector has no ones. -/
theorem le_of_storedVectorD (hpos : 0 < cycles)
    (h : storedVectorD (stateAt cycles x t) = BitVec.allOnes cycles) : cycles + 1 ≤ t := by
  have hget := getLsbD_storedVectorD cycles x (t := t) (k := cycles - 1) (by omega)
  rw [h] at hget
  have hlt : cycles - 1 < cycles := by omega
  simp only [BitVec.getLsbD_allOnes, hlt, decide_true, Bool.true_eq, Bool.and_eq_true,
    decide_eq_true_eq] at hget
  omega

/-- The value is set by a vector of ones and kept until one of zeros. -/
theorem storedValue_succ (hpos : 0 < cycles) :
    (stateAt cycles x (t + 1)).storedValue = true ↔
      storedVectorD (stateAt cycles x t) = BitVec.allOnes cycles ∨
        (stateAt cycles x t).storedValue = true ∧ storedVectorD (stateAt cycles x t) ≠ 0 := by
  have hbit : (storedVectorD (stateAt cycles x t)).getLsbD 0 = filterSynced (stateAt cycles x t) := by
    rw [storedVectorD, BitVec.getLsbD_shiftConcat]
    simp [hpos]
  have hne : BitVec.allOnes cycles ≠ 0 := by
    intro h
    have hget := congrArg (BitVec.getLsbD · 0) h
    simp [hpos] at hget
  rw [stateAt_succ, step, updateStoredValue]
  by_cases hones : storedVectorD (stateAt cycles x t) = BitVec.allOnes cycles
  · rw [hones] at hbit ⊢
    simp [← hbit, hpos]
  · by_cases hzero : storedVectorD (stateAt cycles x t) = 0
    · rw [hzero] at hbit ⊢
      simp [← hbit, hpos.ne']
    · have hzero' : storedVectorD (stateAt cycles x t) ≠ BitVec.ofNat cycles 0 := hzero
      simp [hones, hzero']

/-- The filtered value is set exactly while the condition is held. -/
theorem storedValue_iff (hpos : 0 < cycles) (t : ℕ) :
    (stateAt cycles x t).storedValue = true ↔ Held cycles x t := by
  induction t with
  | zero =>
      constructor
      · intro h
        simp [stateAt, State.reset] at h
      · rintro ⟨w, hw, -⟩
        omega
  | succ t ih =>
      rw [storedValue_succ hpos, ih]
      constructor
      · rintro (hones | ⟨⟨w, hw, hrun, hkeep⟩, hzero⟩)
        · have hle := le_of_storedVectorD hpos hones
          have hrun : Stable cycles x true (t - cycles - 1) :=
            stable_of_storedVectorD (by simpa using hones) hle
          refine ⟨t - cycles - 1, by omega, hrun, fun v hv hvt hfalse => ?_⟩
          have heq : v = t - cycles - 1 := by omega
          have h1 := hrun 0 hpos
          rw [← heq, hfalse 0 hpos] at h1
          cases h1
        · refine ⟨w, by omega, hrun, fun v hv hvt hfalse => ?_⟩
          obtain hlt | heq : v + cycles + 2 ≤ t ∨ v + cycles + 1 = t := by omega
          · exact hkeep v hv hlt hfalse
          · apply hzero
            rw [← heq]
            simpa using storedVectorD_of_stable hfalse
      · rintro ⟨w, hw, hrun, hkeep⟩
        obtain heq | hlt : w + cycles + 1 = t ∨ w + cycles + 2 ≤ t := by omega
        · left
          rw [← heq]
          simpa using storedVectorD_of_stable hrun
        · refine .inr ⟨⟨w, hlt, hrun, fun v hv hvt => hkeep v hv (by omega)⟩, fun hzero => ?_⟩
          exact hkeep (t - cycles - 1) (by omega) (by omega)
            (stable_of_storedVectorD (by simpa using hzero) (by omega))

theorem held_of_stable (hpos : 0 < cycles) {w : ℕ} (h : Stable cycles x true w) :
    Held cycles x (w + cycles + 2) := by
  refine ⟨w, le_rfl, h, fun v hv hvt hfalse => ?_⟩
  have heq : v = w := by omega
  have h1 := h 0 hpos
  rw [← heq, hfalse 0 hpos] at h1
  cases h1

/-- What is held from cycle `t + 1` on was sampled last in the cycles before. -/
theorem stable_of_held_succ (h : Held cycles x (t + 1)) (hprev : ¬ Held cycles x t) :
    ∃ w, w + cycles + 1 = t ∧ Stable cycles x true w := by
  obtain ⟨w, hw, hrun, hkeep⟩ := h
  refine ⟨w, ?_, hrun⟩
  by_contra hne
  exact hprev ⟨w, by omega, hrun, fun v hv hvt => hkeep v hv (by omega)⟩

/-! ### A detector behind the filter -/

/-- In cycle `t` the condition has been sampled as often as the filter asks for, from cycle `w` on,
all while the detector was active. -/
structure Confirmed (cycles : ℕ) (x active : ℕ → Bool) (t w : ℕ) : Prop where
  stable : Stable cycles x true w
  ends : w + cycles ≤ t + 1
  active : ∀ u, w ≤ u → u ≤ t → active u = true

/-- The detector that becomes active after cycle `a` meets a filter without history: the value is
not set, and no samples from before set it later, unless they go on for as long again. -/
structure Clean (cycles : ℕ) (x active : ℕ → Bool) (a : ℕ) : Prop where
  notHeld : ¬ Held cycles x (a + 1)
  noCarry : ∀ w ≤ a, a ≤ w + cycles → Stable cycles x true w →
    (∀ u, a < u → u ≤ w + cycles + 2 → active u = true) →
      a + 1 ≤ w + 3 ∧ Stable cycles x true (a + 1)

section Detector
variable {active q : ℕ → Bool}

/-- What sets the flag of a detector, and what keeps it. -/
def Detects (cycles : ℕ) (x active q : ℕ → Bool) : Prop :=
  q 0 = false ∧ ∀ t, q (t + 1) = (((stateAt cycles x t).storedValue || q t) && active t)

/-- A flag that is down has not seen the condition since the detector became active. -/
theorem not_held_of_flag (hq : Detects cycles x active q) (hpos : 0 < cycles) {m n : ℕ}
    (hactive : ∀ u, m ≤ u → u < n → active u = true) (hn : q n = false) :
    ∀ u, m ≤ u → u < n → ¬ Held cycles x u := by
  induction n with
  | zero =>
      intro u _ hu
      omega
  | succ n ih =>
      intro u hu hun
      rw [hq.2, hactive n (by omega) (by omega)] at hn
      simp only [Bool.and_true, Bool.or_eq_false_iff] at hn
      obtain hlt | rfl : u < n ∨ u = n := by omega
      · exact ih (fun v hv hvn => hactive v hv (by omega)) hn.2 u hu hlt
      · rw [← storedValue_iff hpos, hn.1]
        simp

theorem flag_of_not_held (hq : Detects cycles x active q) (hpos : 0 < cycles) {m n : ℕ}
    (hmn : m ≤ n) (hnone : ∀ u, m ≤ u → u < n → ¬ Held cycles x u) (hm : q m = false) :
    q n = false := by
  induction n, hmn using Nat.le_induction with
  | base => exact hm
  | succ n hmn ih =>
      have hprev := ih fun u hu hun => hnone u hu (by omega)
      have hnot := hnone n hmn (by omega)
      rw [← storedValue_iff hpos, Bool.not_eq_true] at hnot
      rw [hq.2, hprev, hnot]
      rfl

/-- The flag rises only for a condition that was sampled while the detector was active exactly if
every activation meets a filter without history. -/
theorem confirmed_iff (hlen : 3 ≤ cycles) (hactive : active 0 = false)
    (hq : Detects cycles x active q) :
    (∀ t, q t = false → q (t + 1) = true → ∃ w, Confirmed cycles x active t w) ↔
      ∀ a, active a = false → active (a + 1) = true → Clean cycles x active a := by
  have hpos : 0 < cycles := by omega
  have hrise : ∀ t, Held cycles x t → active t = true → q (t + 1) = true := by
    intro t hheld hact
    rw [hq.2, (storedValue_iff hpos t).2 hheld, hact]
    rfl
  constructor
  · intro hall a ha hact
    have hlow : q (a + 1) = false := by rw [hq.2, ha, Bool.and_false]
    constructor
    case notHeld =>
      intro hheld
      obtain ⟨w, -, hends, hwact⟩ := hall (a + 1) hlow (hrise _ hheld hact)
      rw [hwact a (by omega) (by omega)] at ha
      cases ha
    case noCarry =>
      intro w hw haw hrun hon
      -- the first cycle of the activation in which the condition is held
      have hex : ∃ t, a < t ∧ Held cycles x t :=
        ⟨w + cycles + 2, by omega, held_of_stable hpos hrun⟩
      classical
      obtain ⟨hlt, hheld⟩ := Nat.find_spec hex
      have hle : Nat.find hex ≤ w + cycles + 2 :=
        Nat.find_min' hex ⟨by omega, held_of_stable hpos hrun⟩
      have hdown : q (Nat.find hex) = false :=
        flag_of_not_held hq hpos hlt
          (fun u hu hut hheldu => Nat.find_min hex hut ⟨hu, hheldu⟩) hlow
      obtain ⟨v, hv, hends, hvact⟩ := hall _ hdown (hrise _ hheld (hon _ hlt hle))
      have hav : a < v := by
        by_contra hva
        rw [hvact a (by omega) (by omega)] at ha
        cases ha
      refine ⟨by omega, fun k hk => ?_⟩
      -- the samples from `w` and those from `v` overlap
      obtain hk' | hk' : a + 1 + k < w + cycles ∨ w + cycles ≤ a + 1 + k := by omega
      · have h1 := hrun (a + 1 + k - w) (by omega)
        rwa [show w + (a + 1 + k - w) = a + 1 + k by omega] at h1
      · have h1 := hv (a + 1 + k - v) (by omega)
        rwa [show v + (a + 1 + k - v) = a + 1 + k by omega] at h1
  · intro hclean t hlow hhigh
    rw [hq.2, hlow, Bool.or_false, Bool.and_eq_true, storedValue_iff hpos] at hhigh
    obtain ⟨hheld, hact⟩ := hhigh
    obtain ⟨a, hat, ha, -, hon⟩ := exists_entry (fun u => active u = true) (fun _ => True)
      (fun u => active u = false) (fun _ => True) (by simp [hactive])
      (fun u _ => ⟨trivial, by cases active u <;> simp⟩) hact
    have hon' : ∀ u, a < u → u ≤ t → active u = true := by
      intro u hu hut
      obtain hlt | rfl : u < t ∨ u = t := by omega
      · exact (hon u hu hlt).1
      · exact hact
    have hstart := hclean a ha (hon' (a + 1) (by omega) (by omega))
    have hne : a + 1 ≠ t := by
      rintro rfl
      exact hstart.notHeld hheld
    obtain ⟨t, rfl⟩ : ∃ n, t = n + 1 := ⟨t - 1, by omega⟩
    have hprev : ¬ Held cycles x t :=
      not_held_of_flag hq hpos (fun u hu hut => hon' u hu (by omega)) hlow t
        (show a + 1 ≤ t by omega) (by omega)
    obtain ⟨w, hw, hrun⟩ := stable_of_held_succ hheld hprev
    obtain haw | hwa : a < w ∨ w ≤ a := by omega
    · exact ⟨w, hrun, by omega, fun u hu hut => hon' u (by omega) hut⟩
    · obtain ⟨hnear, hagain⟩ := hstart.noCarry w hwa (by omega) hrun
        fun u hu hut => hon' u hu (by omega)
      exact ⟨a + 1, hagain, by omega, fun u hu hut => hon' u (by omega) hut⟩

end Detector

end SyncFilter

end UsbDev
