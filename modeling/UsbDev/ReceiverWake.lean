import Mathlib.Algebra.Ring.Nat
import Mathlib.Data.Nat.Log
import UsbDev.Clocked
import UsbDev.FsRx

/-!
# Wake-up of the differential receiver

The part of `usbdev` that holds `usb_diff_rx_ok` off after the receiver is
enabled: the free-running microsecond tick and the countdown it clocks. The
parameter is `RcvrWakeTimeUs`, written `R` below.
-/
namespace UsbDev.ReceiverWake

open Clocked

/-- `vbits`, the width of a register that holds `value` items. -/
def vbits (value : ℕ) : ℕ := if value = 1 then 1 else Nat.clog 2 value

/-- `RcvrWakeTimeWidth`. -/
def rcvrWakeTimeWidth (R : ℕ) : ℕ := vbits (R + 2)

/-- The value the countdown is reloaded with, one more than the time to account for the phase
of the tick. -/
def reload (R : ℕ) : BitVec (rcvrWakeTimeWidth R) := BitVec.ofNat _ (R + 1)

structure State (R : ℕ) where
  nsCnt : BitVec 6
  usbRcvrOkCounter : BitVec (rcvrWakeTimeWidth R)

/-- The configuration, the suspend state of the link and the override of the pins. -/
structure Input where
  useDiffRcvr : Bool
  linkSuspend : Bool
  driveEn : Bool
  driveRxEnable : Bool
  deriving DecidableEq, Repr

/-- Register values under reset. -/
def State.reset (R : ℕ) : State R where
  nsCnt := 0
  usbRcvrOkCounter := reload R

variable {R : ℕ}

def usTick (s : State R) : Bool := s.nsCnt == 47

def usbRxEnable (i : Input) : Bool := i.useDiffRcvr && !i.linkSuspend

/-- `usb_rx_enable_o`, after the I/O mux. -/
def usbRxEnableO (i : Input) : Bool := if i.driveEn then i.driveRxEnable else usbRxEnable i

def usbDiffRxOk (s : State R) : Bool := s.usbRcvrOkCounter == 0

def usbRcvrOkCounterD (s : State R) (i : Input) : BitVec (rcvrWakeTimeWidth R) :=
  if i.useDiffRcvr && !usbRxEnableO i then reload R
  else if usTick s && decide (0 < s.usbRcvrOkCounter) then s.usbRcvrOkCounter - 1
  else 0

def step (s : State R) (i : Input) : State R where
  nsCnt := if usTick s then 0 else s.nsCnt + 1
  usbRcvrOkCounter := usbRcvrOkCounterD s i

/-! ### One cycle -/

theorem lt_two_pow_width (R : ℕ) : R + 1 < 2 ^ rcvrWakeTimeWidth R := by
  have hne : R + 2 ≠ 1 := by omega
  have hle : R + 2 ≤ 2 ^ Nat.clog 2 (R + 2) := Nat.le_pow_clog (by omega) _
  rw [rcvrWakeTimeWidth, vbits, if_neg hne]
  omega

@[simp] theorem toNat_reload (R : ℕ) : (reload R).toNat = R + 1 := by
  rw [reload, BitVec.toNat_ofNat, Nat.mod_eq_of_lt (lt_two_pow_width R)]

theorem usbDiffRxOk_eq_false {s : State R} :
    usbDiffRxOk s = false ↔ s.usbRcvrOkCounter.toNat ≠ 0 := by
  simp [usbDiffRxOk, BitVec.toNat_eq]

/-- The tick lasts one cycle. -/
theorem usTick_step {s : State R} {i : Input} (h : usTick s = true) :
    usTick (step s i) = false := by
  simp [usTick, step] at h ⊢
  simp [h]

/-- A disabled receiver reloads the countdown. -/
theorem counter_disabled {s : State R} {i : Input} (hu : i.useDiffRcvr = true)
    (hi : usbRxEnableO i = false) : (step s i).usbRcvrOkCounter.toNat = R + 1 := by
  simp [step, usbRcvrOkCounterD, hu, hi]

/-- While the receiver is enabled, a cycle without a tick ends the countdown. -/
theorem counter_enabled {s : State R} {i : Input} (hi : usbRxEnableO i = true) :
    (step s i).usbRcvrOkCounter.toNat =
      if usTick s then s.usbRcvrOkCounter.toNat - 1 else 0 := by
  have hlt := s.usbRcvrOkCounter.isLt
  cases ht : usTick s with
  | false => simp [step, usbRcvrOkCounterD, hi, ht]
  | true =>
      by_cases hpos : 0#(rcvrWakeTimeWidth R) < s.usbRcvrOkCounter
      · have hpos' : 0 < s.usbRcvrOkCounter.toNat := hpos
        have hle : 1#(rcvrWakeTimeWidth R) ≤ s.usbRcvrOkCounter := by
          rw [BitVec.le_def, BitVec.toNat_ofNat]
          exact (Nat.mod_le _ _).trans hpos'
        have hone : (1#(rcvrWakeTimeWidth R)).toNat = 1 := by
          rw [BitVec.toNat_ofNat]
          exact Nat.mod_eq_of_lt (by omega)
        simp [step, usbRcvrOkCounterD, hi, ht, hpos, BitVec.toNat_sub_of_le hle, hone]
      · have hzero : s.usbRcvrOkCounter.toNat = 0 := Nat.eq_zero_of_not_pos hpos
        simp [step, usbRcvrOkCounterD, hi, ht, hpos, hzero]

/-! ### Runs -/

variable {inp : ℕ → Input}

/-- The registers in cycle `t` after reset. -/
def atCycle (R : ℕ) (inp : ℕ → Input) (t : ℕ) : State R := traj step (State.reset R) inp t

theorem atCycle_succ (R : ℕ) (inp : ℕ → Input) (t : ℕ) :
    atCycle R inp (t + 1) = step (atCycle R inp t) (inp t) := rfl

/-- After two cycles `usb_diff_rx_ok` is still low only if the receiver was disabled in the
second, or in the first and the tick came in the second. -/
theorem not_ok_iff (hR : 1 ≤ R) (hu : ∀ u, (inp u).useDiffRcvr = true) (t : ℕ) :
    usbDiffRxOk (atCycle R inp (t + 2)) = false ↔
      usbRxEnableO (inp (t + 1)) = false ∨
        (usTick (atCycle R inp (t + 1)) = true ∧ usbRxEnableO (inp t) = false) := by
  rw [usbDiffRxOk_eq_false, atCycle_succ]
  cases hi : usbRxEnableO (inp (t + 1)) with
  | false => simp [counter_disabled (hu (t + 1)) hi]
  | true =>
      rw [counter_enabled hi]
      cases ht : usTick (atCycle R inp (t + 1)) with
      | false => simp
      | true =>
          have hprev : usTick (atCycle R inp t) = false := by
            by_contra hne
            rw [Bool.not_eq_false] at hne
            rw [atCycle_succ, usTick_step hne] at ht
            exact absurd ht (by simp)
          rw [atCycle_succ]
          cases hj : usbRxEnableO (inp t) with
          | false =>
              simp [counter_disabled (hu t) hj]
              omega
          | true => simp [counter_enabled hj, hprev]

/-! ### The wake-up time -/

/-- The inputs of `usb_fs_rx` from the samples of the line: its symbols count as valid, and come
from the differential receiver, as the wake-up logic says. -/
def rxInput (R : ℕ) (inp : ℕ → Input) (line : ℕ → FsRx.Input) (u : ℕ) : FsRx.Input :=
  { line u with
    diffRxOk := usbDiffRxOk (atCycle R inp u), cfgUseDiffRcvr := usbRxEnableO (inp u) }

/-- The receiver enabled in cycle `t` is left the time it needs: its symbols are rejected for
`R` microseconds, of 48 cycles each, and no packet starts from them, and they are accepted after
one microsecond more at the latest if it stays enabled. -/
structure WakesIn (R : ℕ) (inp : ℕ → Input) (t : ℕ) : Prop where
  rejects : ∀ k < 48 * R, usbDiffRxOk (atCycle R inp (t + k)) = false
  accepts : (∀ k < 48 * (R + 1), usbRxEnableO (inp (t + k)) = true) →
    ∃ k ≤ 48 * (R + 1), usbDiffRxOk (atCycle R inp (t + k)) = true
  noStart : ∀ line, ∀ k < 48 * R, FsRx.packetStart
    (traj FsRx.step FsRx.State.reset (rxInput R inp line) (t + k)) (rxInput R inp line (t + k)) =
      false

/-- The receiver enabled in cycle `t` is switched off in each further cycle of its wake-up time,
except that it may be on in cycles in which the tick comes and which follow one with the receiver
off. -/
def Interrupted (R : ℕ) (inp : ℕ → Input) (t : ℕ) : Prop :=
  ∀ k, k + 1 < 48 * R → usbRxEnableO (inp (t + k)) = false ∨
    (usTick (atCycle R inp (t + k)) = true ∧ usbRxEnableO (inp (t + k - 1)) = false)

/-- No packet starts in a cycle in which the symbols are rejected. -/
theorem packetStart_eq_false {s : FsRx.State} {i : FsRx.Input} (h : i.diffRxOk = false) :
    FsRx.packetStart s i = false := by
  unfold FsRx.packetStart FsRx.packetValidD
  cases hv : FsRx.lineStateValid s <;> cases hp : s.packetValid <;> simp [h]

/-- The wake-up time is kept exactly when the receiver never stays enabled. -/
theorem wakesIn_iff (R : ℕ) (inp : ℕ → Input) (t : ℕ) (hR : 1 ≤ R)
    (huse : ∀ u, (inp u).useDiffRcvr = true) (hlow : usbRxEnableO (inp t) = false)
    (hrise : usbRxEnableO (inp (t + 1)) = true) :
    WakesIn R inp (t + 1) ↔ Interrupted R inp (t + 1) := by
  constructor
  · intro h k hk
    have hrej := h.rejects (k + 1) hk
    rw [show t + 1 + (k + 1) = t + k + 2 by omega, not_ok_iff hR huse] at hrej
    rwa [show t + 1 + k - 1 = t + k by omega, show t + 1 + k = t + k + 1 by omega]
  · intro h
    have hrejects : ∀ k < 48 * R, usbDiffRxOk (atCycle R inp (t + 1 + k)) = false := by
      intro k hk
      cases k with
      | zero =>
          rw [Nat.add_zero, usbDiffRxOk_eq_false, atCycle_succ, counter_disabled (huse t) hlow]
          omega
      | succ k =>
          have hint := h k hk
          rw [show t + 1 + k - 1 = t + k by omega, show t + 1 + k = t + k + 1 by omega] at hint
          rw [show t + 1 + (k + 1) = t + k + 2 by omega, not_ok_iff hR huse]
          exact hint
    constructor
    case rejects => exact hrejects
    case accepts =>
      intro hstay
      refine ⟨2, by omega, ?_⟩
      have h1 : usbRxEnableO (inp (t + 1 + 1)) = true := hstay 1 (by omega)
      rw [← Bool.not_eq_false, not_ok_iff hR huse, h1, hrise]
      simp
    case noStart =>
      intro line k hk
      exact packetStart_eq_false (hrejects k hk)

/-- The receiver is enabled in the cycles that `on` selects, otherwise the link is suspended. -/
def enabledIn (on : ℕ → Bool) (t : ℕ) : Input where
  useDiffRcvr := true
  linkSuspend := !on t
  driveEn := false
  driveRxEnable := false

/-- A receiver enabled for the one cycle of the tick. -/
theorem wakesIn_tick : WakesIn 1 (enabledIn (· == 47)) 47 := by
  apply (wakesIn_iff 1 (enabledIn (· == 47)) 46 (by decide) (fun _ => rfl) rfl rfl).2
  intro k hk
  cases k with
  | zero => exact .inr ⟨by decide +kernel, rfl⟩
  | succ k => exact .inl (by simp [usbRxEnableO, usbRxEnable, enabledIn])

/-- After a resume with a wake-up time of one microsecond the symbols are accepted in the second
cycle. -/
theorem not_wakesIn_resume : (∀ u, (enabledIn (0 < ·) u).useDiffRcvr = true) ∧
    usbRxEnableO (enabledIn (0 < ·) 0) = false ∧
    (∀ u, usbRxEnableO (enabledIn (0 < ·) (u + 1)) = true) ∧
    ¬ WakesIn 1 (enabledIn (0 < ·)) 1 := by
  refine ⟨fun _ => rfl, rfl, fun _ => by simp [usbRxEnableO, usbRxEnable, enabledIn], ?_⟩
  intro h
  have hrej := h.rejects 1 (by decide)
  rw [not_ok_iff (by decide) (fun _ => rfl)] at hrej
  exact absurd hrej (by decide +kernel)

end UsbDev.ReceiverWake
