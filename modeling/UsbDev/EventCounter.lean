import Mathlib.Algebra.Order.Group.Nat
import Mathlib.Data.Finset.Card
import Mathlib.Order.Interval.Finset.Nat
import UsbDev.ReceiverWake

/-!
# The event counters

`usbdev_counter` for any number of endpoints, of events and of bits: a saturating
counter of the rising edges of enabled events on enabled endpoints. A software
reset freezes the edge memory, and the comparison of the endpoint number is made
in the width of that number.
-/
namespace UsbDev.EventCounter

open Clocked
open ReceiverWake (vbits)

/-- `EpW`. -/
def epW (nEndpoints : ℕ) : ℕ := vbits nEndpoints

structure State (nEndpoints nEvents width : ℕ) where
  endpoints : BitVec nEndpoints
  evEnables : BitVec nEvents
  count : BitVec width
  eventQ : BitVec nEvents

structure Input (nEndpoints nEvents : ℕ) where
  /-- `reset_i`, the software reset. -/
  reset : Bool := false
  event : BitVec nEvents := 0
  ep : BitVec (epW nEndpoints) := 0
  evQe : Bool := false
  ev : BitVec nEvents := 0
  endpQe : Bool := false
  endpoints : BitVec nEndpoints := 0

variable {N M W : ℕ}

/-- Register values under `rst_ni`. -/
def State.reset (N M W : ℕ) : State N M W where
  endpoints := 0
  evEnables := 0
  count := 0
  eventQ := 0

/-- `ep_enabled`. -/
def epEnabled (s : State N M W) (i : Input N M) : Bool :=
  if 1 < N then if i.ep < BitVec.ofNat (epW N) N then s.endpoints.getLsbD i.ep.toNat else false
  else s.endpoints.getLsbD 0

/-- An enabled event is 1 that was 0 in `before`. -/
def rises (s : State N M W) (i : Input N M) (before : BitVec M) : Bool :=
  s.evEnables &&& i.event &&& ~~~before != 0

/-- The count goes up, unless it is saturated. -/
def hit (s : State N M W) (i : Input N M) : Bool := rises s i s.eventQ && epEnabled s i

/-- One clock cycle. -/
def step (s : State N M W) (i : Input N M) : State N M W where
  endpoints := if i.endpQe then i.endpoints else s.endpoints
  evEnables := if i.evQe then i.ev else s.evEnables
  count :=
    if i.reset then 0
    else if hit s i then s.count + (if s.count = BitVec.allOnes W then 0 else 1)
    else s.count
  eventQ := if i.reset then s.eventQ else i.event

/-! ### The count -/

theorem toNat_count_step (s : State N M W) (i : Input N M) : (step s i).count.toNat =
    if i.reset then 0 else min (2 ^ W - 1) (s.count.toNat + (hit s i).toNat) := by
  have hlt := s.count.isLt
  simp only [step]
  split_ifs with hreset hhit hones
  · simp
  · simp [hones, hhit]
  · have hne : s.count.toNat ≠ 2 ^ W - 1 := by
      intro h
      exact hones (BitVec.eq_of_toNat_eq (by rw [h, BitVec.toNat_allOnes]))
    have hpos : 0 < W := by
      rcases Nat.eq_zero_or_pos W with rfl | h
      · omega
      · exact h
    have hone : (1 : BitVec W).toNat = 1 := BitVec.toNat_one hpos
    rw [BitVec.toNat_add, hone, hhit, Bool.toNat_true, Nat.mod_eq_of_lt (by omega)]
    omega
  · simp only [Bool.not_eq_true] at hhit
    rw [hhit, Bool.toNat_false]
    omega

/-- The number of cycles before `t`, after the last software reset, that `counted` selects. -/
def sinceReset (inp : ℕ → Input N M) (counted : ℕ → Bool) (t : ℕ) : ℕ :=
  ((Finset.range t).filter fun u =>
    (∀ v < t, u ≤ v → (inp v).reset = false) ∧ counted u = true).card

theorem sinceReset_succ (inp : ℕ → Input N M) (counted : ℕ → Bool) (t : ℕ) :
    sinceReset inp counted (t + 1) =
      if (inp t).reset then 0 else sinceReset inp counted t + (counted t).toNat := by
  unfold sinceReset
  split_ifs with hreset
  · rw [Finset.card_eq_zero, Finset.filter_eq_empty_iff]
    rintro u hu ⟨hnone, -⟩
    have hut := Finset.mem_range.1 hu
    rw [hnone t (by omega) (by omega)] at hreset
    exact absurd hreset (by decide)
  · rw [Bool.not_eq_true] at hreset
    have hold : ∀ u ∈ Finset.range t,
        ((∀ v < t + 1, u ≤ v → (inp v).reset = false) ∧ counted u = true ↔
          (∀ v < t, u ≤ v → (inp v).reset = false) ∧ counted u = true) := by
      intro u _
      refine and_congr_left fun _ => ⟨fun h v hv => h v (by omega), fun h v hv huv => ?_⟩
      obtain hlt | rfl : v < t ∨ v = t := by omega
      · exact h v hlt huv
      · exact hreset
    have hlast : (∀ v < t + 1, t ≤ v → (inp v).reset = false) ∧ counted t = true ↔
        counted t = true := by
      refine and_iff_right fun v hv htv => ?_
      obtain rfl : v = t := by omega
      exact hreset
    rw [Finset.range_add_one, Finset.filter_insert, Finset.filter_congr hold, if_congr hlast rfl rfl]
    cases hc : counted t with
    | false => simp
    | true => simp

/-- The count is the saturated number of hits since the last reset. -/
theorem count_run (inp : ℕ → Input N M) (t : ℕ) :
    (traj step (State.reset N M W) inp t).count.toNat = min (2 ^ W - 1)
      (sinceReset inp (fun u => hit (traj step (State.reset N M W) inp u) (inp u)) t) := by
  induction t with
  | zero => simp [State.reset, sinceReset]
  | succ t ih =>
      rw [traj_succ, toNat_count_step, sinceReset_succ, ih]
      split_ifs
      · simp
      · omega

/-! ### What a cycle counts -/

/-- `ep_i` is an enabled endpoint. With one endpoint the number is not looked at. -/
def onEndpoint (s : State N M W) (i : Input N M) : Bool :=
  s.endpoints.getLsbD (if 1 < N then i.ep.toNat else 0)

theorem epEnabled_eq (s : State N M W) (i : Input N M) :
    epEnabled s i = (onEndpoint s i && !decide (1 < N ∧ N.isPowerOfTwo)) := by
  unfold epEnabled onEndpoint
  by_cases hN : 1 < N
  · have hvbits : epW N = Nat.clog 2 N := by
      rw [epW, vbits, if_neg (by omega)]
    have hle : N ≤ 2 ^ epW N := hvbits ▸ Nat.le_pow_clog (by omega) N
    simp only [hN, if_true, true_and]
    by_cases hpow : N.isPowerOfTwo
    · have hzero : BitVec.ofNat (epW N) N = 0 := by
        obtain ⟨k, rfl⟩ := hpow
        rw [hvbits, Nat.clog_pow 2 k (by decide)]
        apply BitVec.eq_of_toNat_eq
        simp only [BitVec.ofNat_eq_ofNat, BitVec.toNat_ofNat, Nat.mod_self, Nat.zero_mod]
      simp [hzero, hpow]
    · have hlt : N < 2 ^ epW N := lt_of_le_of_ne hle fun h => hpow ⟨_, h⟩
      have htoNat : (BitVec.ofNat (epW N) N).toNat = N := by
        rw [BitVec.toNat_ofNat, Nat.mod_eq_of_lt hlt]
      simp only [hpow, decide_false, Bool.not_false, Bool.and_true, BitVec.lt_def, htoNat]
      split_ifs with hep
      · rfl
      · exact (BitVec.getLsbD_of_ge _ _ (by omega)).symm
  · simp [hN]

/-- The events in the cycle before, which are 0 before the first. -/
def previous (inp : ℕ → Input N M) : ℕ → BitVec M
  | 0 => 0
  | t + 1 => (inp t).event

/-- The events in the last cycle before without a software reset. -/
def held (inp : ℕ → Input N M) : ℕ → BitVec M
  | 0 => 0
  | t + 1 => if (inp t).reset then held inp t else (inp t).event

theorem eventQ_run (inp : ℕ → Input N M) (t : ℕ) :
    (traj step (State.reset N M W) inp t).eventQ = held inp t := by
  induction t with
  | zero => rfl
  | succ t ih =>
      rw [held, ← ih]
      rfl

/-- In cycle `t` some enabled event is 1 that was 0 in the cycle before, while the endpoint is
enabled. -/
def counted (W : ℕ) (inp : ℕ → Input N M) (t : ℕ) : Bool :=
  let s := traj step (State.reset N M W) inp t
  rises s (inp t) (previous inp t) && onEndpoint s (inp t)

/-- Where the number of endpoints is a power of two, nothing is to be counted. Otherwise, in the
first cycle after a reset on an enabled endpoint, some enabled event rises against the last cycle
of the reset exactly if some enabled event rises against the last cycle before it. -/
structure Exact (W : ℕ) (inp : ℕ → Input N M) : Prop where
  endpoints : 1 < N → N.isPowerOfTwo → ∀ t, (inp t).reset = false → counted W inp t = false
  resets : ¬ (1 < N ∧ N.isPowerOfTwo) → ∀ t, (inp t).reset = true → (inp (t + 1)).reset = false →
    onEndpoint (traj step (State.reset N M W) inp (t + 1)) (inp (t + 1)) = true →
    rises (traj step (State.reset N M W) inp (t + 1)) (inp (t + 1)) (held inp t) =
      rises (traj step (State.reset N M W) inp (t + 1)) (inp (t + 1)) (previous inp (t + 1))

theorem sinceReset_congr {inp : ℕ → Input N M} {f g : ℕ → Bool}
    (h : ∀ t, (inp t).reset = false → f t = g t) (t : ℕ) :
    sinceReset inp f t = sinceReset inp g t := by
  induction t with
  | zero => simp [sinceReset]
  | succ t ih =>
      rw [sinceReset_succ, sinceReset_succ, ih]
      cases hreset : (inp t).reset with
      | true => rfl
      | false => rw [h t hreset]

theorem hit_eq (inp : ℕ → Input N M) (t : ℕ) :
    hit (traj step (State.reset N M W) inp t) (inp t) =
      (rises (traj step (State.reset N M W) inp t) (inp t) (held inp t) &&
        onEndpoint (traj step (State.reset N M W) inp t) (inp t) &&
          !decide (1 < N ∧ N.isPowerOfTwo)) := by
  rw [hit, eventQ_run, epEnabled_eq, Bool.and_assoc]

/-- The hits are the cycles to be counted. -/
theorem Exact.hit_eq_counted {inp : ℕ → Input N M} (h : Exact W inp) (t : ℕ)
    (hreset : (inp t).reset = false) :
    hit (traj step (State.reset N M W) inp t) (inp t) = counted W inp t := by
  rw [hit_eq]
  by_cases hpow : 1 < N ∧ N.isPowerOfTwo
  · rw [h.endpoints hpow.1 hpow.2 t hreset]
    simp [hpow]
  · simp only [hpow, decide_false, Bool.not_false, Bool.and_true, counted]
    cases t with
    | zero => rfl
    | succ t =>
        cases hprev : (inp t).reset with
        | false => simp [held, previous, hprev]
        | true =>
            have hrises := h.resets hpow t hprev hreset
            rw [held, hprev, if_pos rfl]
            cases hon : onEndpoint (traj step (State.reset N M W) inp (t + 1)) (inp (t + 1)) with
            | false => simp
            | true => rw [hrises hon]

/-- The counter shows the saturated number of rising edges since the last reset, in every cycle,
exactly under the condition on the number of endpoints and on the ends of the resets. -/
theorem count_eq_iff (hW : 0 < W) (inp : ℕ → Input N M) :
    (∀ t, (traj step (State.reset N M W) inp t).count.toNat =
      min (2 ^ W - 1) (sinceReset inp (counted W inp) t)) ↔ Exact W inp := by
  have hmax : 1 ≤ 2 ^ W - 1 := by
    have hlt : 2 ^ 1 ≤ 2 ^ W := Nat.pow_le_pow_right (by decide) hW
    omega
  constructor
  · intro hall
    have hboth := fun t => (count_run (W := W) inp t).symm.trans (hall t)
    constructor
    case endpoints =>
      intro hN hpow t hreset
      have hnone : ∀ u, hit (traj step (State.reset N M W) inp u) (inp u) = false := by
        intro u
        rw [hit_eq]
        simp [hN, hpow]
      have hzero := hall (t + 1)
      rw [count_run, sinceReset_congr (g := fun _ => false) fun u _ => hnone u,
        sinceReset_succ _ (counted W inp), hreset] at hzero
      have hfalse : sinceReset inp (fun _ => false) (t + 1) = 0 := by simp [sinceReset]
      rw [hfalse] at hzero
      by_contra hne
      rw [Bool.not_eq_false] at hne
      rw [hne] at hzero
      simp only [Bool.false_eq_true, if_false, Bool.toNat_true] at hzero
      omega
    case resets =>
      intro hpow t hprev hreset hon
      have hnext := hboth (t + 2)
      simp only [sinceReset_succ, hprev, hreset, if_true, Bool.false_eq_true, if_false,
        Nat.zero_add] at hnext
      have hbits : hit (traj step (State.reset N M W) inp (t + 1)) (inp (t + 1)) =
          counted W inp (t + 1) := by
        generalize hit (traj step (State.reset N M W) inp (t + 1)) (inp (t + 1)) = a at hnext ⊢
        generalize counted W inp (t + 1) = b at hnext ⊢
        cases a <;> cases b <;> simp at hnext ⊢ <;> omega
      rw [hit_eq, counted, held, hprev, if_pos rfl] at hbits
      simpa [hpow, hon] using hbits
  · intro h t
    rw [count_run, sinceReset_congr h.hit_eq_counted]

/-! ### Small counters -/

/-- Software enables event 0 on endpoint 0. -/
def enable (N : ℕ) : Input N 1 where
  evQe := true
  ev := 1
  endpQe := true
  endpoints := 1

/-- The event pulses in every second cycle, without a reset. -/
def pulses (t : ℕ) : Input 12 1 := if t = 0 then enable 12 else { event := BitVec.ofNat 1 t }

theorem count_pulses : (traj step (State.reset 12 1 8) pulses 8).count.toNat =
    min 255 (sinceReset pulses (counted 8 pulses) 8) := by
  have hreset : ∀ u, (pulses u).reset = false := by
    intro u
    unfold pulses
    split_ifs <;> rfl
  have hpow : ¬ Nat.isPowerOfTwo 12 := by decide
  refine (count_eq_iff (W := 8) (by decide) pulses).2 ⟨fun _ h => absurd h hpow, ?_⟩ 8
  intro _ u hu
  rw [hreset u] at hu
  exact absurd hu (by decide)

/-- One pulse, with a software reset in the first of its two cycles if `reset` is set. -/
def onePulse (N : ℕ) (reset : Bool) (t : ℕ) : Input N 1 :=
  if t = 0 then enable N
  else if t = 1 then { event := 1, reset := reset }
  else if t = 2 then { event := 1 }
  else {}

/-- With sixteen endpoints nothing is ever counted, and an event that rises in the cycle of a
reset is counted after it. -/
theorem not_count_eq :
    (¬ ∀ (inp : ℕ → Input 16 1) (t : ℕ), (traj step (State.reset 16 1 8) inp t).count.toNat =
        min 255 (sinceReset inp (counted 8 inp) t)) ∧
      ¬ ∀ (inp : ℕ → Input 12 1) (t : ℕ), (traj step (State.reset 12 1 8) inp t).count.toNat =
        min 255 (sinceReset inp (counted 8 inp) t) := by
  constructor
  · intro hall
    exact absurd (hall (onePulse 16 false) 2) (by decide)
  · intro hall
    exact absurd (hall (onePulse 12 true) 3) (by decide)

end UsbDev.EventCounter
