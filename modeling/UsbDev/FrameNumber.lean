import Mathlib.Data.Nat.Find
import UsbDev.LinkState
import UsbDev.Signals
import UsbDev.TickTimer

/-!
# The frame number

`usbdev_usbif` takes the frame number from each valid SOF and counts on by one at a
damaged SOF and at the internal one, which the link state machine generates when the
timer of missing SOFs runs out. The timer is longer than a frame and restarted by both
kinds of SOF, so that it drifts against the host by a few ticks for each frame lost.
-/
namespace UsbDev.FrameNumber

open Clocked TickTimer

/-- `sofSignals` are the receiver's outputs that `usb_fs_nb_pe` reads; the `sofDetected` of `line`
is driven by them. -/
structure Input where
  rxPktEnd : Bool
  rxPidValid : Bool
  rxPktValid : Bool
  rxPid : BitVec 4
  rxFrameNum : BitVec 11
  line : LinkState.Input
  deriving DecidableEq, Repr

structure State where
  link : LinkState.State
  frame : BitVec 11
  deriving DecidableEq, Repr

/-- `sof_detected_o`. -/
def sofDetected (i : Input) : Bool := i.rxPktEnd && i.rxPidValid && i.rxPid == usbPidSof

/-- `sof_valid_o`. -/
def sofValid (i : Input) : Bool := i.rxPktEnd && i.rxPktValid && i.rxPid == usbPidSof

/-- `frame_index_o`. -/
def frameIndex (i : Input) : BitVec 11 := i.rxFrameNum

/-- The link asks for an SOF in place of the host's. -/
def doInternalSof (s : State) : Bool := LinkState.sofMissed s.link

def frameD (s : State) (i : Input) : BitVec 11 :=
  if sofValid i then frameIndex i
  else if sofDetected i || doInternalSof s then s.frame + 1
  else s.frame

/-- `frame_start_o`. -/
def frameStart (s : State) (i : Input) : Bool := s.frame != frameD s i

def linkInput (i : Input) : LinkState.Input := { i.line with sofDetected := sofDetected i }

/-- One clock cycle. -/
def step (s : State) (i : Input) : State where
  link := LinkState.step s.link (linkInput i)
  frame := frameD s i

/-- An SOF of the host or an internal one. -/
def sofSeen (s : State) (i : Input) : Bool := sofDetected i || doInternalSof s

variable {s s₀ : State} {i : Input} {inp : ℕ → Input}

/-! ### One cycle -/

/-- The link is active and not held in reset. -/
def LinkUp (s : State) : Prop :=
  LinkState.linkActive s.link = true ∧ LinkState.linkReset s.link = false

/-- An SOF of either kind restarts the timer. -/
theorem missingSofTimer_of_seen (h : sofSeen s i = true) :
    (step s i).link.missingSofTimer = 0 := by
  have hseen : (LinkState.sofMissed s.link || sofDetected i) = true := by
    rw [Bool.or_comm]
    exact h
  simp [step, LinkState.step, linkInput, hseen]

theorem missingSofTimer_of_not_seen (hup : LinkUp s) (h : sofSeen s i = false) :
    (step s i).link.missingSofTimer =
      if i.line.usTick then s.link.missingSofTimer + 1 else s.link.missingSofTimer := by
  rw [sofSeen, doInternalSof, Bool.or_eq_false_iff] at h
  simp [step, LinkState.step, linkInput, h.1, h.2, hup.1, hup.2]

/-- A valid SOF is a detected one. -/
def ValidDetected (i : Input) : Prop := sofValid i = true → sofDetected i = true

theorem frame_of_not_seen (hi : ValidDetected i) (h : sofSeen s i = false) :
    (step s i).frame = s.frame := by
  have hdet : sofDetected i = false := (Bool.or_eq_false_iff.1 h).1
  have hvalid : sofValid i = false := by
    by_contra hne
    rw [Bool.not_eq_false] at hne
    rw [hi hne] at hdet
    cases hdet
  rw [sofSeen] at h
  simp [step, frameD, hvalid, h]

theorem frameStart_of_not_seen (hi : ValidDetected i) (h : sofSeen s i = false) :
    frameStart s i = false := by
  have hframe : frameD s i = s.frame := frame_of_not_seen hi h
  simp [frameStart, hframe]

theorem frame_of_not_valid (hvalid : sofValid i = false) (h : sofSeen s i = true) :
    (step s i).frame = s.frame + 1 := by
  rw [sofSeen] at h
  simp [step, frameD, hvalid, h]

theorem frame_of_valid (hvalid : sofValid i = true) : (step s i).frame = frameIndex i := by
  simp [step, frameD, hvalid]

theorem frameStart_of_step (h : (step s i).frame = s.frame + 1) : frameStart s i = true := by
  have hframe : frameD s i = s.frame + 1 := h
  rw [frameStart, hframe, bne_iff_ne]
  bv_omega

/-! ### Between two SOFs -/

/-- The ticks before cycle `t`. -/
@[irreducible] def usTicks (inp : ℕ → Input) (t : ℕ) : ℕ := ticks (fun u => (inp u).line.usTick) t

theorem usTicks_mono (inp : ℕ → Input) {t u : ℕ} (h : t ≤ u) :
    usTicks inp t ≤ usTicks inp u := by
  rw [usTicks, usTicks]
  exact Nat.count_monotone _ h

theorem usTicks_succ (inp : ℕ → Input) (t : ℕ) :
    usTicks inp (t + 1) = usTicks inp t + if (inp t).line.usTick then 1 else 0 := by
  rw [usTicks, usTicks, ticks_succ]

theorem usTicks_succ_le (inp : ℕ → Input) (t : ℕ) : usTicks inp (t + 1) ≤ usTicks inp t + 1 := by
  rw [usTicks_succ]
  split <;> omega

/-- The run from some state on. -/
def stateAt (s₀ : State) (inp : ℕ → Input) (t : ℕ) : State := traj step s₀ inp t

theorem stateAt_succ (s₀ : State) (inp : ℕ → Input) (t : ℕ) :
    stateAt s₀ inp (t + 1) = step (stateAt s₀ inp t) (inp t) := rfl

/-- The timer counts the ticks since it was restarted in cycle `a`, and no SOF is missed before it
runs out. -/
theorem timer_since {a t : ℕ} (hat : a ≤ t) (hup : ∀ u, a ≤ u → LinkUp (stateAt s₀ inp u))
    (hzero : (stateAt s₀ inp a).link.missingSofTimer = 0)
    (hnone : ∀ u, a ≤ u → u < t → sofDetected (inp u) = false)
    (htime : ∀ u, a ≤ u → u < t → usTicks inp u < usTicks inp a + 1005) :
    (stateAt s₀ inp t).link.missingSofTimer.toNat = usTicks inp t - usTicks inp a ∧
      ∀ u, a ≤ u → u < t → sofSeen (stateAt s₀ inp u) (inp u) = false := by
  induction t, hat using Nat.le_induction with
  | base =>
      rw [hzero, Nat.sub_self]
      exact ⟨rfl, fun u hu hua => absurd hu (by omega)⟩
  | succ t hat ih =>
      obtain ⟨htimer, hseen⟩ := ih (fun u hu hut => hnone u hu (by omega))
        (fun u hu hut => htime u hu (by omega))
      have hlt := htime t hat (by omega)
      have hmono := usTicks_mono inp hat
      have hmiss : doInternalSof (stateAt s₀ inp t) = false := by
        rw [doInternalSof, LinkState.sofMissed, beq_eq_false_iff_ne]
        intro heq
        rw [heq] at htimer
        have h1005 : LinkState.sofTimeout.toNat = 1005 := rfl
        omega
      have hnot : sofSeen (stateAt s₀ inp t) (inp t) = false := by
        rw [sofSeen, hnone t hat (by omega), hmiss]
        rfl
      constructor
      · rw [stateAt_succ, missingSofTimer_of_not_seen (hup t hat) hnot]
        have hsucc := usTicks_succ inp t
        cases htick : (inp t).line.usTick with
        | false =>
            rw [htick] at hsucc
            simp only [Bool.false_eq_true, if_false, Nat.add_zero] at hsucc ⊢
            rw [htimer, hsucc]
        | true =>
            rw [htick, if_pos rfl] at hsucc
            have hone : (1 : BitVec 10).toNat = 1 := rfl
            rw [if_pos rfl, BitVec.toNat_add, htimer, hone, Nat.mod_eq_of_lt (by omega)]
            omega
      · intro u hu hut
        obtain hlt | rfl : u < t ∨ u = t := by omega
        · exact hseen u hu hlt
        · exact hnot

/-- Without an SOF the frame number stays. -/
theorem frame_since {a t : ℕ} (hat : a ≤ t) (hi : ∀ u, a ≤ u → ValidDetected (inp u))
    (hnone : ∀ u, a ≤ u → u < t → sofSeen (stateAt s₀ inp u) (inp u) = false) :
    (stateAt s₀ inp t).frame = (stateAt s₀ inp a).frame := by
  induction t, hat using Nat.le_induction with
  | base => rfl
  | succ t hat ih =>
      rw [stateAt_succ, frame_of_not_seen (hi t hat) (hnone t hat (by omega))]
      exact ih fun u hu hut => hnone u hu (by omega)

/-! ### The host's frames -/

/-- What becomes of an SOF of the host. -/
inductive Outcome where
  | valid
  | badCrc
  | lost
  deriving DecidableEq, Repr

/-- The host issues the SOF of its frame `number + n` so that it ends in cycle `sof n`. The SOFs
are 999 to 1001 ticks apart, the first is received, and never are more than 100 in a row lost. -/
structure HostFrames (inp : ℕ → Input) (sof : ℕ → ℕ) (outcome : ℕ → Outcome)
    (number : BitVec 11) : Prop where
  apart_ge : ∀ n, usTicks inp (sof n) + 999 ≤ usTicks inp (sof (n + 1))
  apart_le : ∀ n, usTicks inp (sof (n + 1)) ≤ usTicks inp (sof n) + 1001
  first : outcome 0 = .valid
  fewLost : ∀ n, ∃ k ≤ 100, outcome (n + k) ≠ .lost
  detected : ∀ t, sof 0 ≤ t → (sofDetected (inp t) = true ↔ ∃ n, sof n = t ∧ outcome n ≠ .lost)
  valid : ∀ t, sof 0 ≤ t → (sofValid (inp t) = true ↔ ∃ n, sof n = t ∧ outcome n = .valid)
  index : ∀ n, outcome n = .valid → frameIndex (inp (sof n)) = number + BitVec.ofNat 11 n

/-- Frame `n` of the host lasts from its SOF to the next. In cycle `e` of it, the one cycle in
which the device receives the SOF or generates one, the device counts the frame: from then on
`frame_o` is the number of the host's frame, and `frame_start_o` is a pulse in that cycle. -/
structure Counted (s₀ : State) (inp : ℕ → Input) (sof : ℕ → ℕ) (outcome : ℕ → Outcome)
    (number : BitVec 11) (n e : ℕ) : Prop where
  ge : sof n ≤ e
  lt : e < sof (n + 1)
  received : outcome n ≠ .lost → e = sof n
  seen : ∀ t, sof n ≤ t → t < sof (n + 1) →
    (sofSeen (stateAt s₀ inp t) (inp t) = true ↔ t = e)
  frame : ∀ t, sof n < t → t ≤ sof (n + 1) → (stateAt s₀ inp t).frame =
    if e < t then number + BitVec.ofNat 11 n else number + BitVec.ofNat 11 n - 1
  start : ∀ t, sof n ≤ t → t < sof (n + 1) → sof 0 < t →
    (frameStart (stateAt s₀ inp t) (inp t) = true ↔ t = e)

namespace HostFrames
variable {sof : ℕ → ℕ} {outcome : ℕ → Outcome} {number : BitVec 11}

theorem sof_lt (h : HostFrames inp sof outcome number) (n : ℕ) : sof n < sof (n + 1) := by
  by_contra hle
  have hmono := usTicks_mono inp (Nat.not_lt.1 hle)
  have hge := h.apart_ge n
  omega

theorem sof_le (h : HostFrames inp sof outcome number) {m n : ℕ} (hmn : m ≤ n) :
    sof m ≤ sof n := by
  induction n, hmn using Nat.le_induction with
  | base => exact le_rfl
  | succ n hmn ih => exact ih.trans (h.sof_lt n).le

/-- A cycle between two SOFs is none of an SOF. -/
theorem not_sof (h : HostFrames inp sof outcome number) {n t : ℕ} (hlo : sof n < t)
    (hhi : t < sof (n + 1)) (m : ℕ) : sof m ≠ t := by
  rintro rfl
  obtain hmn | hnm : m ≤ n ∨ n + 1 ≤ m := by omega
  · have hle := h.sof_le hmn
    omega
  · have hle := h.sof_le hnm
    omega

theorem validDetected (h : HostFrames inp sof outcome number) {t : ℕ} (ht : sof 0 ≤ t) :
    ValidDetected (inp t) := by
  intro hvalid
  obtain ⟨n, hn, hout⟩ := (h.valid t ht).1 hvalid
  refine (h.detected t ht).2 ⟨n, hn, ?_⟩
  rw [hout]
  decide

theorem ticks_ge (h : HostFrames inp sof outcome number) (m d : ℕ) :
    usTicks inp (sof m) + 999 * d ≤ usTicks inp (sof (m + d)) := by
  induction d with
  | zero => simp
  | succ d ih =>
      calc usTicks inp (sof m) + 999 * (d + 1)
          = usTicks inp (sof m) + 999 * d + 999 := by rw [Nat.mul_succ, Nat.add_assoc]
        _ ≤ usTicks inp (sof (m + d)) + 999 := Nat.add_le_add_right ih 999
        _ ≤ usTicks inp (sof (m + (d + 1))) := h.apart_ge (m + d)

theorem ticks_le (h : HostFrames inp sof outcome number) (m d : ℕ) :
    usTicks inp (sof (m + d)) ≤ usTicks inp (sof m) + 1001 * d := by
  induction d with
  | zero => simp
  | succ d ih =>
      calc usTicks inp (sof (m + (d + 1)))
          ≤ usTicks inp (sof (m + d)) + 1001 := h.apart_le (m + d)
        _ ≤ usTicks inp (sof m) + 1001 * d + 1001 := Nat.add_le_add_right ih 1001
        _ = usTicks inp (sof m) + 1001 * (d + 1) := by rw [Nat.mul_succ, Nat.add_assoc]

end HostFrames

/-! ### From one SOF to the next -/

/-- The device counts frame `m + d` in cycle `e`. The last SOF it received is that of frame `m`;
since then it generated one for each frame, at most a tick late each. -/
structure Tracked (s₀ : State) (inp : ℕ → Input) (sof : ℕ → ℕ) (outcome : ℕ → Outcome)
    (number : BitVec 11) (m d e : ℕ) : Prop where
  lost : ∀ k, m < k → k ≤ m + d → outcome k = .lost
  received : d = 0 → e = sof m
  ticks_ge : usTicks inp (sof m) + 1005 * d ≤ usTicks inp e
  ticks_le : usTicks inp e ≤ usTicks inp (sof m) + 1006 * d
  seen : sofSeen (stateAt s₀ inp e) (inp e) = true
  frame : (stateAt s₀ inp (e + 1)).frame = number + BitVec.ofNat 11 (m + d)
  start : sof 0 < e → frameStart (stateAt s₀ inp e) (inp e) = true
  quiet : ∀ t, sof (m + d) ≤ t → t < e → sofSeen (stateAt s₀ inp t) (inp t) = false
  before : ∀ t, sof (m + d) < t → t ≤ e →
    (stateAt s₀ inp t).frame = number + BitVec.ofNat 11 (m + d) - 1

namespace Tracked
variable {sof : ℕ → ℕ} {outcome : ℕ → Outcome} {number : BitVec 11} {m d e : ℕ}

/-- The drift stays below a frame. -/
theorem le_hundred (h : Tracked s₀ inp sof outcome number m d e)
    (hh : HostFrames inp sof outcome number) : d ≤ 100 := by
  obtain ⟨k, hk, hout⟩ := hh.fewLost (m + 1)
  by_contra hd
  exact hout (h.lost (m + 1 + k) (by omega) (by omega))

theorem ge_sof (h : Tracked s₀ inp sof outcome number m d e)
    (hh : HostFrames inp sof outcome number) : sof (m + d) ≤ e := by
  by_cases hd : d = 0
  · subst hd
    rw [h.received rfl, Nat.add_zero]
  · by_contra hlt
    have hmono := usTicks_mono inp (Nat.le_of_not_le hlt)
    have hle := hh.ticks_le m d
    have hge := h.ticks_ge
    omega

theorem lt_sof (h : Tracked s₀ inp sof outcome number m d e)
    (hh : HostFrames inp sof outcome number) : e < sof (m + d + 1) := by
  by_contra hge
  have hmono := usTicks_mono inp (Nat.not_lt.1 hge)
  have hhost : usTicks inp (sof m) + 999 * (d + 1) ≤ usTicks inp (sof (m + d + 1)) :=
    hh.ticks_ge m (d + 1)
  have hle := h.ticks_le
  have hd := h.le_hundred hh
  omega

theorem timer (h : Tracked s₀ inp sof outcome number m d e) :
    (stateAt s₀ inp (e + 1)).link.missingSofTimer = 0 := missingSofTimer_of_seen h.seen

/-- What has to be shown of the next cycle with an SOF. -/
theorem next (h : Tracked s₀ inp sof outcome number m d e)
    (hh : HostFrames inp sof outcome number) {m' d' e' : ℕ} (hnum : m' + d' = m + d + 1)
    (hlt : e < e')
    (hquiet : ∀ t, e < t → t < e' → sofSeen (stateAt s₀ inp t) (inp t) = false)
    (hseen : sofSeen (stateAt s₀ inp e') (inp e') = true)
    (hframe : (stateAt s₀ inp (e + 1)).frame = (stateAt s₀ inp e').frame →
      (stateAt s₀ inp (e' + 1)).frame = number + BitVec.ofNat 11 (m + d + 1))
    (hlost : ∀ k, m' < k → k ≤ m' + d' → outcome k = .lost) (hrec : d' = 0 → e' = sof m')
    (hge : usTicks inp (sof m') + 1005 * d' ≤ usTicks inp e')
    (hle : usTicks inp e' ≤ usTicks inp (sof m') + 1006 * d') :
    Tracked s₀ inp sof outcome number m' d' e' := by
  have hstart := h.ge_sof hh
  have hsof : sof 0 ≤ e := (hh.sof_le (Nat.zero_le (m + d))).trans hstart
  have hnext := h.lt_sof hh
  have hstay : ∀ t, e < t → t ≤ e' →
      (stateAt s₀ inp t).frame = number + BitVec.ofNat 11 (m + d) := by
    intro t ht hte
    rw [← h.frame]
    exact frame_since ht (fun u hu => hh.validDetected (by omega))
      fun u hu hut => hquiet u (by omega) (by omega)
  have hsucc : number + BitVec.ofNat 11 (m + d + 1) - 1 = number + BitVec.ofNat 11 (m + d) := by
    rw [BitVec.ofNat_add]
    bv_omega
  have hcount := hframe (by rw [h.frame, hstay e' hlt le_rfl])
  refine ⟨hlost, hrec, hge, hle, hseen, by rw [hnum, hcount], fun _ => ?_, fun t ht hte => ?_,
    fun t ht hte => ?_⟩
  · apply frameStart_of_step
    rw [← stateAt_succ, hcount, hstay e' hlt le_rfl, ← hsucc]
    bv_omega
  · rw [hnum] at ht
    exact hquiet t (by omega) hte
  · rw [hnum] at ht ⊢
    rw [hstay t (by omega) hte, hsucc]

/-- An SOF that arrives is received before the timer runs out. -/
theorem next_received (h : Tracked s₀ inp sof outcome number m d e)
    (hh : HostFrames inp sof outcome number) (hup : ∀ t, sof 0 ≤ t → LinkUp (stateAt s₀ inp t))
    (hout : outcome (m + d + 1) ≠ .lost) :
    Tracked s₀ inp sof outcome number (m + d + 1) 0 (sof (m + d + 1)) ∧
      ∀ t, e < t → t < sof (m + d + 1) → sofSeen (stateAt s₀ inp t) (inp t) = false := by
  have hstart := h.ge_sof hh
  have hsof : sof 0 ≤ e := (hh.sof_le (Nat.zero_le (m + d))).trans hstart
  have hnext := h.lt_sof hh
  have hnone : ∀ t, e + 1 ≤ t → t < sof (m + d + 1) → sofDetected (inp t) = false := by
    intro t ht hts
    by_contra hne
    rw [Bool.not_eq_false, hh.detected t (by omega)] at hne
    obtain ⟨n, hn, -⟩ := hne
    exact hh.not_sof (by omega) hts n hn
  have htime : ∀ t, e + 1 ≤ t → t < sof (m + d + 1) →
      usTicks inp t < usTicks inp (e + 1) + 1005 := by
    intro t ht hts
    have h1 := usTicks_mono inp hts.le
    have h2 : usTicks inp (sof (m + d + 1)) ≤ usTicks inp (sof m) + 1001 * (d + 1) :=
      hh.ticks_le m (d + 1)
    have h3 := h.ticks_ge
    have h4 := usTicks_mono inp (Nat.le_add_right e 1)
    omega
  obtain ⟨-, hquiet⟩ := timer_since hnext (fun u hu => hup u (by omega)) h.timer hnone htime
  have hdet : sofDetected (inp (sof (m + d + 1))) = true :=
    (hh.detected _ (by omega)).2 ⟨_, rfl, hout⟩
  have hseen : sofSeen (stateAt s₀ inp (sof (m + d + 1))) (inp (sof (m + d + 1))) = true := by
    rw [sofSeen, hdet, Bool.true_or]
  refine ⟨h.next hh rfl hnext (fun t ht hts => hquiet t ht hts) hseen (fun hkeep => ?_)
    (fun k hk hkm => absurd hk (by omega)) (fun _ => rfl) (by omega) (by omega),
    fun t ht hts => hquiet t ht hts⟩
  rw [stateAt_succ]
  cases hvalid : sofValid (inp (sof (m + d + 1))) with
  | true =>
      obtain ⟨n, hn, hnout⟩ := (hh.valid _ (by omega)).1 hvalid
      rw [frame_of_valid hvalid, ← hn, hh.index n hnout]
      have heq : n = m + d + 1 := by
        obtain hlt | heq | hgt : n < m + d + 1 ∨ n = m + d + 1 ∨ m + d + 1 < n := by omega
        · have h1 := hh.sof_lt n
          have h2 := hh.sof_le (show n + 1 ≤ m + d + 1 by omega)
          omega
        · exact heq
        · have h1 := hh.sof_lt (m + d + 1)
          have h2 := hh.sof_le (show m + d + 1 + 1 ≤ n by omega)
          omega
      rw [heq]
  | false =>
      rw [frame_of_not_valid hvalid hseen, ← hkeep, h.frame, BitVec.ofNat_add (m + d) 1,
        ← BitVec.add_assoc]
      rfl

/-- For a lost SOF the device generates one within the frame. -/
theorem next_missed (h : Tracked s₀ inp sof outcome number m d e)
    (hh : HostFrames inp sof outcome number) (hup : ∀ t, sof 0 ≤ t → LinkUp (stateAt s₀ inp t))
    (hout : outcome (m + d + 1) = .lost) :
    ∃ e', Tracked s₀ inp sof outcome number m (d + 1) e' ∧
      ∀ t, e < t → t < e' → sofSeen (stateAt s₀ inp t) (inp t) = false := by
  have hsof : sof 0 ≤ e := (hh.sof_le (Nat.zero_le (m + d))).trans (h.ge_sof hh)
  have hstart := h.ge_sof hh
  have hlost : ∀ k, m < k → k ≤ m + (d + 1) → outcome k = .lost := by
    intro k hk hkd
    obtain hle | rfl : k ≤ m + d ∨ k = m + d + 1 := by omega
    · exact h.lost k hk hle
    · exact hout
  have hd : d ≤ 99 := by
    obtain ⟨k, hk, hne⟩ := hh.fewLost (m + 1)
    by_contra hd
    exact hne (hlost (m + 1 + k) (by omega) (by omega))
  have htick := usTicks_succ_le inp e
  have hticks : usTicks inp e ≤ usTicks inp (e + 1) := usTicks_mono inp (Nat.le_add_right e 1)
  have hge := h.ticks_ge
  have hle := h.ticks_le
  have hend : usTicks inp (sof m) + 999 * d + 1998 ≤ usTicks inp (sof (m + d + 2)) := by
    rw [Nat.add_assoc]
    exact hh.ticks_ge m (d + 2)
  -- the cycle after the tick with which the timer runs out
  have hex : ∃ t, usTicks inp (e + 1) + 1005 ≤ usTicks inp t := ⟨sof (m + d + 2), by omega⟩
  classical
  obtain ⟨e', hreach, hmin⟩ : ∃ t, usTicks inp (e + 1) + 1005 ≤ usTicks inp t ∧
      ∀ u < t, usTicks inp u < usTicks inp (e + 1) + 1005 :=
    ⟨Nat.find hex, Nat.find_spec hex, fun u hu => Nat.not_le.1 (Nat.find_min hex hu)⟩
  have hlt : e + 1 < e' := by
    by_contra hno
    have hmono := usTicks_mono inp (Nat.not_lt.1 hno)
    omega
  have hexact : usTicks inp e' = usTicks inp (e + 1) + 1005 := by
    have hprev := hmin (e' - 1) (by omega)
    have hone := usTicks_succ_le inp (e' - 1)
    rw [Nat.sub_add_cancel (by omega)] at hone
    omega
  have hwithin : e' < sof (m + d + 2) := by
    by_contra hno
    have hmono := usTicks_mono inp (Nat.not_lt.1 hno)
    omega
  have hnone : ∀ t, e + 1 ≤ t → t < e' + 1 → sofDetected (inp t) = false := by
    intro t ht hte
    by_contra hne
    rw [Bool.not_eq_false, hh.detected t (by omega)] at hne
    obtain ⟨n, rfl, hn⟩ := hne
    obtain hlow | rfl | hhigh : n ≤ m + d ∨ n = m + d + 1 ∨ m + d + 2 ≤ n := by omega
    · have hmono := hh.sof_le hlow
      omega
    · exact hn hout
    · have hmono := hh.sof_le hhigh
      omega
  obtain ⟨htimer, hquiet⟩ := timer_since hlt.le (fun u hu => hup u (by omega)) h.timer
    (fun u hu hue => hnone u hu (by omega)) (fun u _ hue => hmin u hue)
  have hmissed : doInternalSof (stateAt s₀ inp e') = true := by
    rw [doInternalSof, LinkState.sofMissed, beq_iff_eq]
    apply BitVec.eq_of_toNat_eq
    rw [htimer, hexact, Nat.add_sub_cancel_left]
    rfl
  have hseen : sofSeen (stateAt s₀ inp e') (inp e') = true := by
    rw [sofSeen, hmissed, Bool.or_true]
  have hvalid : sofValid (inp e') = false := by
    by_contra hne
    rw [Bool.not_eq_false] at hne
    have hdet := hh.validDetected (by omega) hne
    rw [hnone e' hlt.le (by omega)] at hdet
    cases hdet
  refine ⟨e', h.next hh rfl (by omega) (fun t ht hte => hquiet t ht hte) hseen
    (fun hkeep => ?_) hlost (fun hzero => absurd hzero (by omega))
    (by rw [Nat.mul_succ, ← Nat.add_assoc] ; omega)
    (by rw [Nat.mul_succ, ← Nat.add_assoc] ; omega), fun t ht hte => hquiet t ht hte⟩
  rw [stateAt_succ, frame_of_not_valid hvalid hseen, ← hkeep, h.frame,
    BitVec.ofNat_add (m + d) 1, ← BitVec.add_assoc]
  rfl

theorem exists_next (h : Tracked s₀ inp sof outcome number m d e)
    (hh : HostFrames inp sof outcome number) (hup : ∀ t, sof 0 ≤ t → LinkUp (stateAt s₀ inp t)) :
    ∃ m' d' e', m' + d' = m + d + 1 ∧ Tracked s₀ inp sof outcome number m' d' e' ∧
      ∀ t, e < t → t < e' → sofSeen (stateAt s₀ inp t) (inp t) = false := by
  by_cases hout : outcome (m + d + 1) = .lost
  · obtain ⟨e', hnext⟩ := h.next_missed hh hup hout
    exact ⟨m, d + 1, e', rfl, hnext⟩
  · exact ⟨m + d + 1, 0, _, rfl, h.next_received hh hup hout⟩

end Tracked

variable {sof : ℕ → ℕ} {outcome : ℕ → Outcome} {number : BitVec 11}

/-- Every frame of the host is counted. -/
theorem exists_tracked (hh : HostFrames inp sof outcome number)
    (hup : ∀ t, sof 0 ≤ t → LinkUp (stateAt s₀ inp t)) (n : ℕ) :
    ∃ m d e, m + d = n ∧ Tracked s₀ inp sof outcome number m d e := by
  induction n with
  | zero =>
      have hvalid : sofValid (inp (sof 0)) = true := (hh.valid _ le_rfl).2 ⟨0, rfl, hh.first⟩
      refine ⟨0, 0, sof 0, rfl, fun k hk hk0 => absurd hk (by omega), fun _ => rfl, by omega,
        by omega, ?_, ?_, fun hlt => absurd hlt (lt_irrefl _),
        fun t ht hte => absurd hte (Nat.not_lt.2 ht), fun t ht hte => absurd ht (Nat.not_lt.2 hte)⟩
      · rw [sofSeen, hh.validDetected le_rfl hvalid, Bool.true_or]
      · rw [stateAt_succ, frame_of_valid hvalid, hh.index 0 hh.first]
  | succ n ih =>
      obtain ⟨m, d, e, rfl, htracked⟩ := ih
      obtain ⟨m', d', e', hnum, hnext, -⟩ := htracked.exists_next hh hup
      exact ⟨m', d', e', hnum, hnext⟩

/-- While the link stays up, each frame of the host is counted exactly once, whatever SOFs are
lost or damaged. -/
theorem frame_counted (hh : HostFrames inp sof outcome number)
    (hup : ∀ t, sof 0 ≤ t → LinkUp (stateAt s₀ inp t)) (n : ℕ) :
    ∃ e, Counted s₀ inp sof outcome number n e := by
  obtain ⟨m, d, e, rfl, htracked⟩ := exists_tracked hh hup n
  obtain ⟨m', d', e', hnum, hnext, hquiet⟩ := htracked.exists_next hh hup
  have hge := htracked.ge_sof hh
  have hsof : sof 0 ≤ sof (m + d) := hh.sof_le (Nat.zero_le _)
  have hge' : sof (m + d + 1) ≤ e' := by
    rw [← hnum]
    exact hnext.ge_sof hh
  have hother : ∀ t, sof (m + d) ≤ t → t < sof (m + d + 1) → t ≠ e →
      sofSeen (stateAt s₀ inp t) (inp t) = false := by
    intro t ht hts hne
    obtain hlt | hgt : t < e ∨ e < t := by omega
    · exact htracked.quiet t ht hlt
    · exact hquiet t hgt (by omega)
  refine ⟨e, hge, htracked.lt_sof hh, fun hout => ?_, fun t ht hts => ⟨fun hseen => ?_, ?_⟩,
    fun t ht hts => ?_, fun t ht hts ht0 => ⟨fun hstart => ?_, ?_⟩⟩
  · by_cases hd : d = 0
    · subst hd
      exact htracked.received rfl
    · exact absurd (htracked.lost (m + d) (by omega) le_rfl) hout
  · by_contra hne
    rw [hother t ht hts hne] at hseen
    cases hseen
  · rintro rfl
    exact htracked.seen
  · split_ifs with het
    · rw [← htracked.frame]
      exact frame_since het (fun u hu => hh.validDetected (by omega))
        fun u hu hut => hquiet u (by omega) (by omega)
    · exact htracked.before t ht (by omega)
  · by_contra hne
    rw [frameStart_of_not_seen (hh.validDetected (by omega)) (hother t ht hts hne)] at hstart
    cases hstart
  · rintro rfl
    exact htracked.start ht0

/-- A quiet link in `LinkActive`. -/
def activeState : State where
  link :=
    { LinkState.State.reset with
      linkState := .linkActive, filterPwrSense := ⟨BitVec.allOnes 6, true⟩ }
  frame := 0

/-- Of three SOFs in a row one is lost and one damaged. -/
def oneOfThree (n : ℕ) : Outcome :=
  if n % 3 = 1 then .lost else if n % 3 = 2 then .badCrc else .valid

/-- A host that issues an SOF every 1000 ticks, with a tick in each cycle. -/
def hostInput (t : ℕ) : Input where
  rxPktEnd := t % 1000 == 0 && oneOfThree (t / 1000) != .lost
  rxPidValid := true
  rxPktValid := oneOfThree (t / 1000) == .valid
  rxPid := usbPidSof
  rxFrameNum := BitVec.ofNat 11 (t / 1000)
  line :=
    { usTick := true, usbSense := true, usbDp := true, usbDn := false, usbOe := false,
      usbPullupEn := true, rxIdleDet := false, rxJDet := true, sofDetected := false,
      resumeLinkActive := false }

/-- What stays as it is on a quiet link. -/
structure Steady (s : State) : Prop where
  linkState : s.link.linkState = .linkActive
  filterSe0 : s.link.filterSe0 = .reset
  filterPwrSense : s.link.filterPwrSense = ⟨BitVec.allOnes 6, true⟩
  linkRstState : s.link.linkRstState = .noRst
  linkInacState : s.link.linkInacState = .active

theorem Steady.step (h : Steady s) (t : ℕ) : Steady (step s (hostInput t)) := by
  obtain ⟨hl, hse0, hpwr, hrst, hinac⟩ := h
  have hsee : LinkState.seeSe0 s.link = false := by rw [LinkState.seeSe0, hse0] ; rfl
  have hsense : LinkState.seePwrSense s.link = true := by rw [LinkState.seePwrSense, hpwr]
  constructor
  case linkState =>
    simp [FrameNumber.step, LinkState.step, LinkState.linkFsm, linkInput, hostInput, hl, hsense,
      LinkState.evBusInactive, LinkState.idleDet, hinac, LinkState.evBusActive, LinkState.evReset,
      hrst]
  case filterSe0 =>
    simp only [FrameNumber.step, LinkState.step, hse0, linkInput, LinkState.lineSe0Raw, hostInput]
    decide
  case filterPwrSense =>
    simp only [FrameNumber.step, LinkState.step, hpwr, linkInput, hostInput]
    decide
  case linkRstState => simp [FrameNumber.step, LinkState.step, LinkState.rstFsm, hrst, hsee]
  case linkInacState =>
    simp [FrameNumber.step, LinkState.step, LinkState.idleDet, hinac, LinkState.evBusActive,
      linkInput, hostInput]

theorem Steady.linkUp (h : Steady s) : LinkUp s := by
  obtain ⟨hl, -, -, hrst, -⟩ := h
  simp [LinkUp, LinkState.linkActive, LinkState.linkReset, hl, hrst]

theorem usTicks_hostInput (t : ℕ) : usTicks hostInput t = t := by
  induction t with
  | zero => rw [usTicks] ; rfl
  | succ t ih =>
      rw [usTicks_succ, ih]
      rfl

theorem hostFrames_hostInput : HostFrames hostInput (1000 * ·) oneOfThree 0 := by
  have hdiv : ∀ n : ℕ, 1000 * n / 1000 = n := fun n => Nat.mul_div_cancel_left n (by decide)
  constructor
  case apart_ge =>
    intro n
    rw [usTicks_hostInput, usTicks_hostInput]
    omega
  case apart_le =>
    intro n
    rw [usTicks_hostInput, usTicks_hostInput]
    omega
  case first => rfl
  case fewLost =>
    intro n
    by_cases hn : n % 3 = 1
    · refine ⟨1, by omega, ?_⟩
      simp [oneOfThree, show (n + 1) % 3 = 2 by omega]
    · refine ⟨0, by omega, ?_⟩
      rw [oneOfThree, Nat.add_zero, if_neg hn]
      split <;> decide
  case detected =>
    intro t _
    constructor
    · intro h
      simp only [sofDetected, hostInput, Bool.and_true, BEq.rfl, Bool.and_eq_true, beq_iff_eq,
        bne_iff_ne] at h
      exact ⟨t / 1000, by omega, h.2⟩
    · rintro ⟨n, rfl, hn⟩
      simp [sofDetected, hostInput, hdiv, hn]
  case valid =>
    intro t _
    constructor
    · intro h
      simp only [sofValid, hostInput, BEq.rfl, Bool.and_true, Bool.and_eq_true, beq_iff_eq] at h
      exact ⟨t / 1000, by omega, h.2⟩
    · rintro ⟨n, rfl, hn⟩
      simp [sofValid, hostInput, hdiv, hn]
  case index =>
    intro n _
    simp [frameIndex, hostInput, hdiv]

/-- The frame of the first SOF that is lost is counted. -/
theorem frame_counted_lost : ∃ e, Counted activeState hostInput (1000 * ·) oneOfThree 0 1 e := by
  refine frame_counted hostFrames_hostInput (fun t _ => Steady.linkUp ?_) 1
  exact traj_invariant Steady ⟨rfl, rfl, rfl, rfl, rfl⟩ (fun u hu => hu.step u) t

end UsbDev.FrameNumber
