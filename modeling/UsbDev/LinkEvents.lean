import UsbDev.LinkState
import UsbDev.TickTimer

/-!
# Bus reset and suspend

The reset detection and the idle detection of `usbdev_linkstate` are timers of
the same kind, one on the filtered SE0, one on an idle bus with the link
monitored. What they say about the signals so far follows from the timer; what
the link does then is one cycle of the link state machine.
-/
namespace UsbDev.LinkState

open TickTimer (HighOn ticks)

/-- The registers in cycle `t` after a hardware reset. -/
def stateAt (inp : ℕ → Input) (t : ℕ) : State := Clocked.traj step State.reset inp t

theorem stateAt_succ (inp : ℕ → Input) (t : ℕ) :
    stateAt inp (t + 1) = step (stateAt inp t) (inp t) := rfl

def seeSe0At (inp : ℕ → Input) (t : ℕ) : Bool := seeSe0 (stateAt inp t)

/-- The bus is idle and the link state machine wants to know. -/
def idleAt (inp : ℕ → Input) (t : ℕ) : Bool :=
  !evBusActive (inp t) && monitorInac (stateAt inp t)

def usTickAt (inp : ℕ → Input) (t : ℕ) : Bool := (inp t).usTick

/-! ### The two timers -/

/-- `link_rst_state_q` with `link_rst_timer_q`. -/
def rstTimer (s : State) : TickTimer.State :=
  match s.linkRstState with
  | .noRst => .idle
  | .rstCnt => .counting s.linkRstTimer.toNat
  | .rstPend => .pending

/-- `link_inac_state_q` with `link_inac_timer_q`. -/
def inacTimer (s : State) : TickTimer.State :=
  match s.linkInacState with
  | .active => .idle
  | .inactCnt => .counting s.linkInacTimer.toNat
  | .inactPend => .pending

variable {s : State} {i : Input}

/-- Neither timer passes its limit. -/
structure TimersOk (s : State) : Prop where
  rst : s.linkRstTimer.toNat ≤ 3
  inac : s.linkInacTimer.toNat ≤ 3000

theorem rstFsm_le (h : s.linkRstTimer.toNat ≤ 3) : (rstFsm s i).2.toNat ≤ 3 := by
  unfold rstFsm
  cases s.linkRstState with
  | noRst => dsimp only; split_ifs <;> first | exact h | simp
  | rstPend => exact h
  | rstCnt =>
      dsimp only
      split_ifs with hse0 htick hlimit
      · exact h
      · exact h
      · have hne : s.linkRstTimer.toNat ≠ 3 := by
          intro heq
          exact hlimit (beq_iff_eq.2 (BitVec.eq_of_toNat_eq heq))
        rw [BitVec.toNat_add_of_lt (by simp; omega)]
        simp
        omega
      · exact h

theorem idleDet_le (h : s.linkInacTimer.toNat ≤ 3000) :
    (idleDet s i).linkInacTimerD.toNat ≤ 3000 := by
  unfold idleDet
  cases s.linkInacState with
  | active => dsimp only; split_ifs <;> simp
  | inactPend => dsimp only; split_ifs <;> exact h
  | inactCnt =>
      dsimp only
      split_ifs with hact htick hlimit
      · exact h
      · exact h
      · have hne : s.linkInacTimer.toNat ≠ 3000 := by
          intro heq
          exact hlimit (beq_iff_eq.2 (BitVec.eq_of_toNat_eq heq))
        rw [BitVec.toNat_add_of_lt (by simp; omega)]
        simp
        omega
      · exact h

theorem TimersOk.step (h : TimersOk s) : TimersOk (step s i) :=
  ⟨rstFsm_le h.rst, idleDet_le h.inac⟩

theorem timersOk_stateAt (inp : ℕ → Input) (t : ℕ) : TimersOk (stateAt inp t) :=
  Clocked.traj_invariant TimersOk ⟨by decide, by decide⟩ (fun _ h => h.step) t

theorem rstTimer_step (h : TimersOk s) :
    rstTimer (step s i) = TickTimer.step 3 (rstTimer s) (seeSe0 s) i.usTick := by
  have hle := h.rst
  have hstep : rstTimer (step s i) = match (rstFsm s i).1 with
      | .noRst => .idle
      | .rstCnt => .counting (rstFsm s i).2.toNat
      | .rstPend => .pending := rfl
  rw [hstep]
  unfold rstFsm rstTimer
  cases s.linkRstState with
  | noRst => cases seeSe0 s <;> rfl
  | rstPend => cases seeSe0 s <;> rfl
  | rstCnt =>
      cases seeSe0 s with
      | false => rfl
      | true =>
          cases i.usTick with
          | false => rfl
          | true =>
              by_cases hlimit : s.linkRstTimer = resetTimeout
              · simp [TickTimer.step, hlimit, resetTimeout]
              · have hne : s.linkRstTimer.toNat ≠ 3 := fun heq =>
                  hlimit (BitVec.eq_of_toNat_eq heq)
                have hadd : (s.linkRstTimer + 1#3).toNat = s.linkRstTimer.toNat + 1 :=
                  BitVec.toNat_add_of_lt (by simp; omega)
                simp [TickTimer.step, hlimit, hne, hadd]

theorem inacTimer_step (h : TimersOk s) : inacTimer (step s i) =
    TickTimer.step 3000 (inacTimer s) (!evBusActive i && monitorInac s) i.usTick := by
  have hle := h.inac
  have hstep : inacTimer (step s i) = match (idleDet s i).linkInacStateD with
      | .active => .idle
      | .inactCnt => .counting (idleDet s i).linkInacTimerD.toNat
      | .inactPend => .pending := rfl
  have hact : (evBusActive i || !monitorInac s) = !(!evBusActive i && monitorInac s) := by simp
  rw [hstep]
  unfold idleDet inacTimer
  rw [hact]
  generalize (!evBusActive i && monitorInac s) = idle
  cases s.linkInacState with
  | active => cases idle <;> rfl
  | inactPend => cases idle <;> rfl
  | inactCnt =>
      cases idle with
      | false => rfl
      | true =>
          cases i.usTick with
          | false => rfl
          | true =>
              by_cases hlimit : s.linkInacTimer = suspendTimeout
              · simp [TickTimer.step, hlimit, suspendTimeout]
              · have hne : s.linkInacTimer.toNat ≠ 3000 := fun heq =>
                  hlimit (BitVec.eq_of_toNat_eq heq)
                have hadd : (s.linkInacTimer + 1#12).toNat = s.linkInacTimer.toNat + 1 :=
                  BitVec.toNat_add_of_lt (by simp; omega)
                simp [TickTimer.step, hlimit, hne, hadd]

variable {inp : ℕ → Input} {t : ℕ}

theorem rstTimer_runs (inp : ℕ → Input) :
    TickTimer.Runs 3 (seeSe0At inp) (usTickAt inp) (fun t => rstTimer (stateAt inp t)) where
  zero := rfl
  succ t := rstTimer_step (timersOk_stateAt inp t)

theorem inacTimer_runs (inp : ℕ → Input) :
    TickTimer.Runs 3000 (idleAt inp) (usTickAt inp) (fun t => inacTimer (stateAt inp t)) where
  zero := rfl
  succ t := inacTimer_step (timersOk_stateAt inp t)

theorem rstTimer_eq_pending : rstTimer s = .pending ↔ linkReset s = true := by
  unfold rstTimer linkReset
  cases s.linkRstState <;> simp

theorem evBusInactive_iff_timer : evBusInactive s i = true ↔
    inacTimer s = .counting 3000 ∧ (!evBusActive i && monitorInac s) = true ∧
      i.usTick = true := by
  have hlimit : s.linkInacTimer = suspendTimeout ↔ s.linkInacTimer.toNat = 3000 :=
    ⟨fun h => h ▸ rfl, fun h => BitVec.eq_of_toNat_eq h⟩
  rw [evBusInactive_iff, hlimit]
  unfold inacTimer evBusActive
  cases s.linkInacState <;> simp
  tauto

/-! ### Bus reset -/

/-- The link reset falls with the filtered SE0 only. -/
theorem linkReset_succ (h : linkReset (stateAt inp t) = true) :
    linkReset (stateAt inp (t + 1)) = seeSe0At inp t := by
  have hstep : linkReset (stateAt inp (t + 1)) = ((rstFsm (stateAt inp t) (inp t)).1 == .rstPend) :=
    rfl
  have hpend : (stateAt inp t).linkRstState = .rstPend := by simpa [linkReset] using h
  rw [hstep, rstFsm, hpend, seeSe0At]
  cases seeSe0 (stateAt inp t) <;> rfl

/-- The end of a link reset is where `ev_reset` stands. -/
theorem evReset_iff : evReset (stateAt inp t) = true ↔
    linkReset (stateAt inp t) = true ∧ linkReset (stateAt inp (t + 1)) = false := by
  have hev : evReset (stateAt inp t) = (linkReset (stateAt inp t) && !seeSe0At inp t) := rfl
  rw [hev]
  cases h : linkReset (stateAt inp t) with
  | false => simp
  | true => simp [linkReset_succ h]

/-- Six equal line samples appear at the filtered SE0. -/
theorem seeSe0At_of_stable {b : Bool} {v : ℕ}
    (h : ∀ u, v ≤ u → u < v + 6 → lineSe0Raw (inp u) = b) : seeSe0At inp (v + 6) = b := by
  have hrun : seeSe0At inp (v + 6) = (Clocked.run Filter.step (stateAt inp v).filterSe0
      [lineSe0Raw (inp v), lineSe0Raw (inp (v + 1)), lineSe0Raw (inp (v + 2)),
        lineSe0Raw (inp (v + 3)), lineSe0Raw (inp (v + 4)), lineSe0Raw (inp (v + 5))]).storedValue :=
    rfl
  rw [hrun, h v (by omega) (by omega), h (v + 1) (by omega) (by omega),
    h (v + 2) (by omega) (by omega), h (v + 3) (by omega) (by omega),
    h (v + 4) (by omega) (by omega), h (v + 5) (by omega) (by omega)]
  exact Filter.storedValue_of_stable _ b

/-- With the filtered SE0 high, every six line samples have an SE0 among them. -/
theorem exists_lineSe0Raw {v : ℕ} (h : seeSe0At inp (v + 6) = true) :
    ∃ u, v ≤ u ∧ u < v + 6 ∧ lineSe0Raw (inp u) = true := by
  by_contra hnone
  push Not at hnone
  have hlow : seeSe0At inp (v + 6) = false := by
    apply seeSe0At_of_stable
    intro u hv hu
    simpa using hnone u hv hu
  rw [hlow] at h
  cases h

section PeriodicTick

variable {phase : ℕ} (hphase : phase < 48) (htick : ∀ t, usTickAt inp t = true ↔ t % 48 = phase)
include hphase htick

/-- A link reset has three microseconds of SE0 behind it. -/
theorem seeSe0_of_linkReset (h : linkReset (stateAt inp t) = true) :
    146 ≤ t ∧ HighOn (seeSe0At inp) (t - 146) t := by
  obtain ⟨a, ha, hhigh, hticks⟩ := (rstTimer_runs inp).high_of_pending (rstTimer_eq_pending.2 h)
  rw [TickTimer.ticks_periodic hphase htick, TickTimer.ticks_periodic hphase htick] at hticks
  exact ⟨by omega, hhigh.mono (by omega)⟩

/-- Four microseconds of SE0 make a link reset. -/
theorem linkReset_of_seeSe0 (ht : 193 ≤ t) (h : HighOn (seeSe0At inp) (t - 193) t) :
    linkReset (stateAt inp t) = true := by
  refine rstTimer_eq_pending.1 ((rstTimer_runs inp).pending_of_high (by omega) h ?_)
  rw [TickTimer.ticks_periodic hphase htick, TickTimer.ticks_periodic hphase htick]
  omega

/-- The SE0 of an end of packet, at either speed, is no link reset. -/
theorem linkReset_of_shortSe0 {a : ℕ}
    (h : ∀ u, t - 152 ≤ u → u < t → lineSe0Raw (inp u) = true → a ≤ u ∧ u < a + 64) :
    linkReset (stateAt inp t) = false := by
  by_contra hreset
  obtain ⟨ht, hhigh⟩ := seeSe0_of_linkReset hphase htick (by simpa using hreset)
  -- six samples at either end of the period cannot both be within 64 cycles
  obtain ⟨u, hu, hu', hraw⟩ := exists_lineSe0Raw (v := t - 146) (hhigh _ (by omega) (by omega))
  obtain ⟨w, hw, hw', hraw'⟩ := exists_lineSe0Raw (v := t - 7) (hhigh _ (by omega) (by omega))
  have hfirst := h u (by omega) (by omega) hraw
  have hlast := h w (by omega) (by omega) hraw'
  omega

end PeriodicTick

/-- With a tick every microsecond: a link reset has at least three microseconds of SE0 behind
it, is there after four, falls with SE0 only and ends in one `ev_reset`, which makes the link
active. -/
theorem bus_reset {phase : ℕ} (hphase : phase < 48)
    (htick : ∀ t, usTickAt inp t = true ↔ t % 48 = phase) :
    (∀ t, linkReset (stateAt inp t) = true → 146 ≤ t ∧ HighOn (seeSe0At inp) (t - 146) t) ∧
    (∀ t a, (∀ u, t - 152 ≤ u → u < t → lineSe0Raw (inp u) = true → a ≤ u ∧ u < a + 64) →
      linkReset (stateAt inp t) = false) ∧
    (∀ t, 193 ≤ t → HighOn (seeSe0At inp) (t - 193) t → linkReset (stateAt inp t) = true) ∧
    (∀ t, linkReset (stateAt inp t) = true → linkReset (stateAt inp (t + 1)) = false →
      seeSe0At inp (t - 1) = true ∧ seeSe0At inp t = false) ∧
    (∀ t, evReset (stateAt inp t) = true ↔
      linkReset (stateAt inp t) = true ∧ linkReset (stateAt inp (t + 1)) = false) ∧
    (∀ t, evReset (stateAt inp t) = true → seePwrSense (stateAt inp t) = true →
      (inp t).usbPullupEn = true →
      ((stateAt inp t).linkState = .linkPowered ∨
        (stateAt inp t).linkState = .linkPoweredSuspended ∨
        (stateAt inp t).linkState = .linkResuming ∨ (stateAt inp t).linkState = .linkSuspended ∨
        (stateAt inp t).linkState = .linkActive ∧ evBusInactive (stateAt inp t) (inp t) = false) →
      (stateAt inp (t + 1)).linkState = .linkActiveNoSOF) := by
  refine ⟨fun t h => seeSe0_of_linkReset hphase htick h,
    fun t a h => linkReset_of_shortSe0 hphase htick h,
    fun t ht h => linkReset_of_seeSe0 hphase htick ht h, fun t h hfall => ?_,
    fun t => evReset_iff, fun t h hpwr hpull hlink => linkFsm_of_evReset h hpwr hpull hlink⟩
  obtain ⟨ht, hhigh⟩ := seeSe0_of_linkReset hphase htick h
  exact ⟨hhigh _ (by omega) (by omega), by rw [← linkReset_succ h, hfall]⟩

/-- A bus held in SE0, with a tick every microsecond. -/
def heldSe0 (t : ℕ) : Input where
  usTick := t % 48 == 0
  usbSense := true
  usbDp := false
  usbDn := false
  usbOe := false
  usbPullupEn := true
  rxIdleDet := false
  rxJDet := false
  sofDetected := false
  resumeLinkActive := false

theorem bus_reset_heldSe0 : linkReset (stateAt heldSe0 199) = true := by
  refine (bus_reset (show 0 < 48 by decide) fun t => beq_iff_eq).2.2.1 199 (by decide) ?_
  intro u hu _
  obtain ⟨v, rfl⟩ : ∃ v, u = v + 6 := ⟨u - 6, by omega⟩
  exact seeSe0At_of_stable fun _ _ _ => rfl

/-! ### Suspend -/

/-- The link suspends when the bus has been idle, and the link monitored, for 3001 ticks; and
whenever it has been, from the cycle after one in which it was not, unless the pull-up goes
away or, in `linkPowered`, a reset ends or software resumes in the cycle of the last tick. -/
theorem suspend_detection (inp : ℕ → Input) :
    (∀ t x, x = .linkSuspended ∨ x = .linkPoweredSuspended → (stateAt inp (t + 1)).linkState = x →
      (stateAt inp t).linkState ≠ x → usTickAt inp t = true ∧
        ∃ a < t, HighOn (idleAt inp) a (t + 1) ∧
          ticks (usTickAt inp) (t + 1) = ticks (usTickAt inp) (a + 1) + 3001 ∧
          ∀ phase < 48, (∀ u, usTickAt inp u = true ↔ u % 48 = phase) → a + 144001 ≤ t) ∧
    (∀ b t, idleAt inp b = false → HighOn (idleAt inp) (b + 1) (t + 1) → usTickAt inp t = true →
      ticks (usTickAt inp) (t + 1) = ticks (usTickAt inp) (b + 2) + 3001 →
      (inp t).usbPullupEn = true →
      ((stateAt inp t).linkState = .linkPowered →
        evReset (stateAt inp t) = false ∧ (inp t).resumeLinkActive = false) →
      (stateAt inp (t + 1)).linkState =
        if (stateAt inp t).linkState = .linkPowered then .linkPoweredSuspended
        else .linkSuspended) := by
  constructor
  · intro t x hx hnext hne
    obtain ⟨hcount, hidle, htick⟩ :=
      evBusInactive_iff_timer.1 (evBusInactive_of_enters hx hnext hne)
    obtain ⟨a, ha, hhigh, hticks⟩ := (inacTimer_runs inp).high_of_timeout hcount hidle htick
    refine ⟨htick, a, ha, hhigh, hticks, fun phase hphase hperiodic => ?_⟩
    rw [TickTimer.ticks_periodic hphase hperiodic, TickTimer.ticks_periodic hphase hperiodic]
      at hticks
    omega
  · intro b t hb hhigh htick hticks hpull hkeep
    have hsucc := TickTimer.ticks_succ (usTickAt inp) t
    rw [htick, if_pos rfl] at hsucc
    change _ = ticks _ (b + 1 + 1) + 3001 at hticks
    have hbt : b + 1 < t := by
      by_contra hle
      have hmono : ticks (usTickAt inp) (t + 1) ≤ ticks (usTickAt inp) (b + 1 + 1) :=
        Nat.count_monotone _ (by omega)
      omega
    have hstart : inacTimer (stateAt inp (b + 1)) = .idle :=
      (inacTimer_runs inp).idle_of_low fun c hc => by
        obtain rfl : c = b := by omega
        exact hb
    have hcount := (inacTimer_runs inp).counting_of_high hstart hbt hhigh.init (by omega)
    have hlimit : ticks (usTickAt inp) t - ticks (usTickAt inp) (b + 1 + 1) = 3000 := by omega
    rw [hlimit] at hcount
    have hidle : idleAt inp t = true := hhigh.last (by omega)
    exact linkFsm_of_evBusInactive (evBusInactive_iff_timer.2 ⟨hcount, hidle, htick⟩) hpull hkeep

/-- An idle bus with activity in cycle 12 only; every cycle is a tick. -/
def idleBus (t : ℕ) : Input where
  usTick := true
  usbSense := true
  usbDp := true
  usbDn := false
  usbOe := false
  usbPullupEn := true
  rxIdleDet := t != 12
  rxJDet := true
  sofDetected := false
  resumeLinkActive := false

/-- The powered link after `timer` ticks of an idle bus. -/
def waiting (timer : BitVec 12) : State :=
  { State.reset with
    linkState := .linkPowered, filterPwrSense := ⟨0x3f#6, true⟩, linkInacState := .inactCnt
    linkInacTimer := timer }

theorem waiting_step {timer : BitVec 12} (ht : timer ≠ suspendTimeout) {t : ℕ} (h12 : t ≠ 12) :
    step (waiting timer) (idleBus t) = waiting (timer + 1) := by
  simp [step, waiting, State.reset, idleBus, linkFsm, rstFsm, idleDet, evReset, evBusInactive,
    evBusActive, monitorInac, seePwrSense, seeSe0, linkActive, linkReset, lineSe0Raw, sofMissed,
    sofTimeout, ht, h12]
  exact ⟨rfl, rfl, rfl, rfl⟩

theorem stateAt_idleBus {k : ℕ} (hk : k ≤ 3000) :
    stateAt idleBus (14 + k) = waiting (BitVec.ofNat 12 k) := by
  induction k with
  | zero => decide +kernel
  | succ k ih =>
      have hstep := stateAt_succ idleBus (14 + k)
      have hne : BitVec.ofNat 12 k ≠ suspendTimeout := by
        intro heq
        have hnat := congrArg BitVec.toNat heq
        simp only [BitVec.toNat_ofNat, suspendTimeout] at hnat
        omega
      rw [ih (by omega), waiting_step hne (by omega)] at hstep
      rw [← add_assoc, hstep, BitVec.ofNat_add]
      rfl

theorem suspend_detection_idleBus :
    (stateAt idleBus 3015).linkState = .linkPoweredSuspended ∧ ∃ a < 3014,
      HighOn (idleAt idleBus) a 3015 ∧
        ticks (usTickAt idleBus) 3015 = ticks (usTickAt idleBus) (a + 1) + 3001 := by
  obtain ⟨hbefore, hafter⟩ := suspend_detection idleBus
  have hticks : ∀ t, ticks (usTickAt idleBus) t = t := by
    intro t
    induction t with
    | zero => rfl
    | succ t ih =>
        rw [TickTimer.ticks_succ, ih]
        rfl
  have hhigh : HighOn (idleAt idleBus) 13 3015 := by
    intro u hu hlt
    obtain rfl | ⟨k, hk, rfl⟩ : u = 13 ∨ ∃ k ≤ 3000, u = 14 + k := by
      by_cases h : u = 13
      · exact .inl h
      · exact .inr ⟨u - 14, by omega, by omega⟩
    · decide +kernel
    · have hne : (14 + k != 12) = true := by simp; omega
      rw [idleAt, stateAt_idleBus hk, evBusActive, idleBus, hne]
      rfl
  have hlast : stateAt idleBus 3014 = waiting 3000#12 := stateAt_idleBus (k := 3000) (by decide)
  have hnext := hafter 12 3014 (by decide +kernel) hhigh rfl (by rw [hticks, hticks]) rfl
    fun _ => ⟨by rw [hlast]; rfl, rfl⟩
  rw [hlast, waiting, if_pos rfl] at hnext
  obtain ⟨-, a, ha, hidle, hcount, -⟩ := hbefore 3014 _ (.inr rfl) hnext (by rw [hlast]; decide)
  exact ⟨hnext, a, ha, hidle, hcount⟩

end UsbDev.LinkState
