import UsbDev.SyncFilter

/-!
# The always-on wake-up detector

`usbdev_aon_wake`, which takes over the pull-ups when the device is suspended and
watches the bus meanwhile: three filters, the event registers behind them, the
two-state machine that says who controls the pull-ups, and the registers that hold
the pull-ups.
-/
namespace UsbDev.AonWake

open Clocked

/-! ### The module -/

/-- The enables of the two pull-ups. -/
structure Pullups where
  dp : Bool
  dn : Bool
  deriving DecidableEq, Repr

def Pullups.off : Pullups := ⟨false, false⟩

/-- `usbdevPullupEn` is `usbdev_dppullup_en_i` and `usbdev_dnpullup_en_i`. -/
structure Input where
  usbDp : Bool
  usbDn : Bool
  usbSense : Bool
  usbdevPullupEn : Pullups
  wakeAckAon : Bool
  suspendReqAon : Bool
  deriving DecidableEq, Repr

structure State where
  filterActivity : SyncFilter.State 4
  filterBusReset : SyncFilter.State 3
  filterSense : SyncFilter.State 3
  busNotIdle : Bool
  busReset : Bool
  senseLost : Bool
  wakeReq : Bool
  wakeDetectActive : Bool
  pullupEnCdc : Flop2Sync Pullups
  aonPullupEn : Pullups
  deriving DecidableEq, Repr

/-- Register values under `rst_aon_ni`. -/
def State.reset : State where
  filterActivity := .reset 4
  filterBusReset := .reset 3
  filterSense := .reset 3
  busNotIdle := false
  busReset := false
  senseLost := false
  wakeReq := false
  wakeDetectActive := false
  pullupEnCdc := .reset .off
  aonPullupEn := .off

/-- `usb_dppullup_en_o` and `usb_dnpullup_en_o`. -/
def usbPullupEnO (s : State) (i : Input) : Pullups :=
  if s.wakeDetectActive then s.aonPullupEn else i.usbdevPullupEn

/-- In suspend the pull-ups set the line state, so another state means that the host acts. -/
def notIdleAsync (s : State) (i : Input) : Bool :=
  (i.usbDp != (usbPullupEnO s i).dp) || (i.usbDn != (usbPullupEnO s i).dn)

def se0Async (i : Input) : Bool := !i.usbDp && !i.usbDn

def senseLostAsync (i : Input) : Bool := !i.usbSense

def eventNotIdle (s : State) : Bool := s.filterActivity.storedValue

def eventBusReset (s : State) : Bool := s.filterBusReset.storedValue

def eventSenseLost (s : State) : Bool := s.filterSense.storedValue

def wakeReqD (s : State) : Bool :=
  s.wakeDetectActive && (eventNotIdle s || eventBusReset s || eventSenseLost s || s.wakeReq)

/-- `proc_awk_fsm`. -/
def wakeDetectActiveD (s : State) (i : Input) : Bool :=
  match s.wakeDetectActive with
  | false => i.suspendReqAon
  | true => !i.wakeAckAon

/-- One cycle of the AON clock. -/
def step (s : State) (i : Input) : State where
  filterActivity := SyncFilter.step s.filterActivity (notIdleAsync s i)
  filterBusReset := SyncFilter.step s.filterBusReset (se0Async i)
  filterSense := SyncFilter.step s.filterSense (senseLostAsync i)
  busNotIdle := (eventNotIdle s || s.busNotIdle) && s.wakeDetectActive
  busReset := (eventBusReset s || s.busReset) && s.wakeDetectActive
  senseLost := (eventSenseLost s || s.senseLost) && s.wakeDetectActive
  wakeReq := wakeReqD s
  wakeDetectActive := wakeDetectActiveD s i
  pullupEnCdc := s.pullupEnCdc.step i.usbdevPullupEn
  aonPullupEn := if s.wakeDetectActive then s.aonPullupEn else s.pullupEnCdc.q

variable {inp : ℕ → Input}

/-- The registers in cycle `t` after reset. -/
def stateAt (inp : ℕ → Input) (t : ℕ) : State := traj step State.reset inp t

theorem stateAt_succ (inp : ℕ → Input) (t : ℕ) :
    stateAt inp (t + 1) = step (stateAt inp t) (inp t) := rfl

/-- `wake_detect_active_aon_o`. -/
def activeAt (inp : ℕ → Input) (t : ℕ) : Bool := (stateAt inp t).wakeDetectActive

def notIdleAt (inp : ℕ → Input) (t : ℕ) : Bool := notIdleAsync (stateAt inp t) (inp t)

def se0At (inp : ℕ → Input) (t : ℕ) : Bool := se0Async (inp t)

def senseLostAsyncAt (inp : ℕ → Input) (t : ℕ) : Bool := senseLostAsync (inp t)

theorem filterActivity_stateAt (inp : ℕ → Input) (t : ℕ) :
    (stateAt inp t).filterActivity = SyncFilter.stateAt 4 (notIdleAt inp) t :=
  traj_part State.filterActivity notIdleAsync (fun _ _ => rfl) State.reset inp t

theorem filterBusReset_stateAt (inp : ℕ → Input) (t : ℕ) :
    (stateAt inp t).filterBusReset = SyncFilter.stateAt 3 (se0At inp) t :=
  traj_part State.filterBusReset (fun _ i => se0Async i) (fun _ _ => rfl) State.reset inp t

theorem filterSense_stateAt (inp : ℕ → Input) (t : ℕ) :
    (stateAt inp t).filterSense = SyncFilter.stateAt 3 (senseLostAsyncAt inp) t :=
  traj_part State.filterSense (fun _ i => senseLostAsync i) (fun _ _ => rfl) State.reset inp t

/-! ### Wake events -/

open SyncFilter

theorem detects_busNotIdle (inp : ℕ → Input) :
    Detects 4 (notIdleAt inp) (activeAt inp) (fun t => (stateAt inp t).busNotIdle) :=
  ⟨rfl, fun t => by rw [← filterActivity_stateAt] ; rfl⟩

theorem detects_busReset (inp : ℕ → Input) :
    Detects 3 (se0At inp) (activeAt inp) (fun t => (stateAt inp t).busReset) :=
  ⟨rfl, fun t => by rw [← filterBusReset_stateAt] ; rfl⟩

theorem detects_senseLost (inp : ℕ → Input) :
    Detects 3 (senseLostAsyncAt inp) (activeAt inp) (fun t => (stateAt inp t).senseLost) :=
  ⟨rfl, fun t => by rw [← filterSense_stateAt] ; rfl⟩

/-- The wake request is raised with the first event and kept with it. -/
theorem wakeReq_eq (inp : ℕ → Input) (t : ℕ) : (stateAt inp t).wakeReq =
    ((stateAt inp t).busNotIdle || (stateAt inp t).busReset || (stateAt inp t).senseLost) := by
  induction t with
  | zero => rfl
  | succ t ih =>
      rw [stateAt_succ]
      simp only [step, wakeReqD, ih]
      cases (stateAt inp t).wakeDetectActive with
      | false => simp only [Bool.and_false, Bool.false_and, Bool.or_false]
      | true =>
          simp only [Bool.and_true, Bool.true_and]
          ac_rfl

/-- Each event, and with it the wake request, is raised only for a condition that the module
sampled as often as its filter asks for since it became active. -/
structure Monitored (inp : ℕ → Input) : Prop where
  busNotIdle : ∀ t, (stateAt inp t).busNotIdle = false → (stateAt inp (t + 1)).busNotIdle = true →
    ∃ w, Confirmed 4 (notIdleAt inp) (activeAt inp) t w
  busReset : ∀ t, (stateAt inp t).busReset = false → (stateAt inp (t + 1)).busReset = true →
    ∃ w, Confirmed 3 (se0At inp) (activeAt inp) t w
  senseLost : ∀ t, (stateAt inp t).senseLost = false → (stateAt inp (t + 1)).senseLost = true →
    ∃ w, Confirmed 3 (senseLostAsyncAt inp) (activeAt inp) t w
  wakeReq : ∀ t, (stateAt inp t).wakeReq = false → (stateAt inp (t + 1)).wakeReq = true →
    ∃ w, Confirmed 4 (notIdleAt inp) (activeAt inp) t w ∨
      Confirmed 3 (se0At inp) (activeAt inp) t w ∨
      Confirmed 3 (senseLostAsyncAt inp) (activeAt inp) t w

/-- The events come from monitoring alone exactly if every activation meets filters without
history. -/
theorem monitored_iff (inp : ℕ → Input) : Monitored inp ↔
    ∀ a, activeAt inp a = false → activeAt inp (a + 1) = true →
      Clean 4 (notIdleAt inp) (activeAt inp) a ∧ Clean 3 (se0At inp) (activeAt inp) a ∧
        Clean 3 (senseLostAsyncAt inp) (activeAt inp) a := by
  have hidle := confirmed_iff (by decide) rfl (detects_busNotIdle inp)
  have hreset := confirmed_iff (by decide) rfl (detects_busReset inp)
  have hsense := confirmed_iff (by decide) rfl (detects_senseLost inp)
  constructor
  · intro h a ha hact
    exact ⟨hidle.1 h.busNotIdle a ha hact, hreset.1 h.busReset a ha hact,
      hsense.1 h.senseLost a ha hact⟩
  · intro h
    have hidle' := hidle.2 fun a ha hact => (h a ha hact).1
    have hreset' := hreset.2 fun a ha hact => (h a ha hact).2.1
    have hsense' := hsense.2 fun a ha hact => (h a ha hact).2.2
    refine ⟨hidle', hreset', hsense', fun t hlow hhigh => ?_⟩
    rw [wakeReq_eq, Bool.or_eq_false_iff, Bool.or_eq_false_iff] at hlow
    rw [wakeReq_eq, Bool.or_eq_true, Bool.or_eq_true] at hhigh
    obtain ⟨⟨hlow₁, hlow₂⟩, hlow₃⟩ := hlow
    obtain (hhigh | hhigh) | hhigh := hhigh
    · obtain ⟨w, hw⟩ := hidle' t hlow₁ hhigh
      exact ⟨w, .inl hw⟩
    · obtain ⟨w, hw⟩ := hreset' t hlow₂ hhigh
      exact ⟨w, .inr (.inl hw)⟩
    · obtain ⟨w, hw⟩ := hsense' t hlow₃ hhigh
      exact ⟨w, .inr (.inr hw)⟩

/-- A full-speed device on the bus: the pull-up of D+ is on, and the module is never told to hand
back control. -/
def fullSpeed (dp sense suspendReq : Bool) : Input where
  usbDp := dp
  usbDn := false
  usbSense := sense
  usbdevPullupEn := ⟨true, false⟩
  wakeAckAon := false
  suspendReqAon := suspendReq

/-- A bus reset that ends before the module becomes active. -/
def endedReset (t : ℕ) : Input := fullSpeed (decide (t < 4 ∨ 9 < t)) true (decide (t = 9))

/-- The reset is reported all the same. -/
theorem not_monitored_endedReset : ¬ Monitored endedReset := by
  intro h
  obtain ⟨w, -, hends, hact⟩ := h.busReset 10 (by decide +kernel) (by decide +kernel)
  have hlow : activeAt endedReset 9 = false := by decide +kernel
  rw [hact 9 (by omega) (by omega)] at hlow
  cases hlow

/-! ### The pull-ups -/

/-- The module became active after cycle `a` and is still active in cycle `t`. -/
structure ActiveSince (inp : ℕ → Input) (a t : ℕ) : Prop where
  inactive : activeAt inp a = false
  lt : a < t
  active : ∀ u, a < u → u ≤ t → activeAt inp u = true

/-- What the module takes over after cycle `a`: the synchronized enables. -/
def captured (inp : ℕ → Input) (a : ℕ) : Pullups :=
  Flop2Sync.delayed .off (fun u => (inp u).usbdevPullupEn) a

theorem pullupEnCdc_stateAt (inp : ℕ → Input) (t : ℕ) :
    (stateAt inp t).pullupEnCdc.q = captured inp t := by
  have hpart : (stateAt inp t).pullupEnCdc =
      traj Flop2Sync.step (.reset .off) (fun u => (inp u).usbdevPullupEn) t :=
    traj_part State.pullupEnCdc (fun _ (i : Input) => i.usbdevPullupEn) (fun _ _ => rfl) State.reset inp t
  rw [hpart, Flop2Sync.q_traj, captured]

/-- While the module is active both outputs are what it took over. -/
theorem usbPullupEnO_eq {a t : ℕ} (h : ActiveSince inp a t) :
    usbPullupEnO (stateAt inp t) (inp t) = captured inp a := by
  obtain ⟨ha, hat, hon⟩ := h
  have hheld : (stateAt inp t).aonPullupEn = captured inp a := by
    induction t, hat using Nat.le_induction with
    | base =>
        have hin : (stateAt inp a).wakeDetectActive = false := ha
        rw [stateAt_succ, ← pullupEnCdc_stateAt, step, hin]
        rfl
    | succ t hat ih =>
        have hact : (stateAt inp t).wakeDetectActive = true := hon t hat (by omega)
        rw [← ih fun u hu hut => hon u hu (by omega), stateAt_succ, step, hact]
        rfl
  have hact : (stateAt inp t).wakeDetectActive = true := hon t hat le_rfl
  rw [usbPullupEnO, hact, ← hheld]
  rfl

/-- The promise about the module that became active after cycle `a`: it keeps the pull-ups until
it reports the loss of VBUS, and switches them off from then on. -/
structure Custody (inp : ℕ → Input) (a : ℕ) : Prop where
  kept : ∀ t, ActiveSince inp a t →
    (∀ u, a < u → u ≤ t → (stateAt inp u).senseLost = false) →
      usbPullupEnO (stateAt inp t) (inp t) = captured inp a
  dropped : ∀ t, ActiveSince inp a t →
    (∃ u, a < u ∧ u ≤ t ∧ (stateAt inp u).senseLost = true) →
      usbPullupEnO (stateAt inp t) (inp t) = .off

/-- VBUS counts as lost in no cycle of the activation but the last. -/
def SenseKept (inp : ℕ → Input) (a : ℕ) : Prop :=
  ∀ u, a < u → ActiveSince inp a (u + 1) → ¬ Held 3 (senseLostAsyncAt inp) u

theorem senseLost_of_held {a u : ℕ} (hau : a < u) (h : ActiveSince inp a (u + 1))
    (hheld : Held 3 (senseLostAsyncAt inp) u) : (stateAt inp (u + 1)).senseLost = true := by
  have hact : activeAt inp u = true := h.active u hau (by omega)
  have hrise := (detects_senseLost inp).2 u
  rw [(storedValue_iff (by decide) u).2 hheld, hact] at hrise
  exact hrise

/-- The promise is kept exactly if there is nothing to drop: the module took over pull-ups that
are off, or does not see VBUS go. -/
theorem custody_iff (inp : ℕ → Input) (a : ℕ) :
    Custody inp a ↔ captured inp a = .off ∨ SenseKept inp a := by
  constructor
  · intro h
    by_contra hno
    rw [not_or] at hno
    obtain ⟨hon, hlost⟩ := hno
    rw [SenseKept] at hlost
    push Not at hlost
    obtain ⟨u, hau, hact, hheld⟩ := hlost
    apply hon
    rw [← usbPullupEnO_eq hact]
    exact h.dropped (u + 1) hact ⟨u + 1, by omega, le_rfl, senseLost_of_held hau hact hheld⟩
  · intro h
    refine ⟨fun t ht _ => usbPullupEnO_eq ht, fun t ht hlost => ?_⟩
    rw [usbPullupEnO_eq ht]
    obtain hoff | hkept := h
    · exact hoff
    · exfalso
      obtain ⟨u, hau, hut, hlost⟩ := hlost
      obtain ⟨n, rfl⟩ : ∃ n, u = n + 1 := ⟨u - 1, by omega⟩
      have hlow : (stateAt inp (a + 1)).senseLost = false := by
        have hstart := (detects_senseLost inp).2 a
        rw [ht.inactive, Bool.and_false] at hstart
        exact hstart
      have hstay : (stateAt inp (n + 1)).senseLost = false :=
        flag_of_not_held (detects_senseLost inp) (by decide) (m := a + 1) (by omega)
          (fun v hv hvn => hkept v hv
            ⟨ht.inactive, by omega, fun w hw hwv => ht.active w hw (by omega)⟩) hlow
      rw [hstay] at hlost
      cases hlost

/-- VBUS goes while the module is active. -/
def unplugged (t : ℕ) : Input := fullSpeed true (decide (t < 5)) (decide (t = 3))

/-- The pull-up stays on after the loss is reported. -/
theorem not_custody_unplugged : ¬ Custody unplugged 3 := by
  intro h
  have hon : ∀ u < 12, 3 < u → activeAt unplugged u = true := by decide +kernel
  have hsince : ActiveSince unplugged 3 11 :=
    ⟨by decide +kernel, by decide, fun u hu hut => hon u (by omega) hu⟩
  have hoff := h.dropped 11 hsince ⟨11, by decide, le_rfl, by decide +kernel⟩
  rw [usbPullupEnO_eq hsince] at hoff
  revert hoff
  decide

end UsbDev.AonWake
