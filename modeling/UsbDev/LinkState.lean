import UsbDev.Clocked

/-!
# The link state machine

`usbdev_linkstate`: two glitch filters, the detection of a bus reset and of an
idle bus, both timed by the microsecond tick, the link state machine that they
drive, and the two counters of missing frames.
-/
namespace UsbDev

/-! ### The glitch filter -/

namespace Filter

/-- `prim_filter` with `Cycles` at 6, without synchronizer and always enabled. -/
structure State where
  storedVector : BitVec 6
  storedValue : Bool
  deriving DecidableEq, Repr

def State.reset : State := ⟨0, false⟩

/-- `stored_vector_d`. -/
def storedVectorD (s : State) (filter : Bool) : BitVec 6 :=
  s.storedVector.extractLsb' 0 5 ++ BitVec.ofBool filter

def updateStoredValue (s : State) (filter : Bool) : Bool :=
  storedVectorD s filter == 0 || storedVectorD s filter == BitVec.allOnes 6

/-- One clock cycle; the output is `storedValue`. -/
def step (s : State) (filter : Bool) : State where
  storedVector := storedVectorD s filter
  storedValue := if updateStoredValue s filter then filter else s.storedValue

/-- Six equal samples appear at the output. -/
theorem storedValue_of_stable (s : State) (b : Bool) :
    (Clocked.run step s (List.replicate 6 b)).storedValue = b := by
  obtain ⟨v, x⟩ := s
  revert v x b
  decide +kernel

end Filter

namespace LinkState

/-- `SUSPEND_TIMEOUT`, in ticks. -/
def suspendTimeout : BitVec 12 := 3000#12
/-- `RESET_TIMEOUT`, in ticks. -/
def resetTimeout : BitVec 3 := 3#3
/-- `SOF_TIMEOUT`, in ticks. -/
def sofTimeout : BitVec 10 := 1005#10

/-- `link_state_e`. -/
inductive Link where
  | linkDisconnected
  | linkPowered
  | linkPoweredSuspended
  | linkActiveNoSOF
  | linkActive
  | linkSuspended
  | linkResuming
  deriving DecidableEq, Repr

/-- `link_rst_state_e`. -/
inductive LinkRst where
  | noRst
  | rstCnt
  | rstPend
  deriving DecidableEq, Repr

/-- `link_inac_state_e`. -/
inductive LinkInac where
  | active
  | inactCnt
  | inactPend
  deriving DecidableEq, Repr

structure State where
  linkState : Link
  filterSe0 : Filter.State
  filterPwrSense : Filter.State
  linkRstState : LinkRst
  linkRstTimer : BitVec 3
  linkInacState : LinkInac
  linkInacTimer : BitVec 12
  missedSofCount : BitVec 3
  missingSofTimer : BitVec 10
  deriving DecidableEq, Repr

structure Input where
  usTick : Bool
  usbSense : Bool
  usbDp : Bool
  usbDn : Bool
  usbOe : Bool
  usbPullupEn : Bool
  rxIdleDet : Bool
  rxJDet : Bool
  sofDetected : Bool
  resumeLinkActive : Bool
  deriving DecidableEq, Repr

/-- Register values under `rst_ni`. -/
def State.reset : State where
  linkState := .linkDisconnected
  filterSe0 := .reset
  filterPwrSense := .reset
  linkRstState := .noRst
  linkRstTimer := 0
  linkInacState := .active
  linkInacTimer := 0
  missedSofCount := 0
  missingSofTimer := 0

/-! ### Wires -/

/-- `line_se0_raw`. -/
def lineSe0Raw (i : Input) : Bool := !i.usbDn && !i.usbDp && !i.usbOe

def seeSe0 (s : State) : Bool := s.filterSe0.storedValue

/-- `see_pwr_sense`, which is `link_powered_o`. -/
def seePwrSense (s : State) : Bool := s.filterPwrSense.storedValue

def linkSuspend (s : State) : Bool :=
  s.linkState == .linkSuspended || s.linkState == .linkPoweredSuspended

/-- `link_active_o`. -/
def linkActive (s : State) : Bool := s.linkState == .linkActive || s.linkState == .linkActiveNoSOF

def evBusActive (i : Input) : Bool := !i.rxIdleDet

def monitorInac (s : State) : Bool :=
  seePwrSense s && (s.linkState == .linkPowered || linkActive s)

/-! ### Reset detection -/

/-- The next state and timer of `proc_rst_fsm`. -/
def rstFsm (s : State) (i : Input) : LinkRst × BitVec 3 :=
  match s.linkRstState with
  | .noRst => if seeSe0 s then (.rstCnt, 0) else (.noRst, s.linkRstTimer)
  | .rstCnt =>
      if !seeSe0 s then (.noRst, s.linkRstTimer)
      else if i.usTick then
        if s.linkRstTimer == resetTimeout then (.rstPend, s.linkRstTimer)
        else (.rstCnt, s.linkRstTimer + 1)
      else (.rstCnt, s.linkRstTimer)
  | .rstPend => (if seeSe0 s then .rstPend else .noRst, s.linkRstTimer)

/-- `link_reset_o`, the level of `proc_rst_fsm`. -/
def linkReset (s : State) : Bool := s.linkRstState == .rstPend

/-- `ev_reset`, the pulse of `proc_rst_fsm` at the end of a reset. -/
def evReset (s : State) : Bool := s.linkRstState == .rstPend && !seeSe0 s

/-! ### Idle detection -/

/-- What `proc_idle_det` computes. -/
structure InacComb where
  linkInacStateD : LinkInac
  linkInacTimerD : BitVec 12
  evBusInactive : Bool := false

def idleDet (s : State) (i : Input) : InacComb :=
  match s.linkInacState with
  | .active =>
      if !evBusActive i && monitorInac s then { linkInacStateD := .inactCnt, linkInacTimerD := 0 }
      else { linkInacStateD := .active, linkInacTimerD := 0 }
  | .inactCnt =>
      if evBusActive i || !monitorInac s then
        { linkInacStateD := .active, linkInacTimerD := s.linkInacTimer }
      else if i.usTick then
        if s.linkInacTimer == suspendTimeout then
          { linkInacStateD := .inactPend, linkInacTimerD := s.linkInacTimer, evBusInactive := true }
        else { linkInacStateD := .inactCnt, linkInacTimerD := s.linkInacTimer + 1 }
      else { linkInacStateD := .inactCnt, linkInacTimerD := s.linkInacTimer }
  | .inactPend =>
      if evBusActive i || !monitorInac s then
        { linkInacStateD := .active, linkInacTimerD := s.linkInacTimer }
      else { linkInacStateD := .inactPend, linkInacTimerD := s.linkInacTimer }

def evBusInactive (s : State) (i : Input) : Bool := (idleDet s i).evBusInactive

/-! ### The link -/

/-- The next link state and `link_resume_o`. -/
def linkFsm (s : State) (i : Input) : Link × Bool :=
  if !seePwrSense s || !i.usbPullupEn then (.linkDisconnected, false)
  else
    match s.linkState with
    | .linkDisconnected => (.linkPowered, false)
    | .linkPowered =>
        if evReset s then (.linkActiveNoSOF, false)
        else if i.resumeLinkActive then (.linkResuming, false)
        else if evBusInactive s i then (.linkPoweredSuspended, false)
        else (.linkPowered, false)
    | .linkPoweredSuspended =>
        if evReset s then (.linkActiveNoSOF, false)
        else if evBusActive i then (.linkPowered, true)
        else (.linkPoweredSuspended, false)
    | .linkResuming =>
        if i.rxJDet || evReset s then (.linkActiveNoSOF, true) else (.linkResuming, false)
    | .linkActiveNoSOF =>
        if evBusInactive s i then (.linkSuspended, false)
        else if i.sofDetected then (.linkActive, false)
        else (.linkActiveNoSOF, false)
    | .linkActive =>
        if evBusInactive s i then (.linkSuspended, false)
        else if evReset s then (.linkActiveNoSOF, false)
        else (.linkActive, false)
    | .linkSuspended =>
        if evReset s then (.linkActiveNoSOF, true)
        else if evBusActive i then (.linkResuming, false)
        else (.linkSuspended, false)

/-- `host_lost_o`. -/
def hostLost (s : State) : Bool := s.missedSofCount.getLsbD 2

/-- `sof_missed_o`. -/
def sofMissed (s : State) : Bool := s.missingSofTimer == sofTimeout

/-- One clock cycle. -/
def step (s : State) (i : Input) : State where
  linkState := (linkFsm s i).1
  filterSe0 := Filter.step s.filterSe0 (lineSe0Raw i)
  filterPwrSense := Filter.step s.filterPwrSense i.usbSense
  linkRstState := (rstFsm s i).1
  linkRstTimer := (rstFsm s i).2
  linkInacState := (idleDet s i).linkInacStateD
  linkInacTimer := (idleDet s i).linkInacTimerD
  missedSofCount :=
    if i.sofDetected || !linkActive s || linkReset s then 0
    else if sofMissed s && !hostLost s then s.missedSofCount + 1
    else s.missedSofCount
  missingSofTimer :=
    if sofMissed s || i.sofDetected || !linkActive s || linkReset s then 0
    else if i.usTick then s.missingSofTimer + 1
    else s.missingSofTimer

/-! ### What a cycle can do -/

variable {s : State} {i : Input}

/-- The only way to a timeout of the idle bus. -/
theorem evBusInactive_iff : evBusInactive s i = true ↔
    s.linkInacState = .inactCnt ∧ i.rxIdleDet = true ∧ monitorInac s = true ∧ i.usTick = true ∧
      s.linkInacTimer = suspendTimeout := by
  unfold evBusInactive idleDet evBusActive
  cases s.linkInacState <;> cases i.rxIdleDet <;> cases monitorInac s <;> cases i.usTick <;>
    by_cases h : s.linkInacTimer = suspendTimeout <;> simp [h]

/-- A suspended state is entered at the timeout only. -/
theorem evBusInactive_of_enters {x : Link} (hx : x = .linkSuspended ∨ x = .linkPoweredSuspended)
    (h : (linkFsm s i).1 = x) (hs : s.linkState ≠ x) : evBusInactive s i = true := by
  unfold linkFsm at h
  cases hl : s.linkState <;> simp only [hl] at h hs <;>
    split_ifs at h <;> first | assumption | (obtain rfl | rfl := hx <;> simp_all)

/-- At the timeout a link that stays attached suspends, unless it has just been reset or
resumed by software. -/
theorem linkFsm_of_evBusInactive (h : evBusInactive s i = true) (hpull : i.usbPullupEn = true)
    (hkeep : s.linkState = .linkPowered → evReset s = false ∧ i.resumeLinkActive = false) :
    (linkFsm s i).1 =
      if s.linkState = .linkPowered then .linkPoweredSuspended else .linkSuspended := by
  have hmon := (evBusInactive_iff.1 h).2.2.1
  unfold linkFsm
  simp only [monitorInac, linkActive, Bool.and_eq_true, Bool.or_eq_true, beq_iff_eq] at hmon
  obtain ⟨hpwr, hlink | hlink | hlink⟩ := hmon
  · obtain ⟨hreset, hresume⟩ := hkeep hlink
    simp [hpwr, hpull, hlink, hreset, hresume, h]
  all_goals simp [hpwr, hpull, hlink, h]

/-- The end of a bus reset makes the link active. -/
theorem linkFsm_of_evReset (h : evReset s = true) (hpwr : seePwrSense s = true)
    (hpull : i.usbPullupEn = true)
    (hlink : s.linkState = .linkPowered ∨ s.linkState = .linkPoweredSuspended ∨
      s.linkState = .linkResuming ∨ s.linkState = .linkSuspended ∨
      s.linkState = .linkActive ∧ evBusInactive s i = false) :
    (linkFsm s i).1 = .linkActiveNoSOF := by
  unfold linkFsm
  obtain hl | hl | hl | hl | ⟨hl, hinac⟩ := hlink <;> simp [hpwr, hpull, hl, h]
  simp [hinac]

end LinkState

end UsbDev
