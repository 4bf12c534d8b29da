import UsbDev.Signals

/-!
# The OUT/SETUP protocol engine

`usb_fs_nb_out_pe` with its registers, its transaction state machine and its
combinational outputs, for any number `N` of endpoints and packets of at most
64 bytes. Endpoint numbers are elements of `Fin N`: the source maps an endpoint
that is not implemented to 0 before it is used as an index.
-/
namespace UsbDev.OutPe

/-- `state_out_e`. -/
inductive XactState where
  | idle
  | rcvdOut
  | rcvdDataStart
  | rcvdDataEnd
  | rcvdIsoDataEnd
  deriving DecidableEq, Repr

/-- `AckTimeoutCnt`: 17 bit times of four clock cycles. -/
def ackTimeoutCnt : BitVec 7 := 68#7

structure State (N : ℕ) where
  outXactState : XactState
  timeoutCntdown : BitVec 7
  dataToggle : Fin N → Bool
  outEpSetup : Fin N → Bool
  outEpData : BitVec 8
  outEpNewpkt : Bool
  outEpCurrent : Fin N
  currentXactSetup : Bool
  outEpDataPut : Bool
  nakOutTransaction : Bool
  outEpPutAddr : BitVec 6

structure Input (N : ℕ) where
  linkReset : Bool
  devAddr : BitVec 7
  enabled : Fin N → Bool
  control : Fin N → Bool
  full : Fin N → Bool
  stall : Fin N → Bool
  iso : Fin N → Bool
  /-- `out_datatog_we_i` with status and mask: the software write of the data toggles. -/
  datatog : Option ((Fin N → Bool) × (Fin N → Bool))
  rx : RxSignals

/-- Register values under `rst_ni`. -/
def State.reset (N : ℕ) [NeZero N] : State N where
  outXactState := .idle
  timeoutCntdown := ackTimeoutCnt
  dataToggle := fun _ => false
  outEpSetup := fun _ => false
  outEpData := 0
  outEpNewpkt := false
  outEpCurrent := 0
  currentXactSetup := false
  outEpDataPut := false
  nakOutTransaction := false
  outEpPutAddr := 0

section
variable {N : ℕ} [NeZero N]

def Input.outTokenReceived (i : Input N) : Bool :=
  i.rx.tokenReceived i.devAddr && i.rx.pid == usbPidOut

def Input.setupTokenReceived (i : Input N) : Bool :=
  i.rx.tokenReceived i.devAddr && i.rx.pid == usbPidSetup

def Input.invalidPacketReceived (i : Input N) : Bool := i.rx.pktEnd && !i.rx.pktValid

def Input.nonDataPacketReceived (i : Input N) : Bool :=
  i.rx.pktEnd && i.rx.pktValid && !(i.rx.pid == usbPidData0 || i.rx.pid == usbPidData1)

/-- `ep_active`: the addressed endpoint is implemented and enabled. -/
def Input.epActive (i : Input N) : Bool := i.enabled i.rx.epCurrentD && i.rx.epInHw N

/-- `ep_is_control`. -/
def Input.epIsControl (i : Input N) : Bool := i.control i.rx.epCurrentD

/-- `bad_data_toggle`: a DATA packet whose identifier disagrees with the toggle of the
endpoint held by the receiver. -/
def badDataToggle (s : State N) (i : Input N) : Bool :=
  i.rx.dataPacketReceived && i.epActive && i.rx.pid.getLsbD 3 != s.dataToggle i.rx.epCurrentD

/-- The outputs of the state machine's combinational block. -/
structure Comb where
  acked : Bool := false
  xactStart : Bool := false
  stateNext : XactState
  txPktStart : Bool := false
  txPid : BitVec 4 := 0
  newPktEnd : Bool := false
  rollback : Bool := false
  timeoutD : BitVec 7 := ackTimeoutCnt

/-- The transaction state machine. -/
def comb (s : State N) (i : Input N) : Comb :=
  match s.outXactState with
  | .idle =>
      if i.epActive && (i.outTokenReceived || (i.setupTokenReceived && i.epIsControl)) then
        { stateNext := .rcvdOut, xactStart := true }
      else { stateNext := .idle }
  | .rcvdOut =>
      if i.rx.pktStart then
        { stateNext := .rcvdDataStart, timeoutD := s.timeoutCntdown - 1 }
      else if s.timeoutCntdown == 0 then
        { stateNext := .idle, timeoutD := s.timeoutCntdown - 1 }
      else { stateNext := .rcvdOut, timeoutD := s.timeoutCntdown - 1 }
  | .rcvdDataStart =>
      if !i.epIsControl && i.iso s.outEpCurrent && i.rx.dataPacketReceived then
        { stateNext := .rcvdIsoDataEnd }
      else if badDataToggle s i && !i.stall s.outEpCurrent then
        { stateNext := .idle, rollback := true, txPktStart := true, txPid := usbPidAck }
      else if i.invalidPacketReceived || i.nonDataPacketReceived then
        { stateNext := .idle, rollback := true }
      else if i.rx.dataPacketReceived then { stateNext := .rcvdDataEnd }
      else { stateNext := .rcvdDataStart }
  | .rcvdDataEnd =>
      if s.currentXactSetup then
        -- a SETUP that cannot be stored is dropped without a response
        if s.nakOutTransaction || i.full s.outEpCurrent then
          { stateNext := .idle, rollback := true }
        else
          { stateNext := .idle, txPktStart := true, txPid := usbPidAck, newPktEnd := true,
            acked := true }
      else if i.stall s.outEpCurrent then
        { stateNext := .idle, txPktStart := true, txPid := usbPidStall, rollback := true }
      else if s.nakOutTransaction || i.full s.outEpCurrent then
        { stateNext := .idle, txPktStart := true, txPid := usbPidNak, rollback := true }
      else
        { stateNext := .idle, txPktStart := true, txPid := usbPidAck, newPktEnd := true,
          acked := true }
  | .rcvdIsoDataEnd =>
      if s.nakOutTransaction || i.full s.outEpCurrent then
        { stateNext := .idle, rollback := true }
      else { stateNext := .idle, newPktEnd := true, acked := true }

/-- `data_toggle_d`: bus events first, then the selective write by software. -/
def dataToggleD (s : State N) (i : Input N) : Fin N → Bool :=
  let busy :=
    if i.setupTokenReceived && i.epActive then
      Function.update s.dataToggle i.rx.epCurrentD false
    else if (comb s i).newPktEnd then
      Function.update s.dataToggle s.outEpCurrent (!s.dataToggle s.outEpCurrent)
    else s.dataToggle
  match i.datatog with
  | none => busy
  | some (status, mask) => fun e => (busy e && !mask e) || (status e && mask e)

/-- `increment_addr`: the put address saturates at all ones. -/
def incrementAddr (s : State N) : Bool :=
  !s.nakOutTransaction && s.outEpPutAddr != 63#6 && s.outEpDataPut

/-- One clock cycle. -/
def step (s : State N) (i : Input N) : State N where
  outXactState := if i.linkReset then .idle else (comb s i).stateNext
  timeoutCntdown := (comb s i).timeoutD
  dataToggle := if i.linkReset then fun _ => false else dataToggleD s i
  outEpSetup :=
    if i.setupTokenReceived && i.epActive then Function.update s.outEpSetup i.rx.epCurrentD true
    else if i.outTokenReceived && i.epActive then
      Function.update s.outEpSetup i.rx.epCurrentD false
    else s.outEpSetup
  outEpData := if i.rx.dataPut then i.rx.data else s.outEpData
  outEpNewpkt := (comb s i).xactStart
  outEpCurrent := if (comb s i).xactStart then i.rx.epCurrentD else s.outEpCurrent
  currentXactSetup := if (comb s i).xactStart then i.setupTokenReceived else s.currentXactSetup
  outEpDataPut := s.outXactState == .rcvdDataStart && i.rx.dataPut
  nakOutTransaction :=
    if s.outXactState == .idle || s.outXactState == .rcvdOut then false
    else if s.outEpDataPut && i.full s.outEpCurrent then true
    else s.nakOutTransaction
  outEpPutAddr :=
    if s.outXactState == .rcvdOut then 0
    else if s.outXactState == .rcvdDataStart && incrementAddr s then s.outEpPutAddr + 1
    else s.outEpPutAddr

/-! ### What a cycle can do -/

section notEnd
variable {i : Input N} (h : i.rx.pktEnd = false)
include h

omit [NeZero N] in
@[simp] theorem outTokenReceived_of_not_end : i.outTokenReceived = false := by
  simp [Input.outTokenReceived, h]

omit [NeZero N] in
@[simp] theorem setupTokenReceived_of_not_end : i.setupTokenReceived = false := by
  simp [Input.setupTokenReceived, h]

/-- Only the end of a packet moves the machine out of `idle` and `rcvdDataStart`. -/
theorem comb_idle_of_not_end {s : State N} (hs : s.outXactState = .idle) :
    comb s i = { stateNext := .idle } := by
  simp [comb, hs, h]

theorem comb_dataStart_of_not_end {s : State N} (hs : s.outXactState = .rcvdDataStart) :
    comb s i = { stateNext := .rcvdDataStart } := by
  simp [comb, hs, h, badDataToggle, Input.invalidPacketReceived, Input.nonDataPacketReceived]

theorem xactStart_of_not_end (s : State N) : (comb s i).xactStart = false := by
  unfold comb
  cases s.outXactState <;> simp [h] <;> split_ifs <;> rfl

/-- The endpoint and the kind of the current transaction change only at the end of a token. -/
theorem step_of_not_end (s : State N) :
    (step s i).outEpSetup = s.outEpSetup ∧ (step s i).outEpCurrent = s.outEpCurrent ∧
      (step s i).currentXactSetup = s.currentXactSetup := by
  simp [step, h, xactStart_of_not_end h]

end notEnd

/-- A transaction starts only in `idle`. -/
theorem idle_of_xactStart {s : State N} {i : Input N} (h : (comb s i).xactStart = true) :
    s.outXactState = .idle := by
  unfold comb at h
  cases hs : s.outXactState <;> simp only [hs] at h <;> first | rfl | skip
  all_goals split_ifs at h

/-- A packet is accepted only in the two end-of-data states, and only when neither the
sticky flag nor the current level says that it cannot be stored. -/
theorem acked_cases {s : State N} {i : Input N} (h : (comb s i).acked = true) :
    (s.outXactState = .rcvdDataEnd ∨ s.outXactState = .rcvdIsoDataEnd) ∧
      s.nakOutTransaction = false ∧ i.full s.outEpCurrent = false := by
  unfold comb at h
  cases hs : s.outXactState <;> simp only [hs] at h <;> split_ifs at h <;>
    simp_all

theorem newPktEnd_eq_acked (s : State N) (i : Input N) :
    (comb s i).newPktEnd = (comb s i).acked := by
  unfold comb
  cases s.outXactState <;> dsimp only <;> split_ifs <;> rfl

/-- The DATA packet is awaited from the end of the token on, until the timeout. -/
theorem rcvdOut_cases {s : State N} {i : Input N} (h : (comb s i).stateNext = .rcvdOut) :
    (comb s i).xactStart = true ∧ i.rx.pktEnd = true ∧ (comb s i).timeoutD = ackTimeoutCnt ∨
      s.outXactState = .rcvdOut ∧ i.rx.pktStart = false ∧ s.timeoutCntdown ≠ 0 ∧
        (comb s i).timeoutD = s.timeoutCntdown - 1 := by
  unfold comb at h ⊢
  cases hs : s.outXactState <;> simp only [hs] at h ⊢ <;> split_ifs at h ⊢ <;>
    simp_all [Input.outTokenReceived, Input.setupTokenReceived, RxSignals.tokenReceived]
  rename_i hc
  obtain hc | hc := hc.2
  · exact hc.1.1.1.1
  · exact hc.1.1.1.1.1

/-- Only a valid DATA packet leads to the end-of-data states, from whatever state; it is not yet
rolled back. -/
theorem dataPacket_of_dataEnd {s : State N} {i : Input N}
    (h : (comb s i).stateNext = .rcvdDataEnd ∨ (comb s i).stateNext = .rcvdIsoDataEnd) :
    s.outXactState = .rcvdDataStart ∧ i.rx.dataPacketReceived = true ∧
      (comb s i).rollback = false ∧ (comb s i).xactStart = false := by
  unfold comb at h ⊢
  cases hs : s.outXactState <;> simp only [hs] at h ⊢ <;> split_ifs at h ⊢ <;> simp_all

/-- Data ends with the packet accepted or rolled back. -/
theorem ended_of_data {s : State N} {i : Input N} (hi : s.outXactState ≠ .idle)
    (ho : s.outXactState ≠ .rcvdOut)
    (h : (comb s i).stateNext = .idle ∨ (comb s i).stateNext = .rcvdOut) :
    (comb s i).acked = true ∨ (comb s i).rollback = true := by
  unfold comb at h ⊢
  cases hs : s.outXactState <;> simp only [hs, ne_eq, not_true_eq_false] at hi ho h ⊢ <;>
    split_ifs at h ⊢ <;> simp_all

/-- A token that opens a transaction says whether it is a SETUP transaction. -/
theorem step_of_xactStart {s : State N} {i : Input N} (h : (comb s i).xactStart = true) :
    i.epActive = true ∧ (step s i).outEpCurrent = i.rx.epCurrentD ∧
      (step s i).outEpSetup i.rx.epCurrentD = (i.rx.pid == usbPidSetup) := by
  have hs := idle_of_xactStart h
  have hx := h
  simp only [comb, hs] at hx
  split_ifs at hx with hc
  simp only [Bool.and_eq_true, Bool.or_eq_true] at hc
  obtain ⟨hactive, hout | ⟨hsetup, -⟩⟩ := hc
  · have hpid : i.rx.pid = usbPidOut := by
      simp only [Input.outTokenReceived, Bool.and_eq_true, beq_iff_eq] at hout
      exact hout.2
    have hsetup : i.setupTokenReceived = false := by
      simp [Input.setupTokenReceived, hpid, usbPidOut, usbPidSetup]
    refine ⟨hactive, by simp [step, h], ?_⟩
    simp [step, hactive, hout, hsetup, hpid, usbPidOut, usbPidSetup]
  · have hpid : i.rx.pid = usbPidSetup := by
      simp only [Input.setupTokenReceived, Bool.and_eq_true, beq_iff_eq] at hsetup
      exact hsetup.2
    refine ⟨hactive, by simp [step, h], ?_⟩
    simp [step, hactive, hsetup, hpid]

theorem tokenReceived_of_xactStart {s : State N} {i : Input N} (h : (comb s i).xactStart = true) :
    i.rx.tokenReceived i.devAddr = true := by
  have hs := idle_of_xactStart h
  simp only [comb, hs] at h
  split_ifs at h with hc
  simp only [Input.outTokenReceived, Input.setupTokenReceived, Bool.and_eq_true,
    Bool.or_eq_true] at hc
  obtain ⟨-, hout | hsetup⟩ := hc
  · exact hout.1
  · exact hsetup.1.1

theorem acked_eq_false {s : State N} (i : Input N)
    (h : s.outXactState ≠ .rcvdDataEnd ∧ s.outXactState ≠ .rcvdIsoDataEnd) :
    (comb s i).acked = false := by
  by_contra ha
  rcases (acked_cases (by simpa using ha)).1 with hs | hs
  · exact h.1 hs
  · exact h.2 hs

/-- The end-of-data states last one cycle. -/
theorem stateNext_dataEnd {s : State N} {i : Input N}
    (h : s.outXactState = .rcvdDataEnd ∨ s.outXactState = .rcvdIsoDataEnd) :
    (comb s i).stateNext = .idle := by
  unfold comb
  rcases h with h | h <;> simp only [h] <;> split_ifs <;> rfl

end

end UsbDev.OutPe
