import UsbDev.Signals

/-!
# The IN protocol engine

`usb_fs_nb_in_pe` for any number `N` of endpoints and packets of at most 64
bytes. The read data, the packet size and the transmitter's pulses are inputs;
the byte offset, the has-data flag and the current endpoint are registers here.
-/
namespace UsbDev.InPe

/-- `state_in_e`. -/
inductive XactState where
  | idle
  | rcvdIn
  | sendData
  | waitTxEnd
  | waitAckStart
  | waitAck
  deriving DecidableEq, Repr

/-- `AckTimeoutCnt`: 17 bit times of four cycles and the delay of the start of packet. -/
def ackTimeoutCnt : BitVec 7 := 73#7

structure State (N : ℕ) where
  inXactState : XactState
  timeoutCntdown : BitVec 7
  inEpRollback : Bool
  txData : BitVec 8
  inEpGetAddr : BitVec 6
  inEpNewpkt : Bool
  inEpCurrent : Fin N
  hasData : Bool
  dataToggle : Fin N → Bool
  inEpDataGet : Bool

structure Input (N : ℕ) where
  linkReset : Bool
  linkActive : Bool
  devAddr : BitVec 7
  enabled : Fin N → Bool
  stall : Fin N → Bool
  epHasData : Fin N → Bool
  /-- `in_ep_data_i`: the byte at the current offset. -/
  epData : BitVec 8
  /-- `in_ep_data_done_i`. -/
  dataDone : Fin N → Bool
  iso : Fin N → Bool
  /-- `in_datatog_we_i` with status and mask: the software write of the data toggles. -/
  datatog : Option ((Fin N → Bool) × (Fin N → Bool))
  rx : RxSignals
  txPktEnd : Bool
  txDataGet : Bool

/-- Register values under `rst_ni`. -/
def State.reset (N : ℕ) [NeZero N] : State N where
  inXactState := .idle
  timeoutCntdown := ackTimeoutCnt
  inEpRollback := false
  txData := 0
  inEpGetAddr := 0
  inEpNewpkt := false
  inEpCurrent := 0
  hasData := false
  dataToggle := fun _ => false
  inEpDataGet := false

section
variable {N : ℕ} [NeZero N]

def Input.setupTokenReceived (i : Input N) : Bool :=
  i.rx.tokenReceived i.devAddr && i.rx.pid == usbPidSetup

def Input.inTokenReceived (i : Input N) : Bool :=
  i.rx.tokenReceived i.devAddr && i.rx.pid == usbPidIn

def Input.ackReceived (i : Input N) : Bool :=
  i.rx.pktEnd && i.rx.pktValid && i.rx.pid == usbPidAck

/-- `ep_active`: the addressed endpoint is implemented and enabled. -/
def Input.epActive (i : Input N) : Bool := i.enabled i.rx.epCurrentD && i.rx.epInHw N

/-- `more_data_to_send`. -/
def moreDataToSend (s : State N) (i : Input N) : Bool :=
  s.hasData && !i.dataDone s.inEpCurrent

/-- `tx_data_avail_o`. -/
def txDataAvail (s : State N) (i : Input N) : Bool :=
  s.inXactState == .sendData && moreDataToSend s i

/-- `in_starting`: an IN token that opens a transaction. -/
def inStarting (s : State N) (i : Input N) : Bool :=
  (s.inXactState == .idle || s.inXactState == .waitAck) && i.inTokenReceived

/-- `in_xact_starting_o`. -/
def inXactStarting (s : State N) (i : Input N) : Bool := inStarting s i && i.epActive

/-- The outputs of the state machine's combinational block. -/
structure Comb where
  stateNext : XactState
  xactEnd : Bool := false
  txPktStart : Bool := false
  txPid : BitVec 4 := 0
  rollback : Bool := false
  timeoutD : BitVec 7 := ackTimeoutCnt

/-- The identifier of the DATA packet that a toggle asks for. -/
def dataPid (toggle : Bool) : BitVec 4 := if toggle then usbPidData1 else usbPidData0

/-- The transaction state machine. -/
def comb (s : State N) (i : Input N) : Comb :=
  match s.inXactState with
  | .idle =>
      if i.epActive && i.inTokenReceived then { stateNext := .rcvdIn } else { stateNext := .idle }
  | .rcvdIn =>
      if i.iso s.inEpCurrent then
        { stateNext := .sendData, txPktStart := true, txPid := usbPidData0 }
      else if i.stall s.inEpCurrent then
        { stateNext := .idle, txPktStart := true, txPid := usbPidStall }
      else if s.hasData then
        { stateNext := .sendData, txPktStart := true, txPid := dataPid (s.dataToggle s.inEpCurrent) }
      else { stateNext := .idle, txPktStart := true, txPid := usbPidNak }
  | .sendData =>
      if !moreDataToSend s i || (s.inEpGetAddr == 63#6 && i.txDataGet) then
        if i.iso s.inEpCurrent then { stateNext := .idle, xactEnd := s.hasData }
        else if i.txPktEnd then { stateNext := .waitAckStart }
        else { stateNext := .waitTxEnd }
      else { stateNext := .sendData }
  | .waitTxEnd =>
      if i.txPktEnd then { stateNext := .waitAckStart } else { stateNext := .waitTxEnd }
  | .waitAckStart =>
      if i.rx.pktStart then { stateNext := .waitAck, timeoutD := s.timeoutCntdown - 1 }
      else if s.timeoutCntdown == 0 then
        { stateNext := .idle, rollback := true, timeoutD := s.timeoutCntdown - 1 }
      else { stateNext := .waitAckStart, timeoutD := s.timeoutCntdown - 1 }
  | .waitAck =>
      if i.ackReceived then { stateNext := .idle, xactEnd := true }
      else if i.inTokenReceived then
        -- the handshake is missing; the host asks again at once
        { stateNext := if i.epActive then .rcvdIn else .idle, rollback := true }
      else if i.rx.pktEnd then { stateNext := .idle, rollback := true }
      else { stateNext := .waitAck }

/-- `data_toggle_d`: bus events first, then the selective write by software. -/
def dataToggleD (s : State N) (i : Input N) : Fin N → Bool :=
  let busy :=
    if i.setupTokenReceived && i.epActive then
      Function.update s.dataToggle i.rx.epCurrentD true
    else if s.inXactState == .waitAck && i.ackReceived then
      Function.update s.dataToggle s.inEpCurrent (!s.dataToggle s.inEpCurrent)
    else s.dataToggle
  match i.datatog with
  | none => busy
  | some (status, mask) => fun e => (busy e && !mask e) || (status e && mask e)

/-- One clock cycle. -/
def step (s : State N) (i : Input N) : State N where
  inXactState := if i.linkReset || !i.linkActive then .idle else (comb s i).stateNext
  timeoutCntdown := (comb s i).timeoutD
  inEpRollback := if i.linkReset || !i.linkActive then false else (comb s i).rollback
  txData := i.epData
  inEpGetAddr :=
    if s.inXactState == .idle then 0
    else if s.inXactState == .sendData && i.txDataGet then s.inEpGetAddr + 1
    else s.inEpGetAddr
  inEpNewpkt := i.inTokenReceived
  inEpCurrent := if i.inTokenReceived then i.rx.epCurrentD else s.inEpCurrent
  hasData := if i.inTokenReceived then i.epHasData i.rx.epCurrentD else s.hasData
  dataToggle := if i.linkReset then fun _ => false else dataToggleD s i
  inEpDataGet := s.inXactState == .sendData && i.txDataGet

/-! ### What a cycle can do -/

variable {s : State N} {i : Input N}

/-- Data is sent after the start of a DATA packet, and as long as there is more of it. -/
theorem sendData_cases (h : (comb s i).stateNext = .sendData) :
    s.inXactState = .rcvdIn ∧ (comb s i).txPktStart = true ∧
        ((comb s i).txPid = usbPidData0 ∨ (comb s i).txPid = usbPidData1) ∨
      s.inXactState = .sendData ∧ moreDataToSend s i = true := by
  unfold comb at h ⊢
  cases hs : s.inXactState <;> simp only [hs] at h ⊢ <;> split_ifs at h ⊢ <;> simp_all [dataPid]
  cases s.dataToggle s.inEpCurrent <;> simp

/-- The engine waits for the end of its packet until the transmitter reports it. -/
theorem waitTxEnd_cases (h : (comb s i).stateNext = .waitTxEnd) :
    (s.inXactState = .sendData ∨ s.inXactState = .waitTxEnd) ∧ i.txPktEnd = false := by
  unfold comb at h
  cases hs : s.inXactState <;> simp only [hs] at h <;> split_ifs at h <;> simp_all

/-- The timeout starts with the end of the packet. -/
theorem waitAckStart_cases (h : (comb s i).stateNext = .waitAckStart) :
    (s.inXactState = .sendData ∨ s.inXactState = .waitTxEnd) ∧ i.txPktEnd = true ∧
        (comb s i).timeoutD = ackTimeoutCnt ∨
      s.inXactState = .waitAckStart ∧ i.rx.pktStart = false ∧ s.timeoutCntdown ≠ 0 ∧
        (comb s i).timeoutD = s.timeoutCntdown - 1 := by
  unfold comb at h ⊢
  cases hs : s.inXactState <;> simp only [hs] at h ⊢ <;> split_ifs at h ⊢ <;> simp_all

/-- The handshake is awaited from a start of packet on, until a packet ends. -/
theorem waitAck_cases (h : (comb s i).stateNext = .waitAck) :
    s.inXactState = .waitAckStart ∧ i.rx.pktStart = true ∨
      s.inXactState = .waitAck ∧ i.rx.pktEnd = false := by
  unfold comb at h
  cases hs : s.inXactState <;> simp only [hs] at h <;> split_ifs at h <;>
    simp_all [Input.ackReceived]

/-- A transaction ends with the payload of an isochronous packet or with an ACK. -/
theorem xactEnd_cases (h : (comb s i).xactEnd = true) :
    s.inXactState = .sendData ∧ i.iso s.inEpCurrent = true ∨
      s.inXactState = .waitAck ∧ i.ackReceived = true := by
  unfold comb at h
  cases hs : s.inXactState <;> simp only [hs] at h <;> split_ifs at h <;> simp_all

end

end UsbDev.InPe
