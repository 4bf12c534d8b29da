import UsbDev.FsRx
import UsbDev.FsTx
import UsbDev.InPe
import UsbDev.OutPe

/-!
# The protocol engine

`usb_fs_nb_pe`: the receiver, the transmitter and the two protocol engines on
one line. The receiver is muted while the transmitter drives the line, and its
bit strobe clocks the transmitter; `usb_fs_tx_mux` merges the packet starts of
the two engines without an arbiter.
-/
namespace UsbDev.NbPe

/-- A device with a single endpoint. -/
instance neZero_one : NeZero 1 := ⟨one_ne_zero⟩

structure State (N : ℕ) where
  rx : FsRx.State
  tx : FsTx.State
  inp : InPe.State N
  out : OutPe.State N

structure Input (N : ℕ) where
  linkReset : Bool
  linkActive : Bool
  devAddr : BitVec 7
  cfgEopSingleBit : Bool
  cfgUseDiffRcvr : Bool
  cfgPinflip : Bool
  txOscTestMode : Bool
  diffRxOk : Bool
  usbD : Bool
  usbDp : Bool
  usbDn : Bool
  outDatatog : Option ((Fin N → Bool) × (Fin N → Bool))
  inDatatog : Option ((Fin N → Bool) × (Fin N → Bool))
  outEpEnabled : Fin N → Bool
  outEpControl : Fin N → Bool
  outEpFull : Fin N → Bool
  outEpStall : Fin N → Bool
  outEpIso : Fin N → Bool
  inEpEnabled : Fin N → Bool
  inEpStall : Fin N → Bool
  inEpHasData : Fin N → Bool
  inEpData : BitVec 8
  inEpDataDone : Fin N → Bool
  inEpIso : Fin N → Bool

/-- Register values under `rst_ni`. -/
def State.reset (N : ℕ) [NeZero N] : State N where
  rx := FsRx.State.reset
  tx := FsTx.State.reset
  inp := InPe.State.reset N
  out := OutPe.State.reset N

section
variable {N : ℕ} [NeZero N]

/-! ### Wires -/

def rxInput (s : State N) (i : Input N) : FsRx.Input where
  linkReset := i.linkReset
  cfgEopSingleBit := i.cfgEopSingleBit
  cfgUseDiffRcvr := i.cfgUseDiffRcvr
  cfgPinflip := i.cfgPinflip
  diffRxOk := i.diffRxOk
  usbD := i.usbD
  usbDp := i.usbDp
  usbDn := i.usbDn
  txEn := s.tx.oe

/-- The receiver's outputs to the two engines. -/
def rxSignals (s : State N) (i : Input N) : RxSignals := FsRx.signals s.rx (rxInput s i)

/-- `tx_pkt_end`. -/
def txPktEnd (s : State N) : Bool :=
  FsRx.bitStrobe s.rx && s.tx.se0ShiftReg.extractLsb' 0 2 == 0b01#2

def outInput (s : State N) (i : Input N) : OutPe.Input N where
  linkReset := i.linkReset
  devAddr := i.devAddr
  enabled := i.outEpEnabled
  control := i.outEpControl
  full := i.outEpFull
  stall := i.outEpStall
  iso := i.outEpIso
  datatog := i.outDatatog
  rx := rxSignals s i

/-- The inputs of the IN engine; the isochronous setting of control endpoints is off. -/
def inInput (s : State N) (i : Input N) : InPe.Input N where
  linkReset := i.linkReset
  linkActive := i.linkActive
  devAddr := i.devAddr
  enabled := i.inEpEnabled
  stall := i.inEpStall
  epHasData := i.inEpHasData
  epData := i.inEpData
  dataDone := i.inEpDataDone
  iso := fun e => i.inEpIso e && !i.outEpControl e
  datatog := i.inDatatog
  rx := rxSignals s i
  txPktEnd := txPktEnd s
  txDataGet := FsTx.txDataGet s.tx

def outComb (s : State N) (i : Input N) : OutPe.Comb := OutPe.comb s.out (outInput s i)

def inComb (s : State N) (i : Input N) : InPe.Comb := InPe.comb s.inp (inInput s i)

/-- `tx_pkt_start` after the multiplexer. -/
def txPktStart (s : State N) (i : Input N) : Bool :=
  (inComb s i).txPktStart || (outComb s i).txPktStart

/-- `tx_pid` after the multiplexer. -/
def txPid (s : State N) (i : Input N) : BitVec 4 :=
  if (outComb s i).txPktStart then (outComb s i).txPid else (inComb s i).txPid

def txInput (s : State N) (i : Input N) : FsTx.Input where
  linkReset := i.linkReset
  cfgPinflip := i.cfgPinflip
  txOscTestMode := i.txOscTestMode
  bitStrobe := FsRx.bitStrobe s.rx
  pktStart := txPktStart s i
  pid := txPid s i
  txDataAvail := InPe.txDataAvail s.inp (inInput s i)
  txData := s.inp.txData

/-- `sof_detected_o`: a packet with a valid SOF identifier, whatever its CRC. -/
def sofDetected (s : State N) (i : Input N) : Bool :=
  FsRx.packetEnd s.rx (rxInput s i) && FsRx.pidValid s.rx && FsRx.pid s.rx == usbPidSof

/-- One clock cycle. -/
def step (s : State N) (i : Input N) : State N where
  rx := FsRx.step s.rx (rxInput s i)
  tx := FsTx.step s.tx (txInput s i)
  inp := InPe.step s.inp (inInput s i)
  out := OutPe.step s.out (outInput s i)

/-! ### What the engines answer -/

variable {s : State N} {i : Input N}

/-- The IN engine starts a packet exactly in the cycle after a token. -/
theorem in_txPktStart_iff (s : State N) (i : Input N) :
    (inComb s i).txPktStart = true ↔ s.inp.inXactState = .rcvdIn := by
  unfold inComb InPe.comb
  cases s.inp.inXactState <;> dsimp only <;> split_ifs <;> simp

/-- The IN engine is about to answer only after a valid IN token for an enabled endpoint. -/
theorem rcvdIn_step (h : (step s i).inp.inXactState = .rcvdIn) :
    (inInput s i).inTokenReceived = true ∧ (inInput s i).epActive = true ∧
      i.linkReset = false ∧ i.linkActive = true := by
  have hstep : (step s i).inp.inXactState = if i.linkReset || !i.linkActive then .idle
      else (InPe.comb s.inp (inInput s i)).stateNext := rfl
  rw [hstep] at h
  split_ifs at h with hl
  simp only [Bool.or_eq_true, Bool.not_eq_true', not_or, Bool.not_eq_true, Bool.not_eq_false] at hl
  refine ⟨?_, ?_, hl⟩ <;>
  · unfold InPe.comb at h
    cases hs : s.inp.inXactState <;> simp only [hs] at h <;> split_ifs at h <;> simp_all

/-- The OUT engine starts a packet at the end of a DATA packet that it takes for a repetition,
or in the cycle after a DATA packet. -/
theorem out_txPktStart_cases (h : (outComb s i).txPktStart = true) :
    (s.out.outXactState = .rcvdDataStart ∧ (rxSignals s i).dataPacketReceived = true ∧
        (outComb s i).stateNext = .idle) ∨
      (s.out.outXactState = .rcvdDataEnd ∧ (outComb s i).stateNext = .idle) := by
  unfold outComb OutPe.comb at h ⊢
  cases hs : s.out.outXactState <;> simp only [hs] at h ⊢ <;> split_ifs at h ⊢ <;>
    simp_all [OutPe.badDataToggle, outInput]

/-- Only a valid DATA packet leads to the state in which the OUT engine answers. -/
theorem rcvdDataEnd_step (h : (step s i).out.outXactState = .rcvdDataEnd) :
    s.out.outXactState = .rcvdDataStart ∧ (rxSignals s i).dataPacketReceived = true ∧
      i.linkReset = false := by
  have hstep : (step s i).out.outXactState =
      if i.linkReset then .idle else (OutPe.comb s.out (outInput s i)).stateNext := rfl
  rw [hstep] at h
  split_ifs at h with hl
  unfold OutPe.comb at h
  cases hs : s.out.outXactState <;> simp only [hs] at h <;> split_ifs at h
  simp_all [outInput]

end

end UsbDev.NbPe
