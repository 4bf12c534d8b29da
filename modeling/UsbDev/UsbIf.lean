import UsbDev.OutPe
import UsbDev.InPe
import UsbDev.PacketRam

/-!
# The device interface core

The part of `usbdev_usbif` between the protocol engines, the buffer FIFOs and
the packet RAM. The OUT half counts and assembles the received bytes, names the
buffer and posts the packet; the IN half requests the words of the packet and
selects the byte to send. `NBuf` is 32 and `MaxPktSizeByte` is 64.
-/
namespace UsbDev.UsbIf

/-- `rx_wdata_o`: one entry of the received buffer FIFO. -/
structure RxEntry (N : ℕ) where
  ep : Fin N
  setup : Bool
  size : BitVec 7
  buffer : BitVec 5
  deriving DecidableEq, Repr

/-! ### OUT or SETUP direction -/

structure OutState (N : ℕ) where
  pe : OutPe.State N
  outMaxUsed : BitVec 7
  wdata : BitVec 32
  stdWrite : Bool
  avsetupRready : Bool
  avoutRready : Bool

structure OutInput (N : ℕ) where
  linkReset : Bool
  devAddr : BitVec 7
  rx : RxSignals
  datatog : Option ((Fin N → Bool) × (Fin N → Bool))
  rxSetup : Fin N → Bool
  rxOut : Fin N → Bool
  rxStall : Fin N → Bool
  outEpEnabled : Fin N → Bool
  outEpIso : Fin N → Bool
  avsetupRvalid : Bool
  avsetupRdata : BitVec 5
  avoutRvalid : Bool
  avoutRdata : BitVec 5
  rxWreadySetup : Bool
  rxWreadyOut : Bool

def OutState.reset (N : ℕ) [NeZero N] : OutState N where
  pe := OutPe.State.reset N
  outMaxUsed := 0
  wdata := 0
  stdWrite := false
  avsetupRready := false
  avoutRready := false

section out
variable {N : ℕ} [NeZero N]

/-- `current_setup`: the packet being received is a SETUP DATA packet. -/
def currentSetup (s : OutState N) : Bool := s.pe.outEpSetup s.pe.outEpCurrent

def avRvalid (s : OutState N) (i : OutInput N) : Bool :=
  if currentSetup s then i.avsetupRvalid else i.avoutRvalid

def avRdata (s : OutState N) (i : OutInput N) : BitVec 5 :=
  if currentSetup s then i.avsetupRdata else i.avoutRdata

/-- Only SETUP packets may fill the received buffer FIFO completely. -/
def rxWready (s : OutState N) (i : OutInput N) : Bool :=
  if currentSetup s then i.rxWreadySetup else i.rxWreadyOut

def allOutBlocked (s : OutState N) (i : OutInput N) : Bool := !rxWready s i || !avRvalid s i

/-- `out_ep_full`: blocked by software, or no transaction can be taken at all. -/
def outEpFull (s : OutState N) (i : OutInput N) (e : Fin N) : Bool :=
  allOutBlocked s i || (!s.pe.outEpSetup e && !i.rxOut e)

def outPeInput (s : OutState N) (i : OutInput N) : OutPe.Input N where
  linkReset := i.linkReset
  devAddr := i.devAddr
  enabled := i.outEpEnabled
  control := i.rxSetup
  full := outEpFull s i
  stall := i.rxStall
  iso := i.outEpIso
  datatog := i.datatog
  rx := i.rx

def outComb (s : OutState N) (i : OutInput N) : OutPe.Comb := OutPe.comb s.pe (outPeInput s i)

/-- `out_ep_acked`, which is also `rx_wvalid_o`. -/
def rxWvalid (s : OutState N) (i : OutInput N) : Bool := (outComb s i).acked

def outMaxUsedD (s : OutState N) (i : OutInput N) : BitVec 7 :=
  if (outComb s i).acked || (outComb s i).rollback then 0
  else if s.pe.outEpDataPut then
    -- after all ones two more steps cover the CRC bytes, then the count sticks
    if s.outMaxUsed.toNat < 63 then s.pe.outEpPutAddr.setWidth 7
    else if s.outMaxUsed.toNat < 65 then s.outMaxUsed + 1
    else s.outMaxUsed
  else s.outMaxUsed

def stdWriteD (s : OutState N) : Bool :=
  s.pe.outEpDataPut && (decide (s.outMaxUsed.toNat < 63) && s.pe.outEpPutAddr.extractLsb' 0 2 == 3#2)

def wdataD (s : OutState N) : BitVec 32 :=
  setLane s.wdata (s.pe.outEpPutAddr.extractLsb' 0 2) s.pe.outEpData

/-- `mem_write_o`: a full word, or the last partial word when the packet is accepted. -/
def memWrite (s : OutState N) (i : OutInput N) : Bool :=
  avRvalid s i && (s.stdWrite ||
    (!s.outMaxUsed.getLsbD 6 && s.outMaxUsed.extractLsb' 0 2 != 3#2 && (outComb s i).acked))

def memWaddr (s : OutState N) (i : OutInput N) : BitVec 9 :=
  avRdata s i ++ s.outMaxUsed.extractLsb' 2 4

def rxWdata (s : OutState N) (i : OutInput N) : RxEntry N where
  ep := s.pe.outEpCurrent
  setup := currentSetup s
  size := s.outMaxUsed - 1
  buffer := avRdata s i

def setupReceived (s : OutState N) (i : OutInput N) : Bool := currentSetup s && rxWvalid s i

def outStep (s : OutState N) (i : OutInput N) : OutState N where
  pe := OutPe.step s.pe (outPeInput s i)
  outMaxUsed := if i.linkReset then 0 else outMaxUsedD s i
  wdata := if i.linkReset then s.wdata else if s.pe.outEpDataPut then wdataD s else s.wdata
  stdWrite := if i.linkReset then false else stdWriteD s
  avsetupRready := rxWvalid s i && currentSetup s
  avoutRready := rxWvalid s i && !currentSetup s

end out

/-! ### IN direction -/

structure InState (N : ℕ) where
  pe : InPe.State N
  pktStartRd : Bool

structure InInput (N : ℕ) where
  linkReset : Bool
  linkActive : Bool
  devAddr : BitVec 7
  rx : RxSignals
  datatog : Option ((Fin N → Bool) × (Fin N → Bool))
  txPktEnd : Bool
  txDataGet : Bool
  inBuf : BitVec 5
  inSize : BitVec 7
  inStall : Fin N → Bool
  inRdy : Fin N → Bool
  inEpEnabled : Fin N → Bool
  inEpIso : Fin N → Bool
  /-- `rx_setup_i`, which turns the isochronous setting of control endpoints off. -/
  rxSetup : Fin N → Bool
  memRdata : BitVec 32

def InState.reset (N : ℕ) [NeZero N] : InState N where
  pe := InPe.State.reset N
  pktStartRd := false

section inp
variable {N : ℕ} [NeZero N]

/-- `in_data_done`: the offset has reached the captured size. -/
def inDataDone (s : InState N) (i : InInput N) : Bool := s.pe.inEpGetAddr.setWidth 7 == i.inSize

def inPeInput (s : InState N) (i : InInput N) : InPe.Input N where
  linkReset := i.linkReset
  linkActive := i.linkActive
  devAddr := i.devAddr
  enabled := i.inEpEnabled
  stall := i.inStall
  epHasData := i.inRdy
  epData := lane i.memRdata (s.pe.inEpGetAddr.extractLsb' 0 2)
  dataDone := fun e => e == s.pe.inEpCurrent && inDataDone s i
  iso := fun e => i.inEpIso e && !i.rxSetup e
  datatog := i.datatog
  rx := i.rx
  txPktEnd := i.txPktEnd
  txDataGet := i.txDataGet

def inComb (s : InState N) (i : InInput N) : InPe.Comb := InPe.comb s.pe (inPeInput s i)

/-- `mem_read`: the first word after a token, then a word at every fourth byte. -/
def memRead (s : InState N) : Bool :=
  s.pktStartRd || (s.pe.inEpDataGet && s.pe.inEpGetAddr.extractLsb' 0 2 == 0#2)

def memRaddr (s : InState N) (i : InInput N) : BitVec 9 :=
  bufferAddr i.inBuf s.pe.inEpGetAddr

def inStep (s : InState N) (i : InInput N) : InState N where
  pe := InPe.step s.pe (inPeInput s i)
  pktStartRd := s.pe.inEpNewpkt

end inp

end UsbDev.UsbIf
