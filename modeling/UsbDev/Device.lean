import UsbDev.Clocked
import UsbDev.SyncFifo
import UsbDev.UsbIf

/-!
# The device below the line

`usbdev` around the interface core: the two available buffer FIFOs, the received
buffer FIFO, the packet RAM and the registers that hardware and software both
write. The receiver, the transmitter and the link state machine are inputs of
each cycle, and so are the registers that only software writes; every statement
about a run therefore covers all their behaviours.
-/
namespace UsbDev

/-- `prim_subreg_arb` with `SwAccessRW`: software wins over hardware. -/
def subregRW {α : Type*} (we : Bool) (wd : α) (de : Bool) (d q : α) : α :=
  if we then wd else if de then d else q

/-- `prim_subreg_arb` with `SwAccessW1C`: a one written by software clears the bit. -/
def subregW1C (we wd de d q : Bool) : Bool := (if de then d else q) && (if we then !wd else true)

namespace Device

open UsbIf

/-- One `configin` register. -/
structure ConfigIn where
  buffer : BitVec 5
  size : BitVec 7
  sending : Bool
  pend : Bool
  rdy : Bool
  deriving DecidableEq, Repr

/-- Registers that only software writes. -/
structure Cfg (N : ℕ) where
  devAddr : BitVec 7
  epInEnable : Fin N → Bool
  epOutEnable : Fin N → Bool
  rxenableSetup : Fin N → Bool
  setNakOut : Fin N → Bool
  outIso : Fin N → Bool
  inIso : Fin N → Bool

/-- The register accesses of software in one cycle, and its RAM request. -/
structure Sw (N : ℕ) where
  avsetupbuffer : Option (BitVec 5) := none
  avoutbuffer : Option (BitVec 5) := none
  avsetupRst : Bool := false
  avoutRst : Bool := false
  rxRst : Bool := false
  rxfifoRe : Bool := false
  configin : Option (Fin N × ConfigIn) := none
  inSent : Option (Fin N → Bool) := none
  inStall : Option (Fin N → Bool) := none
  outStall : Option (Fin N → Bool) := none
  /-- The `out` and `preserve` fields of a write to `rxenable_out`. -/
  rxenableOut : Option ((Fin N → Bool) × (Fin N → Bool)) := none
  outDatatog : Option ((Fin N → Bool) × (Fin N → Bool)) := none
  inDatatog : Option ((Fin N → Bool) × (Fin N → Bool)) := none
  mem : Option PacketRam.Req := none

structure Input (N : ℕ) where
  rx : RxSignals
  txPktEnd : Bool
  txDataGet : Bool
  linkReset : Bool
  linkActive : Bool
  cfg : Cfg N
  sw : Sw N

structure State (N : ℕ) where
  out : OutState N
  inp : InState N
  avsetup : SyncFifo.State (BitVec 5) 4
  avout : SyncFifo.State (BitVec 5) 8
  rxFifo : SyncFifo.State (RxEntry N) 8
  ram : PacketRam.State
  configin : Fin N → ConfigIn
  inBuf : BitVec 5
  inSize : BitVec 7
  inSent : Fin N → Bool
  inStall : Fin N → Bool
  outStall : Fin N → Bool
  rxenableOut : Fin N → Bool
  linkResetQ : Bool

section
variable {N : ℕ} [NeZero N]

/-- Register values under `rst_ni`; the storage arrays hold anything. -/
def State.reset (avsetup : Fin 4 → BitVec 5) (avout : Fin 8 → BitVec 5)
    (rx : Fin 8 → RxEntry N) (mem : BitVec 9 → BitVec 32) (rdata : BitVec 32) : State N where
  out := OutState.reset N
  inp := InState.reset N
  avsetup := .reset avsetup
  avout := .reset avout
  rxFifo := .reset rx
  ram := .reset mem rdata
  configin := fun _ => ⟨0, 0, false, false, false⟩
  inBuf := 0
  inSize := 0
  inSent := fun _ => false
  inStall := fun _ => false
  outStall := fun _ => false
  rxenableOut := fun _ => false
  linkResetQ := false

/-! ### Wires -/

/-- `rx_wready_out`: regular OUT packets may not use the final entry. -/
def rxWreadyOut (s : State N) : Bool := s.rxFifo.wready && decide (s.rxFifo.depth < 7)

def outInput (s : State N) (i : Input N) : OutInput N where
  linkReset := i.linkReset
  devAddr := i.cfg.devAddr
  rx := i.rx
  datatog := i.sw.outDatatog
  rxSetup := i.cfg.rxenableSetup
  rxOut := s.rxenableOut
  rxStall := s.outStall
  outEpEnabled := i.cfg.epOutEnable
  outEpIso := i.cfg.outIso
  avsetupRvalid := s.avsetup.rvalid
  avsetupRdata := s.avsetup.rdata
  avoutRvalid := s.avout.rvalid
  avoutRdata := s.avout.rdata
  rxWreadySetup := s.rxFifo.wready
  rxWreadyOut := rxWreadyOut s

def inInput (s : State N) (i : Input N) : InInput N where
  linkReset := i.linkReset
  linkActive := i.linkActive
  devAddr := i.cfg.devAddr
  rx := i.rx
  datatog := i.sw.inDatatog
  txPktEnd := i.txPktEnd
  txDataGet := i.txDataGet
  inBuf := s.inBuf
  inSize := s.inSize
  inStall := s.inStall
  inRdy := fun e => (s.configin e).rdy
  inEpEnabled := i.cfg.epInEnable
  inEpIso := i.cfg.inIso
  rxSetup := i.cfg.rxenableSetup
  memRdata := s.ram.usbRdata

def rxWvalid (s : State N) (i : Input N) : Bool := UsbIf.rxWvalid s.out (outInput s i)

def rxWdata (s : State N) (i : Input N) : RxEntry N := UsbIf.rxWdata s.out (outInput s i)

/-- The USB side's request to the packet RAM; a write takes the address bus. -/
def usbReq (s : State N) (i : Input N) : Option PacketRam.Req :=
  if memWrite s.out (outInput s i) then some ⟨true, memWaddr s.out (outInput s i), s.out.wdata⟩
  else if memRead s.inp then some ⟨false, memRaddr s.inp (inInput s i), s.out.wdata⟩
  else none

/-- `tx_pkt_start` and `tx_pid` of the OUT engine, when it answers. -/
def outTx (s : State N) (i : Input N) : Option (BitVec 4) :=
  let c := outComb s.out (outInput s i)
  if c.txPktStart then some c.txPid else none

/-- `tx_pkt_start` and `tx_pid` of the IN engine, when it answers. -/
def inTx (s : State N) (i : Input N) : Option (BitVec 4) :=
  let c := inComb s.inp (inInput s i)
  if c.txPktStart then some c.txPid else none

def txDataAvail (s : State N) (i : Input N) : Bool :=
  InPe.txDataAvail s.inp.pe (inPeInput s.inp (inInput s i))

def inXactStarting (s : State N) (i : Input N) : Bool :=
  InPe.inXactStarting s.inp.pe (inPeInput s.inp (inInput s i))

def inEpXactEnd (s : State N) (i : Input N) : Bool := (inComb s.inp (inInput s i)).xactEnd

def setupReceived (s : State N) (i : Input N) : Bool := UsbIf.setupReceived s.out (outInput s i)

/-- `event_link_reset`: the rising edge of the link reset. -/
def eventLinkReset (s : State N) (i : Input N) : Bool := i.linkReset && !s.linkResetQ

def setSentbit (s : State N) (i : Input N) (e : Fin N) : Bool :=
  inEpXactEnd s i && e == s.inp.pe.inEpCurrent

def updatePend (s : State N) (i : Input N) (e : Fin N) : Bool :=
  eventLinkReset s i || (setupReceived s i && e == s.out.pe.outEpCurrent)

def clearRdybit (s : State N) (i : Input N) (e : Fin N) : Bool :=
  if eventLinkReset s i then true
  else if setupReceived s i then e == s.out.pe.outEpCurrent
  else inEpXactEnd s i && e == s.inp.pe.inEpCurrent

def setSending (s : State N) (i : Input N) (e : Fin N) : Bool :=
  inXactStarting s i && e == i.rx.epCurrentD

def clearRxenableOut (s : State N) (i : Input N) (e : Fin N) : Bool :=
  rxWvalid s i && e == s.out.pe.outEpCurrent && i.cfg.setNakOut e

/-- The software write that hits `configin[e]`, if any. -/
def configinWd (i : Input N) (e : Fin N) : Option ConfigIn :=
  match i.sw.configin with
  | some (e', wd) => if e = e' then some wd else none
  | none => none

def configinD (s : State N) (i : Input N) (e : Fin N) : ConfigIn :=
  let q := s.configin e
  let wd := (configinWd i e).getD q
  let we := (configinWd i e).isSome
  { buffer := subregRW we wd.buffer false 0 q.buffer
    size := subregRW we wd.size false 0 q.size
    sending := subregW1C we wd.sending
      (setSending s i e || setSentbit s i e || updatePend s i e)
      (!setSentbit s i e && !updatePend s i e) q.sending
    pend := subregW1C we wd.pend (updatePend s i e) (q.rdy || q.pend) q.pend
    rdy := subregRW we wd.rdy (clearRdybit s i e) false q.rdy }

def avsetupIn (s : State N) (i : Input N) : SyncFifo.Input (BitVec 5) where
  clr := i.sw.avsetupRst
  wvalid := i.sw.avsetupbuffer.isSome
  wdata := i.sw.avsetupbuffer.getD 0
  rready := s.out.avsetupRready

def avoutIn (s : State N) (i : Input N) : SyncFifo.Input (BitVec 5) where
  clr := i.sw.avoutRst
  wvalid := i.sw.avoutbuffer.isSome
  wdata := i.sw.avoutbuffer.getD 0
  rready := s.out.avoutRready

def rxFifoIn (s : State N) (i : Input N) : SyncFifo.Input (RxEntry N) where
  clr := i.sw.rxRst
  wvalid := rxWvalid s i
  wdata := rxWdata s i
  rready := i.sw.rxfifoRe

/-- One clock cycle. -/
def step (s : State N) (i : Input N) : State N where
  out := outStep s.out (outInput s i)
  inp := inStep s.inp (inInput s i)
  avsetup := s.avsetup.step (avsetupIn s i)
  avout := s.avout.step (avoutIn s i)
  rxFifo := s.rxFifo.step (rxFifoIn s i)
  ram := PacketRam.step s.ram (usbReq s i) i.sw.mem
  configin := configinD s i
  inBuf := if inXactStarting s i then (s.configin i.rx.epCurrentD).buffer else s.inBuf
  inSize := if inXactStarting s i then (s.configin i.rx.epCurrentD).size else s.inSize
  inSent := fun e =>
    subregW1C i.sw.inSent.isSome ((i.sw.inSent.getD fun _ => false) e) (setSentbit s i e) true
      (s.inSent e)
  inStall := fun e =>
    subregRW i.sw.inStall.isSome ((i.sw.inStall.getD fun _ => false) e)
      (setupReceived s i && e == s.out.pe.outEpCurrent) false (s.inStall e)
  outStall := fun e =>
    subregRW i.sw.outStall.isSome ((i.sw.outStall.getD fun _ => false) e)
      (setupReceived s i && e == s.out.pe.outEpCurrent) false (s.outStall e)
  rxenableOut := fun e =>
    match i.sw.rxenableOut with
    | some (out, preserve) =>
        if !preserve e then out e else if clearRxenableOut s i e then false else s.rxenableOut e
    | none => if clearRxenableOut s i e then false else s.rxenableOut e
  linkResetQ := i.linkReset

end

end Device

end UsbDev
