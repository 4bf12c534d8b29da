import UsbDev.Solicited
import UsbDev.Usbdev

/-!
# The interface module

`usbdev_usbif` as a whole: the two halves of the interface core, the receiver
and the transmitter of `usb_fs_nb_pe` and the link state machine. The buffer
FIFOs, the packet RAM, the microsecond tick and all configuration are inputs, so
that a statement about its runs holds for any surroundings; those of `usbdev`
are one case.
-/
namespace UsbDev.Interface

open Clocked

structure State (N : ℕ) where
  link : LinkState.State
  rx : FsRx.State
  tx : FsTx.State
  out : UsbIf.OutState N
  inp : UsbIf.InState N

structure Input (N : ℕ) where
  usbD : Bool
  usbDp : Bool
  usbDn : Bool
  usbSense : Bool
  rxSetup : Fin N → Bool
  rxOut : Fin N → Bool
  rxStall : Fin N → Bool
  avsetupRvalid : Bool
  avsetupRdata : BitVec 5
  avoutRvalid : Bool
  avoutRdata : BitVec 5
  rxWreadySetup : Bool
  rxWreadyOut : Bool
  inBuf : BitVec 5
  inSize : BitVec 7
  inStall : Fin N → Bool
  inRdy : Fin N → Bool
  memRdata : BitVec 32
  usTick : Bool
  connectEn : Bool
  devaddr : BitVec 7
  inEpEnabled : Fin N → Bool
  outEpEnabled : Fin N → Bool
  outEpIso : Fin N → Bool
  inEpIso : Fin N → Bool
  diffRxOk : Bool
  cfgEopSingleBit : Bool
  cfgUseDiffRcvr : Bool
  cfgPinflip : Bool
  txOscTestMode : Bool
  outDatatog : Option ((Fin N → Bool) × (Fin N → Bool))
  inDatatog : Option ((Fin N → Bool) × (Fin N → Bool))
  resumeLinkActive : Bool

section
variable {N : ℕ} [NeZero N]

/-- Register values under `rst_ni`. -/
def State.reset (N : ℕ) [NeZero N] : State N where
  link := .reset
  rx := .reset
  tx := .reset
  out := .reset N
  inp := .reset N

/-! ### Wires -/

/-- `usb_fs_nb_pe`, whose engines have their registers in the interface core. -/
def nb (s : State N) : NbPe.State N where
  rx := s.rx
  tx := s.tx
  inp := s.inp.pe
  out := s.out.pe

def rxInput (s : State N) (i : Input N) : FsRx.Input where
  linkReset := LinkState.linkReset s.link
  cfgEopSingleBit := i.cfgEopSingleBit
  cfgUseDiffRcvr := i.cfgUseDiffRcvr
  cfgPinflip := i.cfgPinflip
  diffRxOk := i.diffRxOk
  usbD := i.usbD
  usbDp := i.usbDp
  usbDn := i.usbDn
  txEn := s.tx.oe

/-- The receiver's outputs to the two engines. -/
def rxSignals (s : State N) (i : Input N) : RxSignals := FsRx.signals s.rx (rxInput s i)

def outInput (s : State N) (i : Input N) : UsbIf.OutInput N where
  linkReset := LinkState.linkReset s.link
  devAddr := i.devaddr
  rx := rxSignals s i
  datatog := i.outDatatog
  rxSetup := i.rxSetup
  rxOut := i.rxOut
  rxStall := i.rxStall
  outEpEnabled := i.outEpEnabled
  outEpIso := i.outEpIso
  avsetupRvalid := i.avsetupRvalid
  avsetupRdata := i.avsetupRdata
  avoutRvalid := i.avoutRvalid
  avoutRdata := i.avoutRdata
  rxWreadySetup := i.rxWreadySetup
  rxWreadyOut := i.rxWreadyOut

def inInput (s : State N) (i : Input N) : UsbIf.InInput N where
  linkReset := LinkState.linkReset s.link
  linkActive := LinkState.linkActive s.link
  devAddr := i.devaddr
  rx := rxSignals s i
  datatog := i.inDatatog
  txPktEnd := NbPe.txPktEnd (nb s)
  txDataGet := FsTx.txDataGet s.tx
  inBuf := i.inBuf
  inSize := i.inSize
  inStall := i.inStall
  inRdy := i.inRdy
  inEpEnabled := i.inEpEnabled
  inEpIso := i.inEpIso
  rxSetup := i.rxSetup
  memRdata := i.memRdata

def nbInput (s : State N) (i : Input N) : NbPe.Input N where
  linkReset := LinkState.linkReset s.link
  linkActive := LinkState.linkActive s.link
  devAddr := i.devaddr
  cfgEopSingleBit := i.cfgEopSingleBit
  cfgUseDiffRcvr := i.cfgUseDiffRcvr
  cfgPinflip := i.cfgPinflip
  txOscTestMode := i.txOscTestMode
  diffRxOk := i.diffRxOk
  usbD := i.usbD
  usbDp := i.usbDp
  usbDn := i.usbDn
  outDatatog := i.outDatatog
  inDatatog := i.inDatatog
  outEpEnabled := i.outEpEnabled
  outEpControl := i.rxSetup
  outEpFull := UsbIf.outEpFull s.out (outInput s i)
  outEpStall := i.rxStall
  outEpIso := i.outEpIso
  inEpEnabled := i.inEpEnabled
  inEpStall := i.inStall
  inEpHasData := i.inRdy
  inEpData := (UsbIf.inPeInput s.inp (inInput s i)).epData
  inEpDataDone := (UsbIf.inPeInput s.inp (inInput s i)).dataDone
  inEpIso := i.inEpIso

def linkInput (s : State N) (i : Input N) : LinkState.Input where
  usTick := i.usTick
  usbSense := i.usbSense
  usbDp := i.usbDp
  usbDn := i.usbDn
  usbOe := s.tx.oe
  usbPullupEn := i.connectEn
  rxIdleDet := s.rx.rxIdleDet
  rxJDet := FsRx.rxJDet s.rx (rxInput s i)
  sofDetected := NbPe.sofDetected (nb s) (nbInput s i)
  resumeLinkActive := i.resumeLinkActive

/-- `mem_write_o`. -/
def memWrite (s : State N) (i : Input N) : Bool := UsbIf.memWrite s.out (outInput s i)

/-- `mem_read`. -/
def memRead (s : State N) : Bool := UsbIf.memRead s.inp

def memReq (s : State N) (i : Input N) : Bool := memRead s || memWrite s i

def memRaddr (s : State N) (i : Input N) : BitVec 9 := UsbIf.memRaddr s.inp (inInput s i)

/-- `mem_addr_o`: a write has priority. -/
def memAddr (s : State N) (i : Input N) : BitVec 9 :=
  if memWrite s i then UsbIf.memWaddr s.out (outInput s i) else memRaddr s i

/-- One clock cycle. -/
def step (s : State N) (i : Input N) : State N where
  link := LinkState.step s.link (linkInput s i)
  rx := FsRx.step s.rx (rxInput s i)
  tx := FsTx.step s.tx (NbPe.txInput (nb s) (nbInput s i))
  out := UsbIf.outStep s.out (outInput s i)
  inp := UsbIf.inStep s.inp (inInput s i)

theorem nb_step (s : State N) (i : Input N) :
    nb (step s i) = NbPe.step (nb s) (nbInput s i) := rfl

variable (inp : ℕ → Input N)

/-- The registers in cycle `t` of a run. -/
def stateAt (t : ℕ) : State N := traj step (State.reset N) inp t

theorem stateAt_succ (t : ℕ) : stateAt inp (t + 1) = step (stateAt inp t) (inp t) := rfl

end

end UsbDev.Interface

namespace UsbDev.Usbdev

open Clocked

variable {N R : ℕ} [NeZero N]

/-- `usbdev_usbif` in the whole device. -/
def interface (s : State N R) : Interface.State N where
  link := s.link
  rx := s.rx
  tx := s.tx
  out := s.dev.out
  inp := s.dev.inp

def interfaceInput (s : State N R) (i : Input N) : Interface.Input N where
  usbD := i.usbD
  usbDp := i.usbDp
  usbDn := i.usbDn
  usbSense := i.usbSense
  rxSetup := i.cfg.rxenableSetup
  rxOut := s.dev.rxenableOut
  rxStall := s.dev.outStall
  avsetupRvalid := s.dev.avsetup.rvalid
  avsetupRdata := s.dev.avsetup.rdata
  avoutRvalid := s.dev.avout.rvalid
  avoutRdata := s.dev.avout.rdata
  rxWreadySetup := s.dev.rxFifo.wready
  rxWreadyOut := Device.rxWreadyOut s.dev
  inBuf := s.dev.inBuf
  inSize := s.dev.inSize
  inStall := s.dev.inStall
  inRdy := fun e => (s.dev.configin e).rdy
  memRdata := s.dev.ram.usbRdata
  usTick := ReceiverWake.usTick s.wake
  connectEn := i.connectEn
  devaddr := i.cfg.devAddr
  inEpEnabled := i.cfg.epInEnable
  outEpEnabled := i.cfg.epOutEnable
  outEpIso := i.cfg.outIso
  inEpIso := i.cfg.inIso
  diffRxOk := ReceiverWake.usbDiffRxOk s.wake
  cfgEopSingleBit := i.cfgEopSingleBit
  cfgUseDiffRcvr := ReceiverWake.usbRxEnableO (wakeInput s i)
  cfgPinflip := i.cfgPinflip
  txOscTestMode := i.txOscTestMode
  outDatatog := i.sw.outDatatog
  inDatatog := i.sw.inDatatog
  resumeLinkActive := i.resumeLinkActive

theorem interface_step (s : State N R) (i : Input N) :
    interface (step s i) = Interface.step (interface s) (interfaceInput s i) := rfl

/-- A run of the whole device is a run of its interface module. -/
theorem interface_traj {dev : Device.State N} (hdev : Fresh dev) (inp : ℕ → Input N) (t : ℕ) :
    interface (traj step (State.reset R dev) inp t) =
      Interface.stateAt
        (fun u => interfaceInput (traj step (State.reset R dev) inp u) (inp u)) t := by
  obtain ⟨avsetup, avout, rx, mem, rdata, rfl⟩ := hdev
  exact traj_part interface interfaceInput interface_step _ inp t

end UsbDev.Usbdev
