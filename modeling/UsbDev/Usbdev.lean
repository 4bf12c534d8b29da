import UsbDev.Device
import UsbDev.LinkState
import UsbDev.ReceiverWake
import UsbDev.Turnaround

/-!
# The whole device

`usbdev` with its line side: the device below the line, the receiver and the
transmitter of `usb_fs_nb_pe`, the link state machine, the microsecond tick and
the wake-up of the differential receiver. The pins, VBUS and the registers that
only software writes are inputs. Each part sees a run of its own, so that what
is proved of a part for all inputs holds of the whole.
-/
namespace UsbDev.Usbdev

open Clocked

structure State (N R : ℕ) where
  wake : ReceiverWake.State R
  link : LinkState.State
  rx : FsRx.State
  tx : FsTx.State
  dev : Device.State N

structure Input (N : ℕ) where
  usbD : Bool
  usbDp : Bool
  usbDn : Bool
  /-- `usb_pwr_sense`. -/
  usbSense : Bool
  /-- `connect_en`, the `enable` field of `usbctrl`. -/
  connectEn : Bool
  resumeLinkActive : Bool
  cfgEopSingleBit : Bool
  cfgPinflip : Bool
  txOscTestMode : Bool
  useDiffRcvr : Bool
  driveEn : Bool
  driveRxEnable : Bool
  cfg : Device.Cfg N
  sw : Device.Sw N

section
variable {N R : ℕ} [NeZero N]

/-- Register values under `rst_ni`, around those of the device below the line. -/
def State.reset (R : ℕ) (dev : Device.State N) : State N R where
  wake := .reset R
  link := .reset
  rx := .reset
  tx := .reset
  dev := dev

/-- The registers below the line are at their reset values; the storage arrays hold anything. -/
def Fresh (dev : Device.State N) : Prop :=
  ∃ avsetup avout rx mem rdata, dev = Device.State.reset avsetup avout rx mem rdata

/-! ### Wires -/

def wakeInput (s : State N R) (i : Input N) : ReceiverWake.Input where
  useDiffRcvr := i.useDiffRcvr
  linkSuspend := LinkState.linkSuspend s.link
  driveEn := i.driveEn
  driveRxEnable := i.driveRxEnable

def rxInput (s : State N R) (i : Input N) : FsRx.Input where
  linkReset := LinkState.linkReset s.link
  cfgEopSingleBit := i.cfgEopSingleBit
  cfgUseDiffRcvr := ReceiverWake.usbRxEnableO (wakeInput s i)
  cfgPinflip := i.cfgPinflip
  diffRxOk := ReceiverWake.usbDiffRxOk s.wake
  usbD := i.usbD
  usbDp := i.usbDp
  usbDn := i.usbDn
  txEn := s.tx.oe

/-- The receiver's outputs to the two engines. -/
def rxSignals (s : State N R) (i : Input N) : RxSignals := FsRx.signals s.rx (rxInput s i)

/-- `usb_fs_nb_pe`, whose engines have their registers in the device below the line. -/
def nb (s : State N R) : NbPe.State N where
  rx := s.rx
  tx := s.tx
  inp := s.dev.inp.pe
  out := s.dev.out.pe

def devInput (s : State N R) (i : Input N) : Device.Input N where
  rx := rxSignals s i
  txPktEnd := NbPe.txPktEnd (nb s)
  txDataGet := FsTx.txDataGet s.tx
  linkReset := LinkState.linkReset s.link
  linkActive := LinkState.linkActive s.link
  cfg := i.cfg
  sw := i.sw

def nbInput (s : State N R) (i : Input N) : NbPe.Input N :=
  let out := Device.outInput s.dev (devInput s i)
  let inp := UsbIf.inPeInput s.dev.inp (Device.inInput s.dev (devInput s i))
  { linkReset := LinkState.linkReset s.link
    linkActive := LinkState.linkActive s.link
    devAddr := i.cfg.devAddr
    cfgEopSingleBit := i.cfgEopSingleBit
    cfgUseDiffRcvr := ReceiverWake.usbRxEnableO (wakeInput s i)
    cfgPinflip := i.cfgPinflip
    txOscTestMode := i.txOscTestMode
    diffRxOk := ReceiverWake.usbDiffRxOk s.wake
    usbD := i.usbD
    usbDp := i.usbDp
    usbDn := i.usbDn
    outDatatog := i.sw.outDatatog
    inDatatog := i.sw.inDatatog
    outEpEnabled := i.cfg.epOutEnable
    outEpControl := i.cfg.rxenableSetup
    outEpFull := UsbIf.outEpFull s.dev.out out
    outEpStall := s.dev.outStall
    outEpIso := i.cfg.outIso
    inEpEnabled := i.cfg.epInEnable
    inEpStall := s.dev.inStall
    inEpHasData := fun e => (s.dev.configin e).rdy
    inEpData := inp.epData
    inEpDataDone := inp.dataDone
    inEpIso := i.cfg.inIso }

def linkInput (s : State N R) (i : Input N) : LinkState.Input where
  usTick := ReceiverWake.usTick s.wake
  usbSense := i.usbSense
  usbDp := i.usbDp
  usbDn := i.usbDn
  usbOe := s.tx.oe
  usbPullupEn := i.connectEn
  rxIdleDet := s.rx.rxIdleDet
  rxJDet := FsRx.rxJDet s.rx (rxInput s i)
  sofDetected := NbPe.sofDetected (nb s) (nbInput s i)
  resumeLinkActive := i.resumeLinkActive

/-- One clock cycle. -/
def step (s : State N R) (i : Input N) : State N R where
  wake := ReceiverWake.step s.wake (wakeInput s i)
  link := LinkState.step s.link (linkInput s i)
  rx := FsRx.step s.rx (rxInput s i)
  tx := FsTx.step s.tx (NbPe.txInput (nb s) (nbInput s i))
  dev := Device.step s.dev (devInput s i)

/-! ### The parts of a run -/

theorem nb_step (s : State N R) (i : Input N) :
    nb (step s i) = NbPe.step (nb s) (nbInput s i) := rfl

variable {inp : ℕ → Input N}

/-- The inputs that the device below the line has in a run. -/
def devInputs (s : State N R) (inp : ℕ → Input N) (t : ℕ) : Device.Input N :=
  devInput (traj step s inp t) (inp t)

theorem dev_traj (s : State N R) (inp : ℕ → Input N) (t : ℕ) :
    (traj step s inp t).dev = traj Device.step s.dev (devInputs s inp) t :=
  traj_part State.dev devInput (fun _ _ => rfl) s inp t

/-- From reset on, with the oscillator test off, no token ends while an engine waits. -/
theorem turnaround {dev : Device.State N} (hin : dev.inp.pe = InPe.State.reset N)
    (hout : dev.out.pe = OutPe.State.reset N) (ho : ∀ t, (inp t).txOscTestMode = false) (t : ℕ) :
    NbPe.Turnaround (nb (traj step (State.reset R dev) inp t)) := by
  refine traj_invariant (fun s : State N R => NbPe.Turnaround (nb s)) ?_ ?_ t
  · have hreset : nb (State.reset R dev) = NbPe.State.reset N := by
      rw [NbPe.State.reset, ← hin, ← hout]
      rfl
    rw [hreset]
    exact NbPe.turnaround_reset
  · intro t h
    rw [nb_step]
    exact h.step (ho t)

theorem Fresh.turnaround {dev : Device.State N} (h : Fresh dev)
    (ho : ∀ t, (inp t).txOscTestMode = false) (t : ℕ) :
    NbPe.Turnaround (nb (traj step (State.reset R dev) inp t)) := by
  obtain ⟨avsetup, avout, rx, mem, rdata, rfl⟩ := h
  exact Usbdev.turnaround rfl rfl ho t

end

/-! ### A host on the line -/

open LineCode

/-- The device below the line after reset, with empty memories. -/
def freshDevice (N : ℕ) [NeZero N] : Device.State N :=
  Device.State.reset (fun _ => 0) (fun _ => 0) (fun _ => ⟨0, false, 0, 0⟩) (fun _ => 0) 0

theorem fresh_freshDevice (N : ℕ) [NeZero N] : Fresh (freshDevice N) := ⟨_, _, _, _, _, rfl⟩

/-- A cycle that shows a symbol to an attached device in the default state, whose endpoints are
enabled control endpoints. Software asks for an active link. -/
def lineInput (N : ℕ) (l : Line) : Input N where
  usbD := l == .j
  usbDp := l == .j
  usbDn := l == .k
  usbSense := true
  connectEn := true
  resumeLinkActive := true
  cfgEopSingleBit := false
  cfgPinflip := false
  txOscTestMode := false
  useDiffRcvr := false
  driveEn := false
  driveRxEnable := false
  cfg :=
    { devAddr := 0
      epInEnable := fun _ => true
      epOutEnable := fun _ => true
      rxenableSetup := fun _ => true
      setNakOut := fun _ => false
      outIso := fun _ => false
      inIso := fun _ => false }
  sw := {}

def lineCycles (N : ℕ) (ls : List Line) : List (Input N) :=
  ls.flatMap fun l => List.replicate 4 (lineInput N l)

/-- A token for endpoint `endp` of address 0 on the line. -/
def tokenLines (pid : BitVec 4) (endp : BitVec 4) : List Line :=
  let word := List.replicate 7 false ++ bitsLsb endp
  NbPe.hostPacket (FsRx.pidBits pid ++ word ++ FsRx.crc5Bits word)

/-- A DATA packet without payload on the line. -/
def emptyDataLines (pid : BitVec 4) : List Line :=
  NbPe.hostPacket (FsRx.pidBits pid ++ List.replicate 16 false)

def ackLines : List Line := NbPe.hostPacket (FsRx.pidBits usbPidAck)

/-- Software arms endpoint 0 with a packet without payload. -/
def armEmpty (N : ℕ) [NeZero N] : Input N :=
  { lineInput N .j with sw := { configin := some (0, ⟨0, 0, false, false, true⟩) } }

end UsbDev.Usbdev
