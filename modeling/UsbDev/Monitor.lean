import UsbDev.Deserializer
import UsbDev.Driver

/-!
# The bus monitor

`usb20_monitor` of the test bench, a task that waits for clock edges and reads the
pins at some of them. It finds the bits by counting edges from the first K of a packet
and keeps account of stuffed bits on its own.
-/
namespace UsbDev

open LineCode

/-! ### The pins -/

/-- What a clock edge samples of `usb20_if`: the device drives the pins `o` while `dpEnO` is set, the
host the pins `i`. -/
structure Pins where
  dpEnO : Bool
  dpO : Bool
  dnO : Bool
  dpI : Bool
  dnI : Bool
  deriving DecidableEq, Repr

namespace Pins

def dutDriving (p : Pins) : Bool := p.dpEnO

def lineDp (p : Pins) : Bool := if p.dutDriving then p.dpO else p.dpI

def lineDn (p : Pins) : Bool := if p.dutDriving then p.dnO else p.dnI

def lineIsK (p : Pins) : Bool := !p.lineDp && p.lineDn

def lineIsSe0 (p : Pins) : Bool := !p.lineDp && !p.lineDn

/-- The levels of the line. -/
def line (p : Pins) : Bool × Bool := (p.lineDp, p.lineDn)

end Pins

/-! ### Waiting for edges -/

/-- `prev_dp` and `ones_cnt`, what the present edge samples, and what later edges will. A task that
waits for an edge beyond them yields nothing. -/
structure Monitor where
  prevDp : Bool
  onesCnt : ℕ
  pins : Pins
  later : List Pins
  deriving DecidableEq, Repr

/-- The fields of `usb_transaction` that the monitor fills in. -/
structure Collected where
  isBusReset : Bool
  pid : BitVec 4
  addr : BitVec 7
  endp : BitVec 4
  dirIn : Bool
  data : List (BitVec 8)
  frameNum : BitVec 11
  resetUs : ℕ
  fromDevice : Bool
  deriving DecidableEq, Repr

namespace Monitor

/-- `@(posedge clk)`. -/
def posedge (m : Monitor) : Option Monitor :=
  match m.later with
  | [] => none
  | p :: ps => some { m with pins := p, later := ps }

/-- `repeat (n) @(posedge clk)`. -/
def posedges : ℕ → Monitor → Option Monitor
  | 0, m => some m
  | n + 1, m => (posedge m).bind (posedges n)

/-- `while (!p) @(posedge clk)`, from the pins `x` on. -/
def advance (p : Pins → Bool) (x : Pins) : List Pins → Option (Pins × List Pins)
  | [] => if p x then some (x, []) else none
  | y :: ys => if p x then some (x, y :: ys) else advance p y ys

def waitUntil (p : Pins → Bool) (m : Monitor) : Option Monitor :=
  (advance p m.pins m.later).map fun r => { m with pins := r.1, later := r.2 }

def waitForStartOfPacket (m : Monitor) : Option Monitor :=
  (m.posedge.bind (waitUntil fun p => p.lineIsK || p.lineIsSe0)).map fun m =>
    { m with prevDp := true, onesCnt := 0 }

/-! ### Bits and bytes -/

/-- The outputs of `get_next_bit`; at an end of packet the bit is not assigned. -/
structure NextBit where
  outBit : Bool
  eop : Bool
  monitor : Monitor

/-- The second half of a bit time, and the stuffed bit if one follows. -/
def finishBit (m : Monitor) : Option Monitor :=
  (posedges 2 m).bind fun m =>
    if m.onesCnt = 6 then
      (posedges 2 m).bind fun m => posedges 2 { m with prevDp := m.pins.lineDp, onesCnt := 0 }
    else some m

def getNextBit (m : Monitor) : Option NextBit :=
  (posedges 2 m).bind fun m =>
    if m.pins.lineIsSe0 then some ⟨false, true, m⟩
    else
      let b := m.pins.lineDp == m.prevDp
      (finishBit { m with prevDp := m.pins.lineDp, onesCnt := if b then m.onesCnt + 1 else 0 }).map
        fun m => ⟨b, false, m⟩

/-- `for` `i` from `start` on: the next `n` bits are written to `x` from position `start` up. -/
def readBits {w : ℕ} : ℕ → ℕ → BitVec w → Monitor → Option (BitVec w × Monitor)
  | 0, _, x, m => some (x, m)
  | n + 1, start, x, m => (getNextBit m).bind fun r =>
      readBits n (start + 1) (setBit x start r.outBit) r.monitor

theorem later_posedges {n : ℕ} {m m' : Monitor} (h : posedges n m = some m') :
    m'.later.length + n = m.later.length := by
  induction n generalizing m with
  | zero =>
      cases h
      rfl
  | succ n ih =>
      rw [posedges, posedge] at h
      cases hl : m.later with
      | nil => simp [hl] at h
      | cons p ps =>
          rw [hl] at h
          have hrest := ih h
          simp only [List.length_cons] at hrest ⊢
          omega

/-- Each bit takes time. -/
theorem later_getNextBit {m : Monitor} {r : NextBit} (h : getNextBit m = some r) :
    r.monitor.later.length < m.later.length := by
  rw [getNextBit, Option.bind_eq_some_iff] at h
  obtain ⟨m₁, h₁, h⟩ := h
  have hlen₁ := later_posedges h₁
  split at h
  · cases h
    dsimp only
    omega
  · obtain ⟨m₂, h₂, rfl⟩ := Option.map_eq_some_iff.1 h
    rw [finishBit, Option.bind_eq_some_iff] at h₂
    obtain ⟨m₃, h₃, h₂⟩ := h₂
    have hlen₃ := later_posedges h₃
    dsimp only at hlen₃ ⊢
    split at h₂
    · rw [Option.bind_eq_some_iff] at h₂
      obtain ⟨m₄, h₄, h₅⟩ := h₂
      have hlen₄ := later_posedges h₄
      have hlen₅ := later_posedges h₅
      dsimp only at hlen₅
      omega
    · cases h₂
      omega

/-- The loop of a DATA packet: bytes until the end of packet. -/
def readData (m : Monitor) (a : Deserializer.Assembly) : Option (Deserializer.Assembly × Monitor) :=
  match _h : getNextBit m with
  | none => none
  | some r => if r.eop then some (a, r.monitor) else readData r.monitor (a.push r.outBit)
termination_by m.later.length
decreasing_by exact later_getNextBit _h

theorem readData_eq {m : Monitor} {r : NextBit} (h : getNextBit m = some r)
    (a : Deserializer.Assembly) : readData m a =
      if r.eop then some (a, r.monitor) else readData r.monitor (a.push r.outBit) := by
  rw [readData]
  split
  · next h' =>
      rw [h] at h'
      cases h'
  · next r' h' =>
      rw [h] at h'
      cases h'
      rfl

/-! ### Packets -/

def pidIsToken (pid : BitVec 4) : Bool :=
  pid == UsbPid.out.code || pid == UsbPid.in.code || pid == UsbPid.setup.code

def pidIsData (pid : BitVec 4) : Bool := pid == UsbPid.data0.code || pid == UsbPid.data1.code

def pidIsHandshake (pid : BitVec 4) : Bool :=
  pid == UsbPid.ack.code || pid == UsbPid.nak.code || pid == UsbPid.stall.code

/-- A transaction that is being collected, and whether it is `valid` so far. -/
structure Collecting where
  trans : Collected
  valid : Bool
  monitor : Monitor

/-- Step 3 of `collect_packet`: what follows the identifier. -/
def collectPayload (t : Collected) (m : Monitor) : Option Collecting :=
  if pidIsToken t.pid || t.pid == UsbPid.sof.code then
    (readBits 16 0 (0 : BitVec 16) m).map fun r =>
      if t.pid == UsbPid.sof.code then ⟨{ t with frameNum := r.1.extractLsb' 0 11 }, true, r.2⟩
      else ⟨{ t with addr := r.1.extractLsb' 0 7, endp := r.1.extractLsb' 7 4 }, true, r.2⟩
  else if pidIsData t.pid then
    (readData m .empty).map fun r =>
      if r.1.bitCnt != 0 || decide (r.1.bytes.length < 2) then ⟨t, false, r.2⟩
      else ⟨{ t with data := r.1.bytes.take (r.1.bytes.length - 2) }, true, r.2⟩
  else some ⟨t, pidIsHandshake t.pid, m⟩

def collectPacket (t : Collected) (m : Monitor) : Option Collecting :=
  (readBits 8 0 (0 : BitVec 8) m).bind fun sync =>
  (readBits 8 0 (0 : BitVec 8) sync.2).bind fun pid =>
  let valid := sync.1 == 0x80#8 && pid.1.extractLsb' 4 4 == ~~~pid.1.extractLsb' 0 4
  (if valid then collectPayload { t with pid := pid.1.extractLsb' 0 4, isBusReset := false } pid.2
    else some ⟨t, false, pid.2⟩).bind fun c =>
  (waitUntil Pins.lineIsSe0 c.monitor).bind fun m =>
  (waitUntil (fun p => !p.lineIsSe0) m).map fun m => { c with monitor := m }

/-- `RESET_MIN_CYCLES`. -/
def resetMinCycles : ℕ := 5 * 48 / 2

/-- The edges for which the line stays in SE0 are those that the wait skips. -/
def collectBusReset (t : Collected) (m : Monitor) : Option Collecting :=
  (waitUntil (fun p => !p.lineIsSe0) m).map fun m' =>
    let countCycles := m.later.length - m'.later.length
    if resetMinCycles ≤ countCycles then
      ⟨{ t with isBusReset := true, resetUs := countCycles / 48 }, true, m'⟩
    else ⟨t, false, m'⟩

/-- `usb_transaction::new`. -/
def newTrans (fromDevice : Bool) : Collected where
  isBusReset := false
  pid := 0
  addr := 0
  endp := 0
  dirIn := false
  data := []
  frameNum := 0
  resetUs := 0
  fromDevice := fromDevice

/-- `current_dir_in` and `current_endp`. -/
structure Current where
  dirIn : Bool
  endp : BitVec 4
  deriving DecidableEq, Repr

/-- DATA packets and handshakes take direction and endpoint from the token before. -/
def inherit (c : Current) (t : Collected) : Collected × Current :=
  if t.pid == UsbPid.in.code then ({ t with dirIn := true }, ⟨true, t.endp⟩)
  else if t.pid == UsbPid.out.code || t.pid == UsbPid.setup.code then
    ({ t with dirIn := false }, ⟨false, t.endp⟩)
  else ({ t with dirIn := c.dirIn, endp := c.endp }, c)

/-- What one turn of `collect_trans` writes to the analysis port, and what it goes on with. -/
structure Turn where
  written : Option Collected
  current : Current
  monitor : Monitor

/-- One turn of the loop of `collect_trans`. -/
def collectTrans (c : Current) (m : Monitor) : Option Turn :=
  (waitForStartOfPacket m).bind fun m =>
    let t := newTrans m.pins.dutDriving
    if m.pins.lineIsSe0 then
      (collectBusReset t m).map fun r =>
        ⟨if r.valid then some r.trans else none, ⟨false, 0⟩, r.monitor⟩
    else
      (collectPacket t m).map fun r =>
        let next := inherit c r.trans
        ⟨if r.valid then some next.1 else none, next.2, r.monitor⟩

/-- Some turns of the loop, with all that they write. -/
inductive Collects : Current → Monitor → List Collected → Current → Monitor → Prop
  | nil (c : Current) (m : Monitor) : Collects c m [] c m
  | cons {c c' : Current} {m m' : Monitor} {ts : List Collected} {r : Turn} :
      collectTrans c m = some r → Collects r.current r.monitor ts c' m' →
        Collects c m (r.written.toList ++ ts) c' m'

end Monitor

end UsbDev
