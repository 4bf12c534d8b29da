import UsbDev.Crc

/-!
# The host driver

`usb20_driver` of the test bench with its line state and its count of ones, from
a single bit up to `drive_packet`. What it puts on the line is the line code of
the packet.
-/
namespace UsbDev

open LineCode

/-- `usb_pid_e`. -/
inductive UsbPid where
  | out
  | in
  | sof
  | setup
  | data0
  | data1
  | ack
  | nak
  | stall
  | pre
  deriving DecidableEq, Repr

def UsbPid.code : UsbPid → BitVec 4
  | .out => 0b0001#4
  | .in => 0b1001#4
  | .sof => 0b0101#4
  | .setup => 0b1101#4
  | .data0 => 0b0011#4
  | .data1 => 0b1011#4
  | .ack => 0b0010#4
  | .nak => 0b1010#4
  | .stall => 0b1110#4
  | .pre => 0b1100#4

/-- The fields of `usb_transaction` that `drive_packet` sends. -/
structure UsbTransaction where
  pid : UsbPid
  addr : BitVec 7
  endp : BitVec 4
  data : List (BitVec 8)
  frameNum : BitVec 11
  deriving DecidableEq, Repr

namespace UsbTransaction

def isToken (t : UsbTransaction) : Bool := t.pid == .in || t.pid == .out || t.pid == .setup

def isData (t : UsbTransaction) : Bool := t.pid == .data0 || t.pid == .data1

def isSof (t : UsbTransaction) : Bool := t.pid == .sof

end UsbTransaction

/-- `cur_line` and `ones_cnt` of the driver, and the symbols it has put on the line. -/
structure Driver where
  curLine : Line
  onesCnt : ℕ
  sent : List Line
  deriving DecidableEq, Repr

namespace Driver

/-- `drive_line`: the symbol is held for `n` bit times. -/
def driveLine (d : Driver) (st : Line) (n : ℕ) : Driver :=
  { d with sent := d.sent ++ List.replicate n st }

/-- The NRZI transition. -/
def toggle (d : Driver) : Driver := { d with curLine := if d.curLine = .j then .k else .j }

def sendBit (d : Driver) (b : Bool) : Driver :=
  let d := if b then { d with onesCnt := d.onesCnt + 1 } else { d.toggle with onesCnt := 0 }
  let d := d.driveLine d.curLine 1
  if d.onesCnt = 6 then
    let d := d.toggle
    { d.driveLine d.curLine 1 with onesCnt := 0 }
  else d

def sendBits (d : Driver) (bs : List Bool) : Driver := bs.foldl sendBit d

/-- `send_byte`, least significant bit first. -/
def sendByte (d : Driver) (data : BitVec 8) : Driver := d.sendBits (bitsLsb data)

/-- The loop body of `calc_crc5` and `calc_crc16`. -/
def crcBit {w : ℕ} (poly crc : BitVec w) (b : Bool) : BitVec w :=
  (crc <<< 1) ^^^ (BitVec.fill w (b ^^ crc.msb) &&& poly)

def calcCrc5 (data : BitVec 11) : BitVec 5 :=
  ~~~(bitsLsb data).foldl (crcBit 0b00101#5) 0x1F#5

def calcCrc16 (data : List (BitVec 8)) : BitVec 16 :=
  ~~~data.foldl (fun crc byte => (bitsLsb byte).foldl (crcBit 0x8005#16) crc) 0xFFFF#16

def sendSync (d : Driver) : Driver := { d with curLine := .j, onesCnt := 0 }.sendByte 0x80#8

def sendEop (d : Driver) : Driver := { d.driveLine .se0 2 with curLine := .j }.driveLine .j 1

/-- `fields` of a token or SOF packet. -/
def fields (req : UsbTransaction) : BitVec 11 :=
  if req.isSof then req.frameNum else req.endp ++ req.addr

def drivePacket (d : Driver) (req : UsbTransaction) : Driver :=
  let d := d.sendSync
  let d := d.sendByte (~~~req.pid.code ++ req.pid.code)
  let d :=
    if req.isToken || req.isSof then
      (d.sendBits (bitsLsb (fields req))).sendBits (bitsMsb (calcCrc5 (fields req)))
    else if req.isData then
      (req.data.foldl sendByte d).sendBits (bitsMsb (calcCrc16 req.data))
    else d
  d.sendEop

/-! ### The bits of a packet -/

/-- The bits between the identifier and the end of packet. -/
def payloadBits (req : UsbTransaction) : List Bool :=
  if req.isToken || req.isSof then bitsLsb (fields req) ++ bitsMsb (calcCrc5 (fields req))
  else if req.isData then req.data.flatMap bitsLsb ++ bitsMsb (calcCrc16 req.data)
  else []

/-- The bits between SYNC and the end of packet, before stuffing. -/
def bodyBits (req : UsbTransaction) : List Bool :=
  bitsLsb req.pid.code ++ bitsLsb (~~~req.pid.code) ++ payloadBits req

theorem crcBit_eq {w : ℕ} (poly crc : BitVec w) (b : Bool) :
    crcBit poly crc b = Crc.step poly crc b := by
  rw [crcBit, Crc.step]
  cases b ^^ crc.msb with
  | false => simp [BitVec.fill]
  | true => simp [BitVec.fill, BitVec.neg_one_eq_allOnes]

theorem calcCrc5_eq (data : BitVec 11) :
    calcCrc5 data = ~~~Crc.run 0b00101#5 0x1F#5 (bitsLsb data) := by
  rw [calcCrc5, funext₂ (crcBit_eq 0b00101#5)]
  rfl

theorem calcCrc16_eq (data : List (BitVec 8)) :
    calcCrc16 data = ~~~Crc.run 0x8005#16 0xFFFF#16 (data.flatMap bitsLsb) := by
  rw [calcCrc16, funext₂ (crcBit_eq 0x8005#16), Crc.run, List.foldl_flatMap]

/-- The driver has put the line code of `bits` on the line, after `start`. -/
structure Codes (d : Driver) (start : List Line) (bits : List Bool) : Prop where
  sent : d.sent = start ++ (nrzi true (stuff 0 bits)).map Line.ofLevel
  curLine : d.curLine = Line.ofLevel ((stuff 0 bits).foldl nrziStep true)
  onesCnt : d.onesCnt = onesAfter 0 bits

namespace Codes
variable {d : Driver} {start : List Line} {bits : List Bool}

/-- A bit is one symbol, or two when a bit is stuffed after it. -/
theorem sendBit (h : Codes d start bits) (b : Bool) : Codes (d.sendBit b) start (bits ++ [b]) := by
  have hlt := onesAfter_lt (show 0 < 6 by omega) bits
  have hcode : ∀ level : Bool, (if Line.ofLevel level = .j then Line.k else Line.j) =
      Line.ofLevel (!level) := by decide
  have hstuff := stuff_append 0 bits [b]
  have hones := onesAfter_append 0 bits [b]
  have hline := h.curLine
  have hcount := h.onesCnt
  cases b with
  | false =>
      rw [stuff_false, stuff_nil] at hstuff
      constructor
      case sent =>
        simp [Driver.sendBit, driveLine, toggle, hline, hcode, h.sent, hstuff, nrzi_append]
      case curLine => simp [Driver.sendBit, driveLine, toggle, hline, hcode, hstuff]
      case onesCnt =>
        rw [hones]
        rfl
  | true =>
      by_cases h5 : onesAfter 0 bits = 5
      · rw [h5, stuff_true_five, stuff_nil] at hstuff
        rw [h5] at hones
        rw [h5] at hcount
        constructor
        case sent =>
          simp [Driver.sendBit, driveLine, toggle, hline, hcount, hcode, h.sent, hstuff,
            nrzi_append]
        case curLine =>
          simp [Driver.sendBit, driveLine, toggle, hline, hcount, hcode, hstuff]
        case onesCnt =>
          rw [hones]
          simp [Driver.sendBit, driveLine, hcount, onesAfter]
      · rw [stuff_true (by omega), stuff_nil] at hstuff
        have hne : onesAfter 0 bits + 1 ≠ 6 := by omega
        constructor
        case sent =>
          simp [Driver.sendBit, driveLine, hline, hcount, hne, h.sent, hstuff, nrzi_append]
        case curLine => simp [Driver.sendBit, driveLine, hline, hcount, hne, hstuff]
        case onesCnt =>
          rw [hones]
          simp [Driver.sendBit, driveLine, hcount, hne, onesAfter, h5]

theorem sendBits (h : Codes d start bits) (bs : List Bool) :
    Codes (d.sendBits bs) start (bits ++ bs) := by
  induction bs generalizing d bits with
  | nil => simpa [Driver.sendBits] using h
  | cons b bs ih =>
      have hrest := ih (h.sendBit b)
      rw [List.append_assoc] at hrest
      exact hrest

theorem sendByte (h : Codes d start bits) (data : BitVec 8) :
    Codes (d.sendByte data) start (bits ++ bitsLsb data) := h.sendBits _

theorem sendSync (d : Driver) : Codes d.sendSync d.sent (bitsLsb 0x80#8) :=
  have hstart : Codes { d with curLine := .j, onesCnt := 0 } d.sent [] := ⟨by simp, rfl, rfl⟩
  hstart.sendByte 0x80#8

theorem sendBytes (h : Codes d start bits) (data : List (BitVec 8)) :
    Codes (data.foldl Driver.sendByte d) start (bits ++ data.flatMap bitsLsb) := by
  induction data generalizing d bits with
  | nil => simpa using h
  | cons byte data ih =>
      have hrest := ih (h.sendByte byte)
      rw [List.append_assoc] at hrest
      exact hrest

end Codes

/-- `drive_packet` puts the line code of SYNC and the packet on the line. -/
theorem drivePacket_sent (d : Driver) (req : UsbTransaction) :
    (d.drivePacket req).sent = d.sent ++ packetLines (bitsLsb 0x80#8 ++ bodyBits req) := by
  have hpid := (Codes.sendSync d).sendByte (~~~req.pid.code ++ req.pid.code)
  rw [bitsLsb_append] at hpid
  have heop : ∀ (d' : Driver) (bits : List Bool), Codes d' d.sent bits →
      d'.sendEop.sent = d.sent ++ packetLines bits := by
    intro d' bits h
    simp [sendEop, driveLine, h.sent, packetLines]
  refine heop _ _ ?_
  rw [bodyBits, payloadBits, ← List.append_assoc]
  split_ifs
  · have hfields := (hpid.sendBits (bitsLsb (fields req))).sendBits
      (bitsMsb (calcCrc5 (fields req)))
    rw [List.append_assoc] at hfields
    exact hfields
  · have hdata := (hpid.sendBytes req.data).sendBits (bitsMsb (calcCrc16 req.data))
    rw [List.append_assoc] at hdata
    exact hdata
  · rw [List.append_nil]
    exact hpid

end Driver

end UsbDev
