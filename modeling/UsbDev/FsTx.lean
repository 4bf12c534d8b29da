import UsbDev.Crc

/-!
# The transmitter

`usb_fs_tx` with its registers, its byte state machine and its output state
machine. Three shift registers hold the data, output-enable and SE0 bits of the
current byte; a bit strobe sends their lowest bits, and the byte strobe one
cycle after the last bit loads the next byte. The single-ended outputs `usb_d_o`
and `usb_se0_o` repeat what `usb_dp_o` and `usb_dn_o` say and are left out.
-/
namespace UsbDev.FsTx

/-- `state_e`. -/
inductive ByteState where
  | idle
  | sync
  | pid
  | dataOrCrc160
  | crc161
  | eop
  | oscTest
  deriving DecidableEq, Repr

/-- `out_state_e`. -/
inductive OutState where
  | osIdle
  | osWaitByte
  | osTransmit
  deriving DecidableEq, Repr

structure State where
  pid : BitVec 4
  bitstuffQ : Bool
  bitstuffQ2 : Bool
  bitstuffQ3 : Bool
  bitstuffQ4 : Bool
  state : ByteState
  dataPayload : Bool
  dataShiftReg : BitVec 8
  oeShiftReg : BitVec 8
  se0ShiftReg : BitVec 8
  txDataGet : Bool
  byteStrobe : Bool
  bitHistory : BitVec 5
  bitCount : BitVec 3
  crc16 : BitVec 16
  dpEop : BitVec 3
  outState : OutState
  oe : Bool
  usbD : Bool
  usbSe0 : Bool
  /-- The registered outputs `usb_dp_o` and `usb_dn_o`. -/
  usbDp : Bool
  usbDn : Bool

structure Input where
  linkReset : Bool
  cfgPinflip : Bool
  txOscTestMode : Bool
  bitStrobe : Bool
  pktStart : Bool
  pid : BitVec 4
  txDataAvail : Bool
  txData : BitVec 8

/-- Register values under `rst_ni`. -/
def State.reset : State where
  pid := 0
  bitstuffQ := false
  bitstuffQ2 := false
  bitstuffQ3 := false
  bitstuffQ4 := false
  state := .idle
  dataPayload := false
  dataShiftReg := 0
  oeShiftReg := 0
  se0ShiftReg := 0
  txDataGet := false
  byteStrobe := false
  bitHistory := 0
  bitCount := 0
  crc16 := 0
  dpEop := 0
  outState := .osIdle
  oe := false
  usbD := true
  usbSe0 := false
  usbDp := true
  usbDn := false

def serialTxData (s : State) : Bool := s.dataShiftReg.getLsbD 0

def serialTxOe (s : State) : Bool := s.oeShiftReg.getLsbD 0

def serialTxSe0 (s : State) : Bool := s.se0ShiftReg.getLsbD 0

/-- `bit_history`: the bit to send on top of the last five. -/
def bitHistory (s : State) : BitVec 6 := BitVec.ofBool (serialTxData s) ++ s.bitHistory

/-- `bitstuff`: the bit to send is the sixth one in a row. -/
def bitstuff (s : State) : Bool := bitHistory s == 0b111111#6

/-- `pkt_end_o`. -/
def pktEnd (s : State) (i : Input) : Bool := i.bitStrobe && s.se0ShiftReg.extractLsb' 0 2 == 0b01#2

/-- `tx_data_get_o`. -/
def txDataGet (s : State) : Bool := s.txDataGet

/-- The bits of the register, in reverse order and complemented: the CRC is sent from its
highest bit. -/
def crcByte (x : BitVec 8) : BitVec 8 := ~~~x.reverse

/-- The two CRC bytes carry the complemented CRC, highest bit first. -/
theorem bitsLsb_crcByte (crc : BitVec 16) :
    LineCode.bitsLsb (crcByte (crc.extractLsb' 8 8)) ++
      LineCode.bitsLsb (crcByte (crc.extractLsb' 0 8)) = LineCode.bitsMsb (~~~crc) := by
  conv_rhs => rw [← LineCode.bytes_append crc]
  simp only [crcByte, LineCode.bitsLsb_not, LineCode.bitsMsb_not, LineCode.bitsLsb_reverse,
    LineCode.bitsMsb_append, List.map_append]

/-- The next values that the byte state machine computes. -/
structure Fsm where
  state : ByteState
  dataShiftReg : BitVec 8
  oeShiftReg : BitVec 8
  se0ShiftReg : BitVec 8
  dataPayload : Bool
  txDataGet : Bool
  bitHistory : BitVec 5
  bitCount : BitVec 3
  testModeStart : Bool

/-- The state machine of `proc_fsm`. -/
def byteFsm (s : State) (i : Input) : Fsm :=
  let hold : Fsm :=
    { state := s.state, dataShiftReg := s.dataShiftReg, oeShiftReg := s.oeShiftReg
      se0ShiftReg := s.se0ShiftReg, dataPayload := s.dataPayload, txDataGet := s.txDataGet
      bitHistory := s.bitHistory, bitCount := s.bitCount, testModeStart := false }
  match s.state with
  | .idle =>
      if i.txOscTestMode then { hold with state := .oscTest, testModeStart := true }
      else if i.pktStart then { hold with state := .sync }
      else hold
  | .sync =>
      if s.byteStrobe then
        { hold with state := .pid, dataShiftReg := 0b10000000#8, oeShiftReg := 0xff#8
                    se0ShiftReg := 0 }
      else hold
  | .pid =>
      if s.byteStrobe then
        { hold with state := if s.pid.extractLsb' 0 2 == 0b11#2 then .dataOrCrc160 else .eop
                    dataShiftReg := ~~~s.pid ++ s.pid, oeShiftReg := 0xff#8, se0ShiftReg := 0 }
      else hold
  | .dataOrCrc160 =>
      if s.byteStrobe then
        if i.txDataAvail then
          { hold with dataPayload := true, txDataGet := true, dataShiftReg := i.txData
                      oeShiftReg := 0xff#8, se0ShiftReg := 0 }
        else
          { hold with state := .crc161, dataPayload := false, txDataGet := false
                      dataShiftReg := crcByte (s.crc16.extractLsb' 8 8), oeShiftReg := 0xff#8
                      se0ShiftReg := 0 }
      else { hold with txDataGet := false }
  | .crc161 =>
      if s.byteStrobe then
        { hold with state := .eop, dataShiftReg := crcByte (s.crc16.extractLsb' 0 8)
                    oeShiftReg := 0xff#8, se0ShiftReg := 0 }
      else hold
  | .eop =>
      if s.byteStrobe then
        { hold with state := .idle, oeShiftReg := 0b00000111#8, se0ShiftReg := 0b00000111#8 }
      else hold
  | .oscTest =>
      if !i.txOscTestMode && s.byteStrobe then { hold with oeShiftReg := 0, state := .idle }
      else if s.byteStrobe then
        { hold with dataShiftReg := 0, oeShiftReg := 0xff#8, se0ShiftReg := 0 }
      else hold

/-- `proc_fsm` with the logic closely coupled to the state machine: a bit strobe shifts the
registers, or turns the sixth one into the stuffed zero. -/
def procFsm (s : State) (i : Input) : Fsm :=
  let f := byteFsm s i
  if i.pktStart then { f with bitCount := 7, bitHistory := 0 }
  else if i.bitStrobe then
    if bitstuff s then
      { f with bitHistory := (bitHistory s).extractLsb' 1 5
               dataShiftReg := f.dataShiftReg &&& 0b11111110#8 }
    else
      { f with bitCount := s.bitCount + 1, dataShiftReg := s.dataShiftReg >>> 1
               oeShiftReg := s.oeShiftReg >>> 1, se0ShiftReg := s.se0ShiftReg >>> 1
               bitHistory := (bitHistory s).extractLsb' 1 5 }
  else f

/-- `byte_strobe_d`. -/
def byteStrobeD (s : State) (i : Input) : Bool :=
  i.bitStrobe && !bitstuff s && !i.pktStart && s.bitCount == 0

/-- The polynomial of `proc_crc16`. -/
def crc16Poly : BitVec 16 := 0b1000000000000101#16

/-- `crc16_d`: every payload bit is counted but not the stuffed ones, which follow a cycle of
`bitstuff` four cycles later. -/
def crc16D (s : State) (i : Input) : BitVec 16 :=
  if i.bitStrobe && s.dataPayload && !s.bitstuffQ4 && !i.pktStart then
    Crc.step crc16Poly s.crc16 (serialTxData s)
  else if i.pktStart then 0xffff#16
  else s.crc16

/-- `out_nrzi_en`. -/
def outNrziEn (s : State) : Bool := s.outState == .osTransmit

/-- `out_state_d`. -/
def outStateD (s : State) (i : Input) : OutState :=
  match s.outState with
  | .osIdle =>
      if i.pktStart || (procFsm s i).testModeStart then .osWaitByte else .osIdle
  | .osWaitByte => if s.byteStrobe then .osTransmit else .osWaitByte
  | .osTransmit => if i.bitStrobe && !serialTxOe s then .osIdle else .osTransmit

/-- The next values of the line drivers. -/
structure Diff where
  usbD : Bool
  usbSe0 : Bool
  oe : Bool
  dpEop : BitVec 3

/-- `proc_diff` before the output enable is considered. -/
def nrziDiff (s : State) (i : Input) : Diff :=
  let hold : Diff := { usbD := s.usbD, usbSe0 := s.usbSe0, oe := s.oe, dpEop := s.dpEop }
  if i.pktStart then { hold with usbD := true, dpEop := 0b100#3 }
  else if i.bitStrobe && outNrziEn s then
    if serialTxSe0 s then
      if s.dpEop.getLsbD 0 then
        { oe := serialTxOe s, dpEop := s.dpEop >>> 1, usbD := true, usbSe0 := false }
      else { hold with oe := serialTxOe s, dpEop := s.dpEop >>> 1, usbSe0 := true }
    else if serialTxData s then { hold with oe := serialTxOe s }
    else { hold with oe := serialTxOe s, usbD := !s.usbD }
  else hold

/-- `proc_diff`: without output enable the line is held at J. -/
def procDiff (s : State) (i : Input) : Diff :=
  let d := nrziDiff s i
  if !d.oe then { d with usbD := true } else d

/-- The levels of `usb_dp_o` and `usb_dn_o` for a line level and SE0. -/
def dpFlipped (flip d se0 : Bool) : Bool := (if flip then !d else d) && !se0

def dnFlipped (flip d se0 : Bool) : Bool := (if flip then d else !d) && !se0

/-- One clock cycle. -/
def step (s : State) (i : Input) : State :=
  if i.linkReset then
    { State.reset with usbDp := !i.cfgPinflip, usbDn := i.cfgPinflip }
  else
    let f := procFsm s i
    let d := procDiff s i
    { pid := if i.pktStart then i.pid else s.pid
      bitstuffQ := bitstuff s
      bitstuffQ2 := s.bitstuffQ
      bitstuffQ3 := s.bitstuffQ2
      bitstuffQ4 := s.bitstuffQ3
      state := f.state
      dataPayload := f.dataPayload
      dataShiftReg := f.dataShiftReg
      oeShiftReg := f.oeShiftReg
      se0ShiftReg := f.se0ShiftReg
      txDataGet := f.txDataGet
      byteStrobe := byteStrobeD s i
      bitHistory := f.bitHistory
      bitCount := f.bitCount
      crc16 := crc16D s i
      dpEop := d.dpEop
      outState := outStateD s i
      oe := d.oe
      usbD := d.usbD
      usbSe0 := d.usbSe0
      usbDp := dpFlipped i.cfgPinflip d.usbD d.usbSe0
      usbDn := dnFlipped i.cfgPinflip d.usbD d.usbSe0 }

end UsbDev.FsTx
