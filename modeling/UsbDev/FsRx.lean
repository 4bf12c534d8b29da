import UsbDev.Crc
import UsbDev.Signals

/-!
# The receiver

`usb_fs_rx` with all its registers: line state recovery and clock recovery from
the line samples, packet detection on the history of symbols, NRZI decoding and
bit unstuffing, and the shift registers for the identifier, both CRCs, the token
fields and the data bytes.
-/
namespace UsbDev.FsRx

/-- `DT`, the transition state of the line. -/
def DT : BitVec 3 := 0b100#3
/-- `DJ`, the idle line state. -/
def DJ : BitVec 3 := 0b010#3
/-- `DK`, the inverse of J. -/
def DK : BitVec 3 := 0b001#3
/-- `SE0`, the single-ended zero. -/
def SE0 : BitVec 3 := 0b000#3

structure State where
  lineStateQ : BitVec 3
  lineStateQQ : BitVec 3
  diffStateQ : BitVec 3
  bitPhase : BitVec 2
  inPacket : Bool
  packetValid : Bool
  lineHistory : BitVec 12
  rxIdleDet : Bool
  bitstuffHistory : BitVec 7
  bitstuffError : Bool
  fullPid : BitVec 9
  crc5 : BitVec 5
  crc16 : BitVec 16
  tokenPayload : BitVec 12
  addr : BitVec 7
  endp : BitVec 4
  frameNum : BitVec 11
  rxDataBuffer : BitVec 9
  rxDataLen16 : Bool
  rxDataLen : BitVec 4
  deriving DecidableEq, Repr

structure Input where
  linkReset : Bool
  cfgEopSingleBit : Bool
  cfgUseDiffRcvr : Bool
  cfgPinflip : Bool
  diffRxOk : Bool
  usbD : Bool
  usbDp : Bool
  usbDn : Bool
  txEn : Bool
  deriving DecidableEq, Repr

/-- Register values under `rst_ni`. -/
def State.reset : State where
  lineStateQ := SE0
  lineStateQQ := SE0
  diffStateQ := SE0
  bitPhase := 0
  inPacket := false
  packetValid := false
  lineHistory := 0b101010101010#12
  rxIdleDet := false
  bitstuffHistory := 0
  bitstuffError := false
  fullPid := 0
  crc5 := 0
  crc16 := 0
  tokenPayload := 0
  addr := 0
  endp := 0
  frameNum := 0
  rxDataBuffer := 0
  rxDataLen16 := false
  rxDataLen := 0

/-! ### Line state recovery -/

/-- `proc_dpair_mute`: while transmitting the receiver sees J. -/
def dpair (i : Input) : BitVec 2 :=
  if i.txEn then DJ.extractLsb' 0 2
  else
    BitVec.ofBool (if i.cfgPinflip then i.usbDn else i.usbDp) ++
      BitVec.ofBool (if i.cfgPinflip then i.usbDp else i.usbDn)

def ddiff (i : Input) : BitVec 2 :=
  if i.txEn then DJ.extractLsb' 0 2
  else if i.usbD ^^ i.cfgPinflip then DJ.extractLsb' 0 2
  else DK.extractLsb' 0 2

/-- `proc_line_state_d` and `proc_diff_state_d`: a change of the pair leads to the transition
state, from which the pair is sampled. -/
def lineStateD (q : BitVec 3) (pair : BitVec 2) : BitVec 3 :=
  if q = DT then 0#1 ++ pair
  else if pair ≠ q.extractLsb' 0 2 then DT
  else q

def useSe (s : State) : Bool := s.lineStateQ == SE0 || (s.lineStateQ == DT && s.lineStateQQ == SE0)

def lineStateRx (s : State) (i : Input) : BitVec 3 :=
  if i.cfgUseDiffRcvr then if useSe s then s.lineStateQ else s.diffStateQ else s.lineStateQ

/-! ### Clock recovery -/

def lineStateValid (s : State) : Bool := s.bitPhase == 1

/-- `bit_strobe_o`. -/
def bitStrobe (s : State) : Bool := s.bitPhase == 2

def bitPhaseD (s : State) (i : Input) : BitVec 2 :=
  if lineStateRx s i = DT then 0 else s.bitPhase + 1

/-! ### Packet detection -/

def pidValid (s : State) : Bool := s.fullPid.extractLsb' 1 4 == ~~~s.fullPid.extractLsb' 5 4

def pidComplete (s : State) : Bool := s.fullPid.getLsbD 0

def seePreamble (s : State) : Bool :=
  s.packetValid && pidValid s && pidComplete s && s.fullPid.extractLsb' 1 4 == usbPidPre

def seeEop (s : State) (i : Input) : Bool :=
  (i.cfgEopSingleBit && s.lineHistory.extractLsb' 0 2 == 0b00#2) ||
    s.lineHistory.extractLsb' 0 4 == 0b0000#4 || s.bitstuffError || seePreamble s

/-- `see_sop`, which is `pkt_start_o`. -/
def seeSop (s : State) (i : Input) : Bool :=
  s.lineHistory.extractLsb' 0 4 == 0b1001#4 && !i.txEn && !s.inPacket

def inPacketD (s : State) (i : Input) : Bool :=
  if seeEop s i then false else if seeSop s i then true else s.inPacket

/-- `proc_packet_valid_d`: the packet starts after KJKJKK. -/
def packetValidD (s : State) (i : Input) : Bool :=
  if lineStateValid s then
    if !i.diffRxOk then false
    else if !s.packetValid && s.lineHistory == 0b011001100101#12 then true
    else if s.packetValid && seeEop s i then false
    else s.packetValid
  else s.packetValid

/-- `packet_start`: the identifier begins. -/
def packetStart (s : State) (i : Input) : Bool := packetValidD s i && !s.packetValid

def packetEnd (s : State) (i : Input) : Bool := !packetValidD s i && s.packetValid

def lineHistoryD (s : State) (i : Input) : BitVec 12 :=
  if lineStateValid s then s.lineHistory.extractLsb' 0 10 ++ (lineStateRx s i).extractLsb' 0 2
  else s.lineHistory

def rxIdleDetD (s : State) (i : Input) : Bool :=
  if !i.txEn && lineStateValid s then s.lineStateQ == DJ else s.rxIdleDet

/-! ### NRZI decode and bit unstuffing -/

def din (s : State) : Bool :=
  s.lineHistory.extractLsb' 0 4 == 0b0101#4 || s.lineHistory.extractLsb' 0 4 == 0b1010#4

/-- The last two symbols are J or K. -/
def symbolPair (s : State) : Bool :=
  s.lineHistory.extractLsb' 0 4 == 0b0101#4 || s.lineHistory.extractLsb' 0 4 == 0b0110#4 ||
    s.lineHistory.extractLsb' 0 4 == 0b1001#4 || s.lineHistory.extractLsb' 0 4 == 0b1010#4

def dvalidRaw (s : State) : Bool := s.packetValid && lineStateValid s && symbolPair s

def bitstuffHistoryD (s : State) (i : Input) : BitVec 7 :=
  if packetEnd s i then 0
  else if dvalidRaw s then s.bitstuffHistory.extractLsb' 0 6 ++ BitVec.ofBool (din s)
  else s.bitstuffHistory

/-- `dvalid`: the bit after six ones is dropped. -/
def dvalid (s : State) : Bool := dvalidRaw s && !s.bitstuffHistory.extractLsb' 0 6 == 0b111111#6

/-- `bitstuff_error`: seven consecutive ones. -/
def bitstuffError (s : State) : Bool := s.bitstuffHistory == 0b1111111#7

def bitstuffErrorD (s : State) (i : Input) : Bool :=
  if packetStart s i then false
  else if bitstuffError s && dvalidRaw s then true
  else s.bitstuffError

/-! ### Identifier and CRC -/

def fullPidD (s : State) (i : Input) : BitVec 9 :=
  if dvalid s && !pidComplete s then BitVec.ofBool (din s) ++ s.fullPid.extractLsb' 1 8
  else if packetStart s i then 0b100000000#9
  else s.fullPid

def crc5Poly : BitVec 5 := 0b00101#5

def crc16Poly : BitVec 16 := 0b1000000000000101#16

def crc5Valid (s : State) : Bool := s.crc5 == 0b01100#5

def crc16Valid (s : State) : Bool := s.crc16 == 0b1000000000001101#16

def crc5D (s : State) (i : Input) : BitVec 5 :=
  if dvalid s && pidComplete s then Crc.step crc5Poly s.crc5 (din s)
  else if packetStart s i then 0b11111#5
  else s.crc5

def crc16D (s : State) (i : Input) : BitVec 16 :=
  if dvalid s && pidComplete s then Crc.step crc16Poly s.crc16 (din s)
  else if packetStart s i then 0xffff#16
  else s.crc16

/-! ### Token fields and data bytes -/

def pktIsToken (s : State) : Bool := s.fullPid.extractLsb' 1 2 == 0b01#2

def pktIsData (s : State) : Bool := s.fullPid.extractLsb' 1 2 == 0b11#2

def pktIsHandshake (s : State) : Bool := s.fullPid.extractLsb' 1 2 == 0b10#2

def tokenPayloadDone (s : State) : Bool := s.tokenPayload.getLsbD 0

def tokenPayloadD (s : State) (i : Input) : BitVec 12 :=
  if dvalid s && pidComplete s && pktIsToken s && !tokenPayloadDone s then
    BitVec.ofBool (din s) ++ s.tokenPayload.extractLsb' 1 11
  else if packetStart s i then 0b100000000000#12
  else s.tokenPayload

def addrD (s : State) : BitVec 7 :=
  if tokenPayloadDone s && pktIsToken s then s.tokenPayload.extractLsb' 1 7 else s.addr

def endpD (s : State) : BitVec 4 :=
  if tokenPayloadDone s && pktIsToken s then s.tokenPayload.extractLsb' 8 4 else s.endp

def frameNumD (s : State) : BitVec 11 :=
  if tokenPayloadDone s && pktIsToken s then s.tokenPayload.extractLsb' 1 11 else s.frameNum

/-- `rx_data_buffer_full`, which is `rx_data_put_o`. -/
def rxDataPut (s : State) : Bool := s.rxDataBuffer.getLsbD 0

/-- `rx_data_o`. -/
def rxData (s : State) : BitVec 8 := s.rxDataBuffer.extractLsb' 1 8

def rxDataBufferD (s : State) (i : Input) : BitVec 9 :=
  if dvalid s && pidComplete s && pktIsData s then
    BitVec.ofBool (din s) ++ s.rxDataBuffer.extractLsb' 1 8
  else if packetStart s i || rxDataPut s then 0b100000000#9
  else s.rxDataBuffer

def rxDataLen16D (s : State) (i : Input) : Bool :=
  if dvalid s && pidComplete s then s.rxDataLen16 || s.rxDataLen == 0b1111#4
  else if packetStart s i then false
  else s.rxDataLen16

def rxDataLenD (s : State) (i : Input) : BitVec 4 :=
  if dvalid s && pidComplete s then s.rxDataLen + 1
  else if packetStart s i then 0
  else s.rxDataLen

/-! ### Outputs -/

def validTokenLen (s : State) : Bool := s.rxDataLen16 && s.rxDataLen == 0

/-- The payload is byte-aligned and holds the CRC. -/
def validDataLen (s : State) : Bool := s.rxDataLen16 && s.rxDataLen.extractLsb' 0 3 == 0

def validHandshakeLen (s : State) : Bool := !s.rxDataLen16 && s.rxDataLen == 0

/-- `valid_packet_o`. -/
def validPacket (s : State) : Bool :=
  pidValid s && !s.bitstuffError &&
    ((pktIsHandshake s && validHandshakeLen s) ||
      (pktIsData s && validDataLen s && crc16Valid s) ||
      (pktIsToken s && validTokenLen s && crc5Valid s))

/-- `pid_o`. -/
def pid (s : State) : BitVec 4 := s.fullPid.extractLsb' 1 4

/-- The outputs that the protocol engines read. -/
def signals (s : State) (i : Input) : RxSignals where
  pktStart := seeSop s i
  pktEnd := packetEnd s i
  pktValid := validPacket s
  pid := pid s
  addr := s.addr
  endp := s.endp
  dataPut := rxDataPut s
  data := rxData s

/-- `crc5_error_o`, `crc16_error_o`, `pid_error_o` and `bitstuff_error_o`. -/
def crc5Error (s : State) (i : Input) : Bool := pktIsToken s && packetEnd s i && !crc5Valid s

def crc16Error (s : State) (i : Input) : Bool := pktIsData s && packetEnd s i && !crc16Valid s

def pidError (s : State) (i : Input) : Bool := !pidValid s && packetEnd s i

def bitstuffErrorO (s : State) (i : Input) : Bool := s.bitstuffError && packetEnd s i

/-- `rx_j_det_o`. -/
def rxJDet (s : State) (i : Input) : Bool :=
  i.diffRxOk && !i.txEn && s.lineHistory.extractLsb' 0 2 == 0b10#2

/-- One clock cycle. Three registers keep their value rule under `link_reset_i`. -/
def step (s : State) (i : Input) : State :=
  if i.linkReset then
    { State.reset with
      inPacket := inPacketD s i, rxIdleDet := rxIdleDetD s i
      bitstuffError := bitstuffErrorD s i }
  else
    { lineStateQ := lineStateD s.lineStateQ (dpair i)
      lineStateQQ := s.lineStateQ
      diffStateQ := lineStateD s.diffStateQ (ddiff i)
      bitPhase := bitPhaseD s i
      inPacket := inPacketD s i
      packetValid := packetValidD s i
      lineHistory := lineHistoryD s i
      rxIdleDet := rxIdleDetD s i
      bitstuffHistory := bitstuffHistoryD s i
      bitstuffError := bitstuffErrorD s i
      fullPid := fullPidD s i
      crc5 := crc5D s i
      crc16 := crc16D s i
      tokenPayload := tokenPayloadD s i
      addr := addrD s
      endp := endpD s
      frameNum := frameNumD s
      rxDataBuffer := rxDataBufferD s i
      rxDataLen16 := rxDataLen16D s i
      rxDataLen := rxDataLenD s i }

end UsbDev.FsRx
