import UsbDev.TxBits

/-!
# The start and the end of a transmission

The stages of `usb_fs_tx` around the bits of a packet: the idle transmitter, the
wait for the byte strobe that loads SYNC, and the end of packet.
-/
namespace UsbDev.FsTx

open LineCode

/-- The levels of `usb_dp_o` and `usb_dn_o` for a line state; the flipped configuration
exchanges the two wires. -/
def wires (flip : Bool) : Line → Bool × Bool
  | .j => (!flip, flip)
  | .k => (flip, !flip)
  | .se0 => (false, false)

theorem wires_ofLevel (flip level : Bool) :
    wires flip (Line.ofLevel level) = (dpFlipped flip level false, dnFlipped flip level false) := by
  cases flip <;> cases level <;> rfl

/-- The transmitter between two packets: the state after reset and the state in which every
transmission ends. -/
structure Idle (s : State) : Prop where
  state : s.state = .idle
  outState : s.outState = .osIdle
  dataShiftReg : s.dataShiftReg = 0
  oeShiftReg : s.oeShiftReg = 0
  se0ShiftReg : s.se0ShiftReg = 0
  dataPayload : s.dataPayload = false
  txDataGet : s.txDataGet = false
  oe : s.oe = false
  usbSe0 : s.usbSe0 = false

theorem Idle.reset : Idle State.reset := by constructor <;> rfl

/-- The wait of one bit time before SYNC. -/
structure Waiting (pid : BitVec 4) (count : BitVec 3) (byte : Bool) (s : State) : Prop where
  pid : s.pid = pid
  state : s.state = .sync
  outState : s.outState = .osWaitByte
  dataShiftReg : s.dataShiftReg = 0
  oeShiftReg : s.oeShiftReg = 0
  se0ShiftReg : s.se0ShiftReg = 0
  dataPayload : s.dataPayload = false
  txDataGet : s.txDataGet = false
  bitstuffQ : s.bitstuffQ = false
  bitHistory : s.bitHistory = 0
  bitCount : s.bitCount = count
  byteStrobe : s.byteStrobe = byte
  crc16 : s.crc16 = 0xffff#16
  dpEop : s.dpEop = 0b100#3
  oe : s.oe = false
  usbD : s.usbD = true
  usbSe0 : s.usbSe0 = false

/-- The end of packet after `n` of its bit strobes, with the line in state `l`. -/
structure Ending (flip : Bool) (l : Line) (n : ℕ) (s : State) : Prop where
  state : s.state = .idle
  outState : s.outState = .osTransmit
  dataShiftReg : s.dataShiftReg = 0
  oeShiftReg : s.oeShiftReg = 0b00000111#8 >>> n
  se0ShiftReg : s.se0ShiftReg = 0b00000111#8 >>> n
  dataPayload : s.dataPayload = false
  txDataGet : s.txDataGet = false
  dpEop : s.dpEop = 0b100#3 >>> n
  oe : s.oe = true
  usbSe0 : s.usbSe0 = decide (n = 1 ∨ n = 2)
  line : (dpFlipped flip s.usbD s.usbSe0, dnFlipped flip s.usbD s.usbSe0) = wires flip l
  usbDp : s.usbDp = dpFlipped flip s.usbD s.usbSe0
  usbDn : s.usbDn = dnFlipped flip s.usbD s.usbSe0

variable {flip bit : Bool} {s : State} {i : Input} {pid : BitVec 4}

theorem bitstuff_of_dataShiftReg (h : s.dataShiftReg = 0) : bitstuff s = false := by
  simp [bitstuff_eq, serialTxData, h]

theorem Idle.next (h : Idle s) (hi : Busy flip bit i) : Idle (step s i) := by
  have hfsm : byteFsm s i =
      { state := s.state, dataShiftReg := s.dataShiftReg, oeShiftReg := s.oeShiftReg
        se0ShiftReg := s.se0ShiftReg, dataPayload := s.dataPayload, txDataGet := s.txDataGet
        bitHistory := s.bitHistory, bitCount := s.bitCount, testModeStart := false } := by
    simp [byteFsm, h.state, hi.txOscTestMode, hi.pktStart]
  have hstuff := bitstuff_of_dataShiftReg h.dataShiftReg
  cases hs : i.bitStrobe <;> constructor <;>
    simp [step, procFsm, hfsm, hstuff, procDiff, nrziDiff, outNrziEn, outStateD, hi.linkReset,
      hi.pktStart, hs, h.state, h.outState, h.dataShiftReg, h.oeShiftReg, h.se0ShiftReg,
      h.dataPayload, h.txDataGet, h.oe, h.usbSe0]

theorem Idle.pktEnd (h : Idle s) : pktEnd s i = false := by
  simp [FsTx.pktEnd, h.se0ShiftReg]

/-- A request starts the transmission, in whatever cycle of the bit time it comes. -/
theorem Idle.start (h : Idle s) (hl : i.linkReset = false) (ho : i.txOscTestMode = false)
    (hp : i.pktStart = true) : Waiting i.pid 7 false (step s i) := by
  have hstuff := bitstuff_of_dataShiftReg h.dataShiftReg
  constructor <;>
    simp [step, procFsm, byteFsm, byteStrobeD, crc16D, hstuff, procDiff, nrziDiff, outStateD, hl,
      ho, hp, h.state, h.outState, h.dataShiftReg, h.oeShiftReg, h.se0ShiftReg, h.dataPayload,
      h.txDataGet, h.oe, h.usbSe0]

namespace Waiting
variable {count : BitVec 3}

theorem pktEnd {byte : Bool} (h : Waiting pid count byte s) : pktEnd s i = false := by
  simp [FsTx.pktEnd, h.se0ShiftReg]

theorem quiet (h : Waiting pid count false s) (hi : Busy flip false i) :
    Waiting pid count false (step s i) := by
  have hfsm := byteFsm_of_not_byteStrobe hi.txOscTestMode hi.pktStart h.byteStrobe
  have hout : outStateD s i = .osWaitByte := by simp [outStateD, h.outState, h.byteStrobe]
  have hstuff := bitstuff_of_dataShiftReg h.dataShiftReg
  have hstep := step_quiet (s := s) hi
  rw [hfsm, hout, hstuff] at hstep
  rw [hstep]
  exact
    { h with
      outState := rfl
      txDataGet := by simp [h.txDataGet]
      bitstuffQ := rfl
      byteStrobe := rfl
      usbD := by simp [h.usbD] }

theorem strobe (h : Waiting pid count false s) (hi : Busy flip true i) :
    Waiting pid (count + 1) (count == 0) (step s i) := by
  have hfsm := byteFsm_of_not_byteStrobe hi.txOscTestMode hi.pktStart h.byteStrobe
  have hstuff := bitstuff_of_dataShiftReg h.dataShiftReg
  have hhist : (FsTx.bitHistory s).extractLsb' 1 5 = 0 := by
    simp [FsTx.bitHistory, serialTxData, h.dataShiftReg, h.bitHistory]
  constructor <;>
    simp [step, procFsm, hfsm, hstuff, hhist, byteStrobeD, crc16D, procDiff, nrziDiff, outNrziEn,
      outStateD, hi.linkReset, hi.pktStart, hi.bitStrobe, h.pid, h.state, h.outState,
      h.dataShiftReg, h.oeShiftReg, h.se0ShiftReg, h.dataPayload, h.txDataGet, h.bitCount,
      h.byteStrobe, h.crc16, h.dpEop, h.oe, h.usbSe0]

/-- The byte strobe loads SYNC. -/
theorem load (h : Waiting pid 1 true s) (hi : Busy flip false i) :
    Sends flip pid 1 (step s i)
      { state := .pid, dataPayload := false, crc := 0xffff#16, stuffed := false, ones := 0
        raw := [], bits := bitsLsb 0b10000000#8 } := by
  have hfsm : byteFsm s i =
      { state := .pid, dataShiftReg := 0b10000000#8, oeShiftReg := 0xff#8, se0ShiftReg := 0
        dataPayload := false, txDataGet := false, bitHistory := 0, bitCount := 1
        testModeStart := false } := by
    simp [byteFsm, h.state, h.byteStrobe, h.dataPayload, h.txDataGet, h.bitHistory, h.bitCount]
  have hout : outStateD s i = .osTransmit := by simp [outStateD, h.outState, h.byteStrobe]
  have hstep := step_quiet (s := s) hi
  rw [hfsm, hout, h.usbD, h.usbSe0] at hstep
  rw [hstep]
  exact
    { pid := h.pid
      state := rfl
      outState := rfl
      byteStrobe := by simp
      dataShiftReg := Pending.load _
      oeShiftReg := Pending.ones
      se0ShiftReg := rfl
      bitCount := by simp
      bitHistory := show onesSent 0 = 0 by decide
      bitstuff := h.bitstuffQ
      stuffed := by simp
      dataPayload := rfl
      crc16 := h.crc16
      dpEop := h.dpEop
      oe := h.oe
      usbD := rfl
      usbSe0 := rfl
      usbDp := rfl
      usbDn := rfl
      txDataGet := by simp }

end Waiting

/-- After the last byte of a packet the end of packet is loaded. -/
theorem Sends.finish {p : Progress} (h : Sends flip pid 0 s p) (hi : Busy flip false i)
    (hb : p.bits = []) (hr : p.raw ≠ []) (hst : p.state = .eop) (hd : p.dataPayload = false) :
    Ending flip (Line.ofLevel (p.raw.foldl nrziStep true)) 0 (step s i) := by
  have hget : s.txDataGet = false := h.txDataGet_eq_false (by decide)
  have hfsm : byteFsm s i =
      { state := .idle, dataShiftReg := s.dataShiftReg, oeShiftReg := 0b00000111#8
        se0ShiftReg := 0b00000111#8, dataPayload := false, txDataGet := false
        bitHistory := s.bitHistory, bitCount := s.bitCount, testModeStart := false } := by
    simp [byteFsm, h.state, hst, h.byteStrobe, hb, h.dataPayload, hd, hget]
  have hoe : s.oe = true := by
    rw [h.oe]
    simpa using hr
  have hstep := step_quiet (s := s) hi
  rw [hfsm, h.outStateD_eq hi, h.usbD_of_not_oe, h.usbSe0] at hstep
  rw [hstep]
  exact
    { state := rfl
      outState := rfl
      dataShiftReg := (hb ▸ h.dataShiftReg).eq_zero
      oeShiftReg := rfl
      se0ShiftReg := rfl
      dataPayload := rfl
      txDataGet := rfl
      dpEop := h.dpEop
      oe := hoe
      usbSe0 := rfl
      line := by rw [wires_ofLevel, ← h.usbD]
      usbDp := rfl
      usbDn := rfl }

namespace Ending
variable {l : Line} {n : ℕ}

theorem byteFsm_eq (h : Ending flip l n s) (hi : Busy flip bit i) :
    byteFsm s i =
      { state := s.state, dataShiftReg := s.dataShiftReg, oeShiftReg := s.oeShiftReg
        se0ShiftReg := s.se0ShiftReg, dataPayload := s.dataPayload, txDataGet := s.txDataGet
        bitHistory := s.bitHistory, bitCount := s.bitCount, testModeStart := false } := by
  simp [byteFsm, h.state, hi.txOscTestMode, hi.pktStart]

theorem quiet (h : Ending flip l n s) (hi : Busy flip false i) : Ending flip l n (step s i) := by
  have hout : outStateD s i = .osTransmit := by simp [outStateD, h.outState, hi.bitStrobe]
  have hstep := step_quiet (s := s) hi
  rw [h.byteFsm_eq hi, hout, h.oe, Bool.not_true, Bool.or_false] at hstep
  rw [hstep]
  exact { h with outState := rfl, oe := rfl, usbDp := rfl, usbDn := rfl }

/-- Two strobes send SE0, the third one J. -/
theorem strobe (h : Ending flip l n s) (hi : Busy flip true i) (hn : n < 3) :
    Ending flip (if n < 2 then .se0 else .j) (n + 1) (step s i) := by
  have hfsm := h.byteFsm_eq hi
  have hstuff := bitstuff_of_dataShiftReg h.dataShiftReg
  obtain rfl | rfl | rfl : n = 0 ∨ n = 1 ∨ n = 2 := by omega
  all_goals
    constructor <;> cases flip <;>
      simp [step, procFsm, hfsm, hstuff, procDiff, nrziDiff, outNrziEn, outStateD, serialTxOe,
        serialTxSe0, hi.linkReset, hi.pktStart, hi.bitStrobe, hi.cfgPinflip, h.state, h.outState,
        h.dataShiftReg, h.oeShiftReg, h.se0ShiftReg, h.dataPayload, h.txDataGet, h.dpEop,
        dpFlipped, dnFlipped, wires]

/-- The fourth strobe ends the transmission. -/
theorem last (h : Ending flip l 3 s) (hi : Busy flip true i) : Idle (step s i) := by
  have hfsm := h.byteFsm_eq hi
  have hstuff := bitstuff_of_dataShiftReg h.dataShiftReg
  constructor <;>
    simp [step, procFsm, hfsm, hstuff, procDiff, nrziDiff, outNrziEn, outStateD, serialTxOe,
      serialTxSe0, serialTxData, hi.linkReset, hi.pktStart, hi.bitStrobe, h.state, h.outState,
      h.dataShiftReg, h.oeShiftReg, h.se0ShiftReg, h.dataPayload, h.txDataGet, h.usbSe0]

/-- `pkt_end_o` pulses with the strobe that sends J. -/
theorem pktEnd_eq (h : Ending flip l n s) (hi : Busy flip bit i) (hn : n ≤ 3) :
    FsTx.pktEnd s i = (bit && n == 2) := by
  obtain rfl | rfl | rfl | rfl : n = 0 ∨ n = 1 ∨ n = 2 ∨ n = 3 := by omega
  all_goals simp [FsTx.pktEnd, h.se0ShiftReg, hi.bitStrobe]

end Ending

end UsbDev.FsTx
