import UsbDev.Clocked
import UsbDev.Deserializer
import UsbDev.FsRx

/-!
# The receiver within a packet

From the start of a packet to its end every register behind the NRZI decoder is
a function of the bits decoded so far, for any waveform on the line: the stuffed
bits are dropped, the first eight others are the identifier, the rest goes
through both CRC registers, the length counter and the token register.
-/
namespace UsbDev.FsRx

open LineCode Clocked Deserializer

/-- The bit that the NRZI decoder delivers in this cycle. -/
def decodedBit (s : State) : Option Bool := if dvalidRaw s then some (din s) else none

/-! ### Ones in a row -/

/-- The ones received last, as far as the history register shows them. -/
def onesReceived (h : BitVec 7) : ℕ := ((bitsLsb h).takeWhile id).length

theorem onesReceived_zero : onesReceived 0#7 = 0 := by decide

theorem onesReceived_push : ∀ (h : BitVec 7) (b : Bool),
    onesReceived (h.extractLsb' 0 6 ++ BitVec.ofBool b) =
      if b then min 7 (onesReceived h + 1) else 0 := by decide +kernel

theorem six_ones : ∀ h : BitVec 7,
    (h.extractLsb' 0 6 == 0b111111#6) = decide (6 ≤ onesReceived h) := by decide +kernel

theorem seven_ones : ∀ h : BitVec 7,
    (h == 0b1111111#7) = decide (7 ≤ onesReceived h) := by decide +kernel

/-! ### The registers behind the unstuffing -/

/-- The registers hold the unstuffed bits `us`. -/
structure Holds (s : State) (us : List Bool) : Prop where
  fullPid : s.fullPid = collect 8 (us.take 8)
  crc5 : s.crc5 = Crc.run crc5Poly 0b11111#5 (us.drop 8)
  crc16 : s.crc16 = Crc.run crc16Poly 0xffff#16 (us.drop 8)
  rxDataLen16 : s.rxDataLen16 = decide (16 ≤ (us.drop 8).length)
  rxDataLen : s.rxDataLen.toNat = (us.drop 8).length % 16
  tokenPayload : s.tokenPayload =
    if pktIsToken s then collect 11 ((us.drop 8).take 11) else sentinel 11

variable {s : State} {i : Input} {us : List Bool}

theorem packetStart_of_packetValid (h : s.packetValid = true) : packetStart s i = false := by
  simp [packetStart, h]

theorem Holds.pidComplete_eq (h : Holds s us) : pidComplete s = decide (8 ≤ us.length) := by
  have hlen : (us.take 8).length ≤ 8 := List.length_take_le 8 us
  rw [pidComplete, h.fullPid, collect_full hlen, List.length_take]
  exact decide_eq_decide.2 (by omega)

theorem take_snoc (n : ℕ) (b : Bool) :
    (us ++ [b]).take n = if n ≤ us.length then us.take n else us.take n ++ [b] := by
  split_ifs with h
  · exact List.take_append_of_le_length h
  · rw [List.take_append, List.take_of_length_le (l := [b]) (by simp; omega)]

theorem drop_snoc (n : ℕ) (b : Bool) :
    (us ++ [b]).drop n = if n ≤ us.length then us.drop n ++ [b] else us.drop n := by
  split_ifs with h
  · exact List.drop_append_of_le_length h
  · rw [List.drop_of_length_le (by simp; omega), List.drop_of_length_le (by omega)]

section step
variable (s : State) (hl : i.linkReset = false)
include hl

theorem step_packetValid : (step s i).packetValid = packetValidD s i := by simp [step, hl]

theorem step_bitstuffHistory : (step s i).bitstuffHistory = bitstuffHistoryD s i := by
  simp [step, hl]

theorem step_fullPid : (step s i).fullPid = fullPidD s i := by simp [step, hl]

theorem step_crc5 : (step s i).crc5 = crc5D s i := by simp [step, hl]

theorem step_crc16 : (step s i).crc16 = crc16D s i := by simp [step, hl]

theorem step_tokenPayload : (step s i).tokenPayload = tokenPayloadD s i := by simp [step, hl]

theorem step_rxDataBuffer : (step s i).rxDataBuffer = rxDataBufferD s i := by simp [step, hl]

theorem step_rxDataLen16 : (step s i).rxDataLen16 = rxDataLen16D s i := by simp [step, hl]

theorem step_rxDataLen : (step s i).rxDataLen = rxDataLenD s i := by simp [step, hl]

end step

theorem step_bitstuffError (s : State) (i : Input) :
    (step s i).bitstuffError = bitstuffErrorD s i := by
  simp only [step]
  split_ifs <;> rfl

namespace Holds

/-- Without a new bit the registers stay. -/
theorem hold (h : Holds s us) (hl : i.linkReset = false) (hv : s.packetValid = true)
    (hd : dvalid s = false) : Holds (step s i) us := by
  have hstart : packetStart s i = false := packetStart_of_packetValid hv
  have hpid : (step s i).fullPid = s.fullPid := by
    simp [step_fullPid s hl, fullPidD, hd, hstart]
  constructor
  case fullPid => rw [hpid, h.fullPid]
  case crc5 => simp [step_crc5 s hl, crc5D, hd, hstart, h.crc5]
  case crc16 => simp [step_crc16 s hl, crc16D, hd, hstart, h.crc16]
  case rxDataLen16 => simp [step_rxDataLen16 s hl, rxDataLen16D, hd, hstart, h.rxDataLen16]
  case rxDataLen => simp [step_rxDataLen s hl, rxDataLenD, hd, hstart, h.rxDataLen]
  case tokenPayload =>
    rw [pktIsToken, hpid, ← pktIsToken, ← h.tokenPayload]
    simp [step_tokenPayload s hl, tokenPayloadD, hd, hstart]

/-- A bit of the identifier. -/
theorem push_pid (h : Holds s us) (hl : i.linkReset = false) (hv : s.packetValid = true)
    (hd : dvalid s = true) (hlen : us.length < 8) : Holds (step s i) (us ++ [din s]) := by
  have hstart : packetStart s i = false := packetStart_of_packetValid hv
  have hcomplete : pidComplete s = false := by
    rw [h.pidComplete_eq, decide_eq_false_iff_not]
    omega
  have hdrop : us.drop 8 = [] := List.drop_of_length_le (by omega)
  have hdrop' : (us ++ [din s]).drop 8 = [] := List.drop_of_length_le (by simp; omega)
  have htoken : s.tokenPayload = sentinel 11 := by
    rw [h.tokenPayload, hdrop]
    simp
  constructor
  case fullPid =>
    rw [take_snoc, if_neg (by omega), collect_snoc, ← h.fullPid]
    simp [step_fullPid s hl, fullPidD, hd, hcomplete, shiftIn]
  case crc5 =>
    rw [hdrop', ← hdrop, ← h.crc5]
    simp [step_crc5 s hl, crc5D, hcomplete, hstart]
  case crc16 =>
    rw [hdrop', ← hdrop, ← h.crc16]
    simp [step_crc16 s hl, crc16D, hcomplete, hstart]
  case rxDataLen16 =>
    rw [hdrop', ← hdrop, ← h.rxDataLen16]
    simp [step_rxDataLen16 s hl, rxDataLen16D, hcomplete, hstart]
  case rxDataLen =>
    rw [hdrop', ← hdrop, ← h.rxDataLen]
    simp [step_rxDataLen s hl, rxDataLenD, hcomplete, hstart]
  case tokenPayload =>
    rw [hdrop']
    simp [step_tokenPayload s hl, tokenPayloadD, hcomplete, hstart, htoken]

/-- A bit after the identifier. -/
theorem push_payload (h : Holds s us) (hl : i.linkReset = false) (hv : s.packetValid = true)
    (hd : dvalid s = true) (hlen : 8 ≤ us.length) : Holds (step s i) (us ++ [din s]) := by
  have hstart : packetStart s i = false := packetStart_of_packetValid hv
  have hcomplete : pidComplete s = true := by
    rw [h.pidComplete_eq, decide_eq_true_eq]
    exact hlen
  have hpid : (step s i).fullPid = s.fullPid := by
    simp [step_fullPid s hl, fullPidD, hcomplete, hstart]
  have hdrop : (us ++ [din s]).drop 8 = us.drop 8 ++ [din s] := by
    rw [drop_snoc, if_pos hlen]
  have hpush : (us.drop 8 ++ [din s]).length = (us.drop 8).length + 1 := by simp
  have hcount := h.rxDataLen
  constructor
  case fullPid => rw [hpid, take_snoc, if_pos hlen, h.fullPid]
  case crc5 =>
    rw [hdrop, Crc.run_append, ← h.crc5]
    simp [step_crc5 s hl, crc5D, hd, hcomplete, Crc.run]
  case crc16 =>
    rw [hdrop, Crc.run_append, ← h.crc16]
    simp [step_crc16 s hl, crc16D, hd, hcomplete, Crc.run]
  case rxDataLen16 =>
    have hall : (s.rxDataLen == 0b1111#4) = decide ((us.drop 8).length % 16 = 15) := by
      rw [← hcount, Bool.eq_iff_iff, beq_iff_eq, decide_eq_true_eq, ← BitVec.toNat_inj]
      rfl
    rw [hdrop, hpush, step_rxDataLen16 s hl, rxDataLen16D, hd, hcomplete, h.rxDataLen16, hall]
    simp only [Bool.and_self, if_true, Bool.or_eq_decide, decide_eq_true_eq]
    exact decide_eq_decide.2 (by omega)
  case rxDataLen =>
    rw [hdrop, hpush, step_rxDataLen s hl, rxDataLenD, hd, hcomplete]
    have hone : BitVec.toNat (1 : BitVec 4) = 1 := rfl
    simp only [Bool.and_self, if_true, BitVec.toNat_add, hone]
    omega
  case tokenPayload =>
    rw [hdrop, pktIsToken, hpid, ← pktIsToken, take_snoc, step_tokenPayload s hl, tokenPayloadD,
      hd, hcomplete, hstart]
    have htoken := h.tokenPayload
    cases ht : pktIsToken s with
    | false =>
        rw [ht] at htoken
        simpa using htoken
    | true =>
        rw [ht, if_pos rfl] at htoken
        have hdone : tokenPayloadDone s = decide (11 ≤ (us.drop 8).length) := by
          have hle : ((us.drop 8).take 11).length ≤ 11 := List.length_take_le 11 _
          rw [tokenPayloadDone, htoken, collect_full hle, List.length_take]
          exact decide_eq_decide.2 (by omega)
        by_cases hlong : 11 ≤ (us.drop 8).length
        · simp only [hdone, hlong, decide_true, Bool.not_true, Bool.and_false, Bool.false_eq_true,
            if_false, if_true, htoken]
        · rw [if_pos rfl, if_neg hlong, collect_snoc, ← htoken]
          simp only [hdone, hlong, decide_false, Bool.not_false, Bool.and_self, if_true, shiftIn]

theorem next (h : Holds s us) (hl : i.linkReset = false) (hv : s.packetValid = true) :
    Holds (step s i) (us ++ if dvalid s then [din s] else []) := by
  cases hd : dvalid s with
  | false =>
      rw [if_neg (by decide), List.append_nil]
      exact h.hold hl hv hd
  | true =>
      rw [if_pos rfl]
      by_cases hlen : us.length < 8
      · exact h.push_pid hl hv hd hlen
      · exact h.push_payload hl hv hd (by omega)

end Holds

/-! ### The whole packet -/

/-- A packet is being received and `bits` are its bits so far. -/
structure Receiving (s : State) (bits : List Bool) : Prop where
  packetValid : s.packetValid = true
  bitstuffHistory : onesReceived s.bitstuffHistory = min 7 (onesEnd 0 bits)
  bitstuffError : s.bitstuffError = violates 0 bits
  holds : Holds s (unstuff 0 bits)

/-- Between two packets the history of ones is empty. -/
def Settled (s : State) : Prop := s.packetValid = false → s.bitstuffHistory = 0

theorem Settled.reset : Settled State.reset := fun _ => rfl

theorem Settled.next (h : Settled s) : Settled (step s i) := by
  intro hv
  cases hl : i.linkReset with
  | true => simp [step, hl, State.reset]
  | false =>
      rw [step_packetValid s hl] at hv
      rw [step_bitstuffHistory s hl, bitstuffHistoryD]
      cases hs : s.packetValid with
      | true => simp [packetEnd, hv, hs]
      | false => simp [packetEnd, dvalidRaw, hs, h hs]

namespace Receiving
variable {bits : List Bool}

theorem start (h : Settled s) (hl : i.linkReset = false) (hs : packetStart s i = true) :
    Receiving (step s i) [] := by
  have hstart := hs
  simp only [packetStart, Bool.and_eq_true, Bool.not_eq_true'] at hs
  have hd : dvalid s = false := by simp [dvalid, dvalidRaw, hs.2]
  have hend : packetEnd s i = false := by simp [packetEnd, hs.1]
  constructor
  case packetValid => rw [step_packetValid s hl, hs.1]
  case bitstuffHistory =>
    simp [step_bitstuffHistory s hl, bitstuffHistoryD, hend, dvalidRaw, hs.2, h hs.2, onesEnd,
      onesReceived_zero]
  case bitstuffError => simp [step_bitstuffError, bitstuffErrorD, hstart, violates]
  case holds =>
    have hpid : (step s i).fullPid = 0b100000000#9 := by
      simp [step_fullPid s hl, fullPidD, hd, hstart]
    constructor
    case fullPid => exact hpid
    case crc5 => simp [step_crc5 s hl, crc5D, hd, hstart, Crc.run]
    case crc16 => simp [step_crc16 s hl, crc16D, hd, hstart, Crc.run]
    case rxDataLen16 => simp [step_rxDataLen16 s hl, rxDataLen16D, hd, hstart]
    case rxDataLen => simp [step_rxDataLen s hl, rxDataLenD, hd, hstart]
    case tokenPayload =>
      have htoken : (step s i).tokenPayload = 0b100000000000#12 := by
        simp [step_tokenPayload s hl, tokenPayloadD, hd, hstart]
      rw [htoken]
      split_ifs <;> rfl

theorem dvalid_eq (h : Receiving s bits) :
    dvalid s = (dvalidRaw s && decide (onesEnd 0 bits < 6)) := by
  have hsix : (s.bitstuffHistory.extractLsb' 0 6 == 0b111111#6) = decide (6 ≤ onesEnd 0 bits) := by
    rw [six_ones, h.bitstuffHistory]
    exact decide_eq_decide.2 (by omega)
  rw [dvalid, hsix, ← decide_not]
  congr 1
  exact decide_eq_decide.2 (by omega)

/-- One cycle of a packet that does not end it. -/
theorem next (h : Receiving s bits) (hl : i.linkReset = false) (he : packetEnd s i = false) :
    Receiving (step s i) (bits ++ (decodedBit s).toList) := by
  have hv := h.packetValid
  have hkeep : packetValidD s i = true := by simpa [packetEnd, hv] using he
  have hstart : packetStart s i = false := packetStart_of_packetValid hv
  have hholds := h.holds.next (i := i) hl hv
  have hseven : FsRx.bitstuffError s = decide (7 ≤ onesEnd 0 bits) := by
    rw [FsRx.bitstuffError, seven_ones, h.bitstuffHistory]
    exact decide_eq_decide.2 (by omega)
  cases hd : dvalidRaw s with
  | false =>
      have hdv : dvalid s = false := by simp [dvalid, hd]
      rw [hdv, if_neg (by decide), List.append_nil] at hholds
      rw [decodedBit, hd, if_neg (by decide), Option.toList_none, List.append_nil]
      exact
        { packetValid := by rw [step_packetValid s hl, hkeep]
          bitstuffHistory := by
            simp [step_bitstuffHistory s hl, bitstuffHistoryD, he, hd, h.bitstuffHistory]
          bitstuffError := by
            simp [step_bitstuffError, bitstuffErrorD, hstart, hd, h.bitstuffError]
          holds := hholds }
  | true =>
      have hpush : unstuff 0 (bits ++ [din s]) =
          unstuff 0 bits ++ if dvalid s then [din s] else [] := by
        rw [unstuff_append, h.dvalid_eq, hd]
        by_cases hones : onesEnd 0 bits < 6
        · simp [unstuff, hones, show ¬ 6 ≤ onesEnd 0 bits by omega]
        · simp [unstuff, hones, show 6 ≤ onesEnd 0 bits by omega]
      rw [decodedBit, hd, if_pos rfl, Option.toList_some]
      exact
        { packetValid := by rw [step_packetValid s hl, hkeep]
          bitstuffHistory := by
            rw [step_bitstuffHistory s hl, bitstuffHistoryD, he, hd, if_neg (by decide),
              if_pos rfl, onesReceived_push, h.bitstuffHistory, onesEnd_append]
            cases din s with
            | false => simp [onesEnd]
            | true =>
                change min 7 (min 7 (onesEnd 0 bits) + 1) = min 7 (onesEnd 0 bits + 1)
                omega
          bitstuffError := by
            rw [step_bitstuffError, bitstuffErrorD, hstart, hseven, hd, h.bitstuffError,
              violates_append]
            cases hviol : violates 0 bits <;> simp [violates]
          holds := by
            rw [hpush]
            exact hholds }

/-- The bits decoded over several cycles. -/
theorem run (h : Receiving s bits) (is : List Input) (hl : ∀ i ∈ is, i.linkReset = false)
    (he : ∀ e ∈ outs step packetEnd s is, e = false) :
    Receiving (Clocked.run step s is)
      (bits ++ Clocked.log step (fun s _ => decodedBit s) s is) := by
  induction is generalizing s bits with
  | nil =>
      rw [log_nil, List.append_nil]
      exact h
  | cons i is ih =>
      have hfirst := h.next (hl i (by simp)) (he _ (by simp))
      have hrest := ih hfirst (fun j hj => hl j (by simp [hj])) (fun e hj => he e (by simp [hj]))
      rw [List.append_assoc] at hrest
      exact hrest

end Receiving

end UsbDev.FsRx
