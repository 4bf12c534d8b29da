import UsbDev.FsTx

/-!
# The transmitter between two bit strobes

What `usb_fs_tx` does in the four cycles of a bit, stated with the bits that the
shift register still has to send. Three quiet cycles move the delay line of
`bitstuff` and load the next byte, the strobe puts one bit on the line: the
first of those bits, after which either the registers shift or a sixth one is
followed by the stuffed zero.
-/
namespace UsbDev.FsTx

open LineCode

/-! ### Shift registers -/

/-- The shift register has the bits left to send; zeros follow them. -/
def Pending (x : BitVec 8) (bits : List Bool) : Prop :=
  bitsLsb x = bits ++ List.replicate (8 - bits.length) false

namespace Pending
variable {x : BitVec 8} {b : Bool} {bs : List Bool}

theorem load (x : BitVec 8) : Pending x (bitsLsb x) := by simp [Pending]

theorem ones : Pending 0xff#8 (List.replicate 8 true) := by
  unfold Pending
  decide

theorem length_le (h : Pending x bs) : bs.length ≤ 8 := by
  have hlen := congrArg List.length h
  simp only [length_bitsLsb, List.length_append, List.length_replicate] at hlen
  omega

theorem serial (h : Pending x (b :: bs)) : x.getLsbD 0 = b := by
  rw [Pending, bitsLsb_cons, List.cons_append] at h
  exact (List.cons.inj h).1

theorem shift (h : Pending x (b :: bs)) : Pending (x >>> 1) bs := by
  have hlen := h.length_le
  have hzeros : 8 - bs.length = 8 - (b :: bs).length + 1 := by
    simp only [List.length_cons] at hlen ⊢
    omega
  rw [Pending, bitsLsb_ushiftRight, h, hzeros, List.replicate_succ']
  simp

/-- The stuffed zero takes the place of the bit just sent. -/
theorem stuffed (h : Pending x (b :: bs)) : Pending (x &&& 0b11111110#8) (false :: bs) := by
  have hclear : bitsLsb (x &&& 0b11111110#8) = false :: (bitsLsb x).tail := by
    rw [bitsLsb_cons]
    congr 1
    · simp
    · simp [bitsLsb, List.range_succ_eq_map]
  rw [Pending, hclear, h]
  rfl

theorem eq_zero (h : Pending x []) : x = 0 := by
  refine bitsLsb_inj (Eq.trans h ?_)
  decide

end Pending

/-! ### Ones in a row -/

/-- The ones sent last, as far as the history register shows them. -/
def onesSent (h : BitVec 5) : ℕ := ((bitsMsb h).takeWhile id).length

theorem onesSent_le : ∀ h : BitVec 5, onesSent h ≤ 5 := by decide +kernel

theorem sixth_one : ∀ (b : Bool) (h : BitVec 5),
    (BitVec.ofBool b ++ h == 0b111111#6) = (b && onesSent h == 5) := by decide +kernel

theorem onesSent_push : ∀ (b : Bool) (h : BitVec 5),
    onesSent ((BitVec.ofBool b ++ h).extractLsb' 1 5) =
      if b then min 5 (onesSent h + 1) else 0 := by decide +kernel

theorem bitstuff_eq (s : State) : bitstuff s = (serialTxData s && onesSent s.bitHistory == 5) :=
  sixth_one _ _

/-! ### The kinds of cycle -/

/-- A cycle in the middle of a transmission, with or without a bit strobe. -/
structure Busy (flip strobe : Bool) (i : Input) : Prop where
  linkReset : i.linkReset = false
  cfgPinflip : i.cfgPinflip = flip
  txOscTestMode : i.txOscTestMode = false
  pktStart : i.pktStart = false
  bitStrobe : i.bitStrobe = strobe

variable {flip : Bool} {s : State} {i : Input}

/-- Between byte strobes the byte state machine only ends the `tx_data_get` pulse. -/
theorem byteFsm_of_not_byteStrobe (ho : i.txOscTestMode = false) (hp : i.pktStart = false)
    (hb : s.byteStrobe = false) :
    byteFsm s i =
      { state := s.state, dataShiftReg := s.dataShiftReg, oeShiftReg := s.oeShiftReg
        se0ShiftReg := s.se0ShiftReg, dataPayload := s.dataPayload
        txDataGet := s.txDataGet && s.state != .dataOrCrc160
        bitHistory := s.bitHistory, bitCount := s.bitCount, testModeStart := false } := by
  cases hst : s.state <;> simp [byteFsm, hst, ho, hp, hb]

/-- What a cycle without bit strobe does. -/
theorem step_quiet (hi : Busy flip false i) :
    step s i =
      { s with
        bitstuffQ := bitstuff s, bitstuffQ2 := s.bitstuffQ, bitstuffQ3 := s.bitstuffQ2
        bitstuffQ4 := s.bitstuffQ3, state := (byteFsm s i).state
        dataPayload := (byteFsm s i).dataPayload, dataShiftReg := (byteFsm s i).dataShiftReg
        oeShiftReg := (byteFsm s i).oeShiftReg, se0ShiftReg := (byteFsm s i).se0ShiftReg
        txDataGet := (byteFsm s i).txDataGet, byteStrobe := false
        bitHistory := (byteFsm s i).bitHistory, bitCount := (byteFsm s i).bitCount
        outState := outStateD s i, usbD := s.usbD || !s.oe
        usbDp := dpFlipped flip (s.usbD || !s.oe) s.usbSe0
        usbDn := dnFlipped flip (s.usbD || !s.oe) s.usbSe0 } := by
  have hd : procDiff s i =
      { usbD := s.usbD || !s.oe, usbSe0 := s.usbSe0, oe := s.oe, dpEop := s.dpEop } := by
    cases hoe : s.oe <;> simp [procDiff, nrziDiff, hi.pktStart, hi.bitStrobe, hoe]
  simp [step, procFsm, byteStrobeD, crc16D, hd, hi.linkReset, hi.pktStart, hi.bitStrobe,
    hi.cfgPinflip]

/-- What a bit strobe does while a data bit is sent. -/
theorem step_strobe (hi : Busy flip true i) (hbyte : s.byteStrobe = false)
    (hout : s.outState = .osTransmit) (hse0 : s.se0ShiftReg = 0) (husbSe0 : s.usbSe0 = false)
    (hoe : serialTxOe s = true) :
    step s i =
      { s with
        bitstuffQ := bitstuff s, bitstuffQ2 := s.bitstuffQ, bitstuffQ3 := s.bitstuffQ2
        bitstuffQ4 := s.bitstuffQ3
        dataShiftReg :=
          if bitstuff s then s.dataShiftReg &&& 0b11111110#8 else s.dataShiftReg >>> 1
        oeShiftReg := if bitstuff s then s.oeShiftReg else s.oeShiftReg >>> 1
        txDataGet := s.txDataGet && s.state != .dataOrCrc160
        byteStrobe := !bitstuff s && s.bitCount == 0
        bitHistory := (bitHistory s).extractLsb' 1 5
        bitCount := if bitstuff s then s.bitCount else s.bitCount + 1
        crc16 :=
          if s.dataPayload && !s.bitstuffQ4 then
            Crc.step crc16Poly s.crc16 (serialTxData s)
          else s.crc16
        oe := true
        usbD := nrziStep s.usbD (serialTxData s)
        usbDp := dpFlipped flip (nrziStep s.usbD (serialTxData s)) false
        usbDn := dnFlipped flip (nrziStep s.usbD (serialTxData s)) false } := by
  have hd : procDiff s i =
      { usbD := nrziStep s.usbD (serialTxData s), usbSe0 := false, oe := true
        dpEop := s.dpEop } := by
    cases hdata : serialTxData s <;>
      simp [procDiff, nrziDiff, hi.pktStart, hi.bitStrobe, outNrziEn, hout, serialTxSe0, hse0,
        hdata, hoe, husbSe0]
  have hstate : outStateD s i = .osTransmit := by simp [outStateD, hout, hoe]
  have hfsm := byteFsm_of_not_byteStrobe hi.txOscTestMode hi.pktStart hbyte
  cases hstuff : bitstuff s <;>
    simp [step, procFsm, byteStrobeD, crc16D, hd, hstate, hfsm, hstuff, hi.linkReset,
      hi.pktStart, hi.bitStrobe, hi.cfgPinflip, hse0, hout, husbSe0]

/-! ### Progress of a transmission -/

/-- What is left of a transmission: the state of the byte state machine, the CRC register once
the present byte is sent, the ones sent last, the bits put on the line so far and those of the
present byte that are left. After a sixth one `stuffed` holds and the stuffed zero heads the
bits left. -/
structure Progress where
  state : ByteState
  dataPayload : Bool
  crc : BitVec 16
  stuffed : Bool
  ones : ℕ
  raw : List Bool
  bits : List Bool

/-- The next bit goes to the line. -/
def Progress.next (p : Progress) : Progress :=
  match p.bits with
  | [] => p
  | b :: bs =>
      if b = true ∧ p.ones = 5 then
        { p with stuffed := true, raw := p.raw ++ [b], bits := false :: bs }
      else
        { p with stuffed := false, ones := if b then p.ones + 1 else 0, raw := p.raw ++ [b]
                 bits := bs }

/-- A byte is loaded. -/
def Progress.load (p : Progress) (state : ByteState) (dataPayload : Bool) (x : BitVec 8) :
    Progress :=
  { p with
    state := state, dataPayload := dataPayload, bits := bitsLsb x
    crc := if dataPayload then Crc.run crc16Poly p.crc (bitsLsb x) else p.crc }

/-- The bits left go to the line, each with the stuffed zero it needs. -/
def Progress.done (p : Progress) : Progress :=
  { p with
    stuffed := false, ones := onesAfter p.ones p.bits, raw := p.raw ++ stuff p.ones p.bits
    bits := [] }

/-- Sending the next bit first changes nothing in the outcome. -/
theorem Progress.done_next {p : Progress} (h : p.bits ≠ []) : p.next.done = p.done := by
  obtain ⟨b, bs, hb⟩ := List.exists_cons_of_ne_nil h
  by_cases hsix : b = true ∧ p.ones = 5
  · obtain ⟨rfl, h5⟩ := hsix
    simp [next, done, hb, h5, stuff_true_five, onesAfter]
  · cases b with
    | false => simp [next, done, hb, onesAfter]
    | true =>
        have h5 : p.ones ≠ 5 := fun h5 => hsix ⟨rfl, h5⟩
        simp [next, done, hb, h5, stuff, onesAfter]

theorem Progress.length_stuff_next {p : Progress} (h : p.bits ≠ []) :
    (stuff p.ones p.bits).length = (stuff p.next.ones p.next.bits).length + 1 := by
  have hraw := congrArg (fun q => q.raw.length) (done_next h)
  have hlen : p.next.raw.length = p.raw.length + 1 := by
    obtain ⟨b, bs, hb⟩ := List.exists_cons_of_ne_nil h
    simp only [next, hb]
    split_ifs <;> simp
  simp only [done, List.length_append, hlen] at hraw
  omega

theorem Progress.next_eq_done {p : Progress} (h : p.bits ≠ []) (hn : p.next.bits = []) :
    p.next = p.done := by
  obtain ⟨b, bs, hb⟩ := List.exists_cons_of_ne_nil h
  have hsix : ¬ (b = true ∧ p.ones = 5) := by
    intro hsix
    simp [next, hb, hsix] at hn
  have hbs : bs = [] := by simpa [next, hb, hsix] using hn
  subst hbs
  cases b with
  | false => simp [next, done, hb, onesAfter]
  | true =>
      have h5 : p.ones ≠ 5 := fun h5 => hsix ⟨rfl, h5⟩
      simp [next, done, hb, h5, stuff, onesAfter]

/-- `bitstuff` of the last bit strobe, `k` cycles after it. -/
def delayedBitstuff (s : State) : ℕ → Bool
  | 0 => s.bitstuffQ
  | 1 => s.bitstuffQ2
  | 2 => s.bitstuffQ3
  | _ => s.bitstuffQ4

/-- The registers `k` cycles after a bit strobe of a transmission. -/
structure Sends (flip : Bool) (pid : BitVec 4) (k : ℕ) (s : State) (p : Progress) : Prop where
  pid : s.pid = pid
  state : s.state = p.state
  outState : s.outState = .osTransmit
  byteStrobe : s.byteStrobe = decide (k = 0 ∧ p.bits = [])
  dataShiftReg : Pending s.dataShiftReg p.bits
  oeShiftReg : Pending s.oeShiftReg (List.replicate p.bits.length true)
  se0ShiftReg : s.se0ShiftReg = 0
  bitCount : (s.bitCount.toNat + p.bits.length) % 8 = 1
  bitHistory : onesSent s.bitHistory = p.ones
  bitstuff : delayedBitstuff s k = p.stuffed
  stuffed : p.stuffed = true → p.bits.head? = some false
  dataPayload : s.dataPayload = p.dataPayload
  crc16 : (if p.dataPayload then
    Crc.run crc16Poly s.crc16 (if p.stuffed then p.bits.tail else p.bits) else s.crc16) = p.crc
  dpEop : s.dpEop = 0b100#3
  oe : s.oe = !p.raw.isEmpty
  usbD : s.usbD = p.raw.foldl nrziStep true
  usbSe0 : s.usbSe0 = false
  usbDp : s.usbDp = dpFlipped flip s.usbD false
  usbDn : s.usbDn = dnFlipped flip s.usbD false
  txDataGet : s.txDataGet = true → k = 1 ∧ p.state = .dataOrCrc160

namespace Sends
variable {pid : BitVec 4} {k : ℕ} {p : Progress}

/-- Before the first bit the line is at J. -/
theorem usbD_of_not_oe (h : Sends flip pid k s p) : (s.usbD || !s.oe) = s.usbD := by
  rw [h.usbD, h.oe]
  cases p.raw <;> simp

theorem outStateD_eq (h : Sends flip pid k s p) (hi : Busy flip false i) :
    outStateD s i = .osTransmit := by
  simp [outStateD, h.outState, hi.bitStrobe]

theorem txDataGet_eq_false (h : Sends flip pid k s p) (hk : k ≠ 1) : s.txDataGet = false := by
  by_contra hg
  exact hk (h.txDataGet (by simpa using hg)).1

theorem not_byteStrobe (h : Sends flip pid k s p) (hb : k = 0 → p.bits ≠ []) :
    s.byteStrobe = false := by
  rw [h.byteStrobe, decide_eq_false_iff_not]
  exact fun hh => hb hh.1 hh.2

/-- The `tx_data_get` pulse lasts one cycle. -/
theorem not_txDataGet (h : Sends flip pid k s p) (hi : Busy flip false i)
    (hb : k = 0 → p.bits ≠ []) : (step s i).txDataGet = false := by
  rw [step_quiet hi, byteFsm_of_not_byteStrobe hi.txOscTestMode hi.pktStart (h.not_byteStrobe hb)]
  by_contra hget
  simp only [Bool.not_eq_false, Bool.and_eq_true, bne_iff_ne] at hget
  exact hget.2 (h.state.trans (h.txDataGet hget.1).2)

/-- A quiet cycle moves the delay line only. -/
theorem quiet (h : Sends flip pid k s p) (hi : Busy flip false i) (hk : k < 3)
    (hb : k = 0 → p.bits ≠ []) : Sends flip pid (k + 1) (step s i) p := by
  have hget := h.not_txDataGet hi hb
  have hstep := step_quiet (s := s) hi
  rw [byteFsm_of_not_byteStrobe hi.txOscTestMode hi.pktStart (h.not_byteStrobe hb),
    h.outStateD_eq hi, h.usbD_of_not_oe, h.usbSe0] at hstep
  rw [hstep] at hget ⊢
  exact
    { h with
      outState := rfl
      byteStrobe := by simp
      bitstuff := by
        have hdelay := h.bitstuff
        obtain rfl | rfl | rfl : k = 0 ∨ k = 1 ∨ k = 2 := by omega
        all_goals exact hdelay
      usbSe0 := rfl
      usbDp := rfl
      usbDn := rfl
      txDataGet := fun hg => absurd (hget.symm.trans hg) (by decide) }

theorem not_stuffed (h : Sends flip pid k s p) (hb : p.bits = []) : p.stuffed = false := by
  by_contra hs
  have hhead := h.stuffed (by simpa using hs)
  simp [hb] at hhead

/-- Between two bytes the CRC register is up to date. -/
theorem crc16_eq (h : Sends flip pid k s p) (hb : p.bits = []) : s.crc16 = p.crc := by
  have hcrc := h.crc16
  rw [h.not_stuffed hb, hb] at hcrc
  simpa [Crc.run] using hcrc

/-- The cycle after a byte strobe loads the byte that the state machine gives. -/
theorem load (h : Sends flip pid 0 s p) (hi : Busy flip false i) (hb : p.bits = [])
    {st : ByteState} {dp get : Bool} {x : BitVec 8}
    (hget : get = true → st = .dataOrCrc160)
    (hfsm : byteFsm s i =
      { state := st, dataShiftReg := x, oeShiftReg := 0xff#8, se0ShiftReg := 0
        dataPayload := dp, txDataGet := get, bitHistory := s.bitHistory
        bitCount := s.bitCount, testModeStart := false }) :
    Sends flip pid 1 (step s i) (p.load st dp x) := by
  have hstep := step_quiet (s := s) hi
  rw [hfsm, h.outStateD_eq hi, h.usbD_of_not_oe, h.usbSe0] at hstep
  have hcrc := h.crc16_eq hb
  rw [hstep]
  exact
    { pid := h.pid
      state := rfl
      outState := rfl
      byteStrobe := by simp
      dataShiftReg := Pending.load x
      oeShiftReg := by
        rw [show (p.load st dp x).bits.length = 8 from length_bitsLsb x]
        exact Pending.ones
      se0ShiftReg := rfl
      bitCount := by
        have hcount := h.bitCount
        rw [hb, List.length_nil] at hcount
        simp only [Progress.load, length_bitsLsb]
        omega
      bitHistory := h.bitHistory
      bitstuff := h.bitstuff
      stuffed := by
        intro hs
        simp [Progress.load, h.not_stuffed hb] at hs
      dataPayload := rfl
      crc16 := by simp [Progress.load, h.not_stuffed hb, hcrc]
      dpEop := h.dpEop
      oe := h.oe
      usbD := h.usbD
      usbSe0 := rfl
      usbDp := rfl
      usbDn := rfl
      txDataGet := fun hg => ⟨rfl, hget hg⟩ }

/-- The CRC register counts a bit of the payload unless it is a stuffed zero. -/
theorem crc16_strobe (payload stuffed : Bool) (crc : BitVec 16) (b : Bool) (bs : List Bool) :
    (if payload then
        Crc.run crc16Poly
          (if payload && !stuffed then Crc.step crc16Poly crc b else crc) bs
      else if payload && !stuffed then Crc.step crc16Poly crc b else crc) =
      if payload then Crc.run crc16Poly crc (if stuffed then bs else b :: bs) else crc := by
  cases payload <;> cases stuffed <;> rfl

section strobe
variable {b : Bool} {bs : List Bool}

theorem serialTxData_eq (h : Sends flip pid 3 s p) (hbits : p.bits = b :: bs) :
    serialTxData s = b := by
  have hdata := h.dataShiftReg
  rw [hbits] at hdata
  exact hdata.serial

theorem serialTxOe_eq (h : Sends flip pid 3 s p) (hbits : p.bits = b :: bs) :
    serialTxOe s = true := by
  have hoes := h.oeShiftReg
  rw [hbits] at hoes
  exact hoes.serial

theorem byteStrobe_eq_false (h : Sends flip pid 3 s p) : s.byteStrobe = false := by
  simp [h.byteStrobe]

/-- A sixth one is about to be sent. -/
theorem bitstuff_eq_ones (h : Sends flip pid 3 s p) (hbits : p.bits = b :: bs) :
    FsTx.bitstuff s = (b && p.ones == 5) := by
  rw [bitstuff_eq, h.serialTxData_eq hbits, h.bitHistory]

theorem usbD_push (h : Sends flip pid 3 s p) (b : Bool) :
    nrziStep s.usbD b = (p.raw ++ [b]).foldl nrziStep true := by
  rw [List.foldl_append, h.usbD]
  rfl

theorem bitHistory_push (h : Sends flip pid 3 s p) (hbits : p.bits = b :: bs) :
    onesSent ((FsTx.bitHistory s).extractLsb' 1 5) = if b then min 5 (p.ones + 1) else 0 := by
  rw [FsTx.bitHistory, onesSent_push, h.serialTxData_eq hbits, h.bitHistory]

theorem crc16_push (h : Sends flip pid 3 s p) (hbits : p.bits = b :: bs) :
    (if p.dataPayload then
        Crc.run crc16Poly
          (if s.dataPayload && !s.bitstuffQ4 then Crc.step crc16Poly s.crc16 b else s.crc16) bs
      else if s.dataPayload && !s.bitstuffQ4 then Crc.step crc16Poly s.crc16 b else s.crc16) =
      p.crc := by
  have hq4 : s.bitstuffQ4 = p.stuffed := h.bitstuff
  have hcrc := h.crc16
  rw [hbits] at hcrc
  rw [h.dataPayload, hq4]
  exact (crc16_strobe _ _ _ _ _).trans hcrc

/-- The sixth one in a row stays in front as a zero to send. -/
theorem next_stuffed (h : Sends flip pid 3 s p) (hi : Busy flip true i)
    (hbits : p.bits = true :: bs) (h5 : p.ones = 5) :
    Sends flip pid 0 (step s i)
      { p with stuffed := true, raw := p.raw ++ [true], bits := false :: bs } := by
  have hstep := step_strobe hi h.byteStrobe_eq_false h.outState h.se0ShiftReg h.usbSe0
    (h.serialTxOe_eq hbits)
  have htrue : FsTx.bitstuff s = true := by simp [h.bitstuff_eq_ones hbits, h5]
  have hfresh : p.stuffed = false := by
    by_contra hs
    have hhead := h.stuffed (by simpa using hs)
    simp [hbits] at hhead
  have hdata := h.dataShiftReg
  have hoes := h.oeShiftReg
  have hcount := h.bitCount
  rw [hbits] at hdata hoes hcount
  rw [htrue, h.serialTxData_eq hbits, h.txDataGet_eq_false (by decide)] at hstep
  rw [hstep]
  exact
    { pid := h.pid
      state := h.state
      outState := h.outState
      byteStrobe := by simp
      dataShiftReg := hdata.stuffed
      oeShiftReg := hoes
      se0ShiftReg := h.se0ShiftReg
      bitCount := hcount
      bitHistory := by
        have hhist := h.bitHistory_push hbits
        rw [h5] at hhist ⊢
        exact hhist
      bitstuff := rfl
      stuffed := fun _ => rfl
      dataPayload := h.dataPayload
      crc16 := h.crc16_push hbits
      dpEop := h.dpEop
      oe := by simp
      usbD := h.usbD_push true
      usbSe0 := h.usbSe0
      usbDp := rfl
      usbDn := rfl
      txDataGet := by simp }

/-- Any other bit leaves the byte. -/
theorem next_sent (h : Sends flip pid 3 s p) (hi : Busy flip true i) (hbits : p.bits = b :: bs)
    (hsix : ¬(b = true ∧ p.ones = 5)) :
    Sends flip pid 0 (step s i)
      { p with stuffed := false, ones := if b then p.ones + 1 else 0, raw := p.raw ++ [b]
               bits := bs } := by
  have hstep := step_strobe hi h.byteStrobe_eq_false h.outState h.se0ShiftReg h.usbSe0
    (h.serialTxOe_eq hbits)
  have hfalse : FsTx.bitstuff s = false := by
    rw [h.bitstuff_eq_ones hbits]
    simpa using hsix
  have hdata := h.dataShiftReg
  have hoes := h.oeShiftReg
  have hcount := h.bitCount
  rw [hbits] at hdata hoes hcount
  rw [List.length_cons] at hcount
  have hlen := hdata.length_le
  rw [List.length_cons] at hlen
  rw [hfalse, h.serialTxData_eq hbits, h.txDataGet_eq_false (by decide)] at hstep
  rw [hstep]
  exact
    { pid := h.pid
      state := h.state
      outState := h.outState
      byteStrobe := by
        have hiff : s.bitCount = 0#3 ↔ bs = [] := by
          rw [← List.length_eq_zero_iff, ← BitVec.toNat_inj]
          simp only [BitVec.toNat_ofNat]
          omega
        by_cases hnil : bs = []
        · simp [hnil, hiff.2 hnil]
        · simp [hnil, mt hiff.1 hnil]
      dataShiftReg := hdata.shift
      oeShiftReg := hoes.shift
      se0ShiftReg := h.se0ShiftReg
      bitCount := by
        have hone : BitVec.toNat (1 : BitVec 3) = 1 := rfl
        simp only [Bool.false_eq_true, if_false, BitVec.toNat_add, hone]
        omega
      bitHistory := by
        have hones : p.ones ≤ 5 := h.bitHistory ▸ onesSent_le _
        refine (h.bitHistory_push hbits).trans ?_
        cases b with
        | false => rfl
        | true => simp only [true_and] at hsix; simp; omega
      bitstuff := rfl
      stuffed := by simp
      dataPayload := h.dataPayload
      crc16 := h.crc16_push hbits
      dpEop := h.dpEop
      oe := by simp
      usbD := h.usbD_push b
      usbSe0 := h.usbSe0
      usbDp := rfl
      usbDn := rfl
      txDataGet := by simp }

end strobe

/-- The strobe sends the next bit. -/
theorem next (h : Sends flip pid 3 s p) (hi : Busy flip true i) (hb : p.bits ≠ []) :
    Sends flip pid 0 (step s i) p.next := by
  obtain ⟨b, bs, hbits⟩ := List.exists_cons_of_ne_nil hb
  by_cases hsix : b = true ∧ p.ones = 5
  · obtain ⟨rfl, h5⟩ := hsix
    have hnext : p.next =
        { p with stuffed := true, raw := p.raw ++ [true], bits := false :: bs } := by
      simp [Progress.next, hbits, h5]
    rw [hnext]
    exact h.next_stuffed hi hbits h5
  · have hnext : p.next =
        { p with stuffed := false, ones := if b then p.ones + 1 else 0
                 raw := p.raw ++ [b], bits := bs } := by
      simp [Progress.next, hbits, hsix]
    rw [hnext]
    exact h.next_sent hi hbits hsix

end Sends

end UsbDev.FsTx
