import UsbDev.NbPe
import UsbDev.RxPace
import UsbDev.RxPacket
import UsbDev.TxBits

/-!
# One transmission at a time

The two engines share one transmitter without an arbiter. From the start of a
packet to the end of its EOP the receiver cannot report a token or a DATA packet:
before the line is driven there are not enough bit strobes, and after that the
receiver is muted. `Inv` is the invariant of `usb_fs_nb_pe` that says so.
-/
namespace UsbDev.FsTx

/-! ### The transmitter under any bit strobes -/

/-- Ready for a packet. -/
structure AtRest (s : State) : Prop where
  state : s.state = .idle
  outState : s.outState = .osIdle
  oe : s.oe = false

/-- A packet has been requested and `n` bit strobes have passed, but the line is not driven. -/
inductive Preparing : ℕ → State → Prop
  | requested {s : State} : s.oe = false → s.outState = .osWaitByte → s.state = .sync →
      s.byteStrobe = false → s.bitCount = 7 → s.bitHistory = 0 → Preparing 0 s
  | delayed {s : State} : s.oe = false → s.outState = .osWaitByte → s.state = .sync →
      s.byteStrobe = false → s.bitCount = 0 → s.bitHistory.getLsbD 0 = false → Preparing 1 s
  | loading {s : State} : s.oe = false → s.outState = .osWaitByte → s.state = .sync →
      s.byteStrobe = true → s.bitCount = 1 → Preparing 2 s
  | loaded {s : State} : s.oe = false → s.outState = .osTransmit → s.state = .pid →
      s.byteStrobe = false → s.bitCount = 1 → s.oeShiftReg = 0xff → Preparing 2 s

/-- The output-enable bits last until the next byte strobe. -/
def Enabled (s : State) : Prop :=
  if s.byteStrobe then s.bitCount = 1 else s.oeShiftReg = 0xff#8 >>> (s.bitCount - 1).toNat

/-- The line is driven, from the first bit of SYNC to the last of EOP. -/
structure Driving (s : State) : Prop where
  oe : s.oe = true
  outState : s.outState = .osTransmit
  body : s.state ≠ .idle → s.state ≠ .sync ∧ s.state ≠ .oscTest ∧ Enabled s

variable {s : State} {i : Input}

theorem procFsm_state (s : State) (i : Input) : (procFsm s i).state = (byteFsm s i).state := by
  unfold procFsm
  split_ifs <;> rfl

theorem atRest_of_linkReset (hl : i.linkReset = true) : AtRest (step s i) := by
  constructor <;> simp [step, hl, State.reset]

theorem byteStrobe_step (h : (step s i).byteStrobe = true) : i.bitStrobe = true := by
  cases hl : i.linkReset with
  | true => simp [step, hl, State.reset] at h
  | false =>
      simp only [step, hl, byteStrobeD, Bool.false_eq_true, if_false, Bool.and_eq_true] at h
      exact h.1.1.1

theorem AtRest.next (h : AtRest s) (ho : i.txOscTestMode = false) (hp : i.pktStart = false) :
    AtRest (step s i) := by
  cases hl : i.linkReset with
  | true => exact atRest_of_linkReset hl
  | false =>
      have hfsm : (byteFsm s i).state = .idle ∧ (procFsm s i).testModeStart = false := by
        constructor
        · simp [byteFsm, h.state, ho, hp]
        · unfold procFsm
          split_ifs <;> simp [byteFsm, h.state, ho, hp]
      constructor
      · simp [step, hl, procFsm_state, hfsm.1]
      · simp [step, hl, outStateD, h.outState, hp, hfsm.2]
      · simp [step, hl, procDiff, nrziDiff, outNrziEn, h.outState, h.oe, hp]

theorem AtRest.start (h : AtRest s) (hl : i.linkReset = false) (ho : i.txOscTestMode = false)
    (hp : i.pktStart = true) : Preparing 0 (step s i) := by
  apply Preparing.requested
  · simp [step, hl, procDiff, nrziDiff, hp, h.oe]
  · simp [step, hl, outStateD, h.outState, hp]
  · simp [step, hl, procFsm_state, byteFsm, h.state, ho, hp]
  · simp [step, hl, byteStrobeD, hp]
  · simp [step, hl, procFsm, hp]
  · simp [step, hl, procFsm, hp]

theorem bitstuff_of_bitHistory (h : s.bitHistory.getLsbD 0 = false) : bitstuff s = false := by
  have htable : ∀ (b : Bool) (x : BitVec 5), x.getLsbD 0 = false →
      (BitVec.ofBool b ++ x == 0b111111#6) = false := by decide
  exact htable _ _ h

/-- A bit strobe shows the output-enable bit on the line; the first zero ends the packet. -/
theorem step_strobe_oe (hl : i.linkReset = false) (hp : i.pktStart = false)
    (hs : i.bitStrobe = true) (hout : s.outState = .osTransmit) :
    (step s i).oe = serialTxOe s ∧
      (step s i).outState = if serialTxOe s then .osTransmit else .osIdle := by
  constructor
  · have hoe : (procDiff s i).oe = (nrziDiff s i).oe := by
      rw [procDiff]
      split_ifs <;> rfl
    have hnrzi : (nrziDiff s i).oe = serialTxOe s := by
      unfold nrziDiff
      simp only [hp, hs, outNrziEn, hout, Bool.false_eq_true, if_false, beq_self_eq_true,
        Bool.and_self, if_true]
      split_ifs <;> rfl
    simp [step, hl, hoe, hnrzi]
  · cases hone : serialTxOe s <;> simp [step, hl, outStateD, hout, hs, hone]

theorem step_quiet_oe (hl : i.linkReset = false) (hp : i.pktStart = false)
    (hs : i.bitStrobe = false) (hout : s.outState = .osTransmit) :
    (step s i).oe = s.oe ∧ (step s i).outState = .osTransmit := by
  have hoe : (procDiff s i).oe = s.oe := by
    simp only [procDiff, nrziDiff, hp, hs, Bool.false_and, Bool.false_eq_true, if_false]
    split_ifs <;> rfl
  constructor
  · simp [step, hl, hoe]
  · simp [step, hl, outStateD, hout, hs]

theorem serialTxOe_of_enabled (hb : s.byteStrobe = false) (h : Enabled s) :
    serialTxOe s = true := by
  have htable : ∀ c : BitVec 3, (0xff#8 >>> (c - 1).toNat).getLsbD 0 = true := by decide
  rw [Enabled, hb] at h
  rw [serialTxOe, h]
  exact htable _

/-- Between two byte strobes as many bits are left as the count says. -/
theorem Enabled.strobe (h : Enabled s) (hl : i.linkReset = false) (ho : i.txOscTestMode = false)
    (hp : i.pktStart = false) (hb : s.byteStrobe = false) (hs : i.bitStrobe = true) :
    Enabled (step s i) := by
  have htable : ∀ c : BitVec 3, c ≠ 0 →
      0xff#8 >>> (c - 1).toNat >>> 1 = 0xff#8 >>> (c + 1 - 1).toNat := by decide
  have hfsm := byteFsm_of_not_byteStrobe ho hp hb
  rw [Enabled, hb] at h
  unfold Enabled
  cases hstuff : bitstuff s with
  | true => simpa [step, hl, procFsm, hfsm, hp, hs, hstuff, byteStrobeD] using h
  | false =>
      by_cases hc : s.bitCount = 0
      · simp [step, hl, procFsm, hp, hs, hstuff, byteStrobeD, hc]
      · have hshift := htable _ hc
        simp only [Bool.false_eq_true, if_false] at h
        rw [← h] at hshift
        have hfour : (step s i).byteStrobe = false → (step s i).oeShiftReg =
            0xff#8 >>> ((step s i).bitCount - 1).toNat := by
          simpa [step, hl, procFsm, hfsm, hp, hs, hstuff] using fun _ => hshift
        have hbyte : (step s i).byteStrobe = false := by
          have hc' : (s.bitCount == 0) = false := by simpa using hc
          simp [step, hl, hp, hs, hstuff, byteStrobeD] at hc' ⊢
          exact hc'
        simp only [hbyte, Bool.false_eq_true, if_false]
        exact hfour hbyte

theorem Enabled.quiet (h : Enabled s) (hl : i.linkReset = false) (ho : i.txOscTestMode = false)
    (hp : i.pktStart = false) (hb : s.byteStrobe = false) (hs : i.bitStrobe = false) :
    Enabled (step s i) := by
  have hfsm := byteFsm_of_not_byteStrobe ho hp hb
  rw [Enabled, hb] at h
  unfold Enabled
  simpa [step, hl, procFsm, hfsm, hp, hs, byteStrobeD] using h

/-- A byte strobe loads eight output-enable bits, or ends the packet. -/
theorem Enabled.load (h : Enabled s) (hl : i.linkReset = false) (hp : i.pktStart = false)
    (hb : s.byteStrobe = true) (hs : i.bitStrobe = false) (hst : s.state ≠ .idle)
    (hsync : s.state ≠ .sync) (hosc : s.state ≠ .oscTest) :
    (step s i).state ≠ .sync ∧ (step s i).state ≠ .oscTest ∧
      ((step s i).state ≠ .idle → Enabled (step s i)) := by
  rw [Enabled, hb] at h
  simp only [if_true] at h
  have hstate : (step s i).state = (byteFsm s i).state := by simp [step, hl, procFsm_state]
  have hen : Enabled (step s i) ↔
      (byteFsm s i).oeShiftReg = 0xff#8 >>> ((byteFsm s i).bitCount - 1).toNat := by
    unfold Enabled
    simp [step, hl, procFsm, hp, hs, byteStrobeD]
  rw [hstate, hen]
  cases hcase : s.state <;> simp only [hcase, ne_eq, not_true_eq_false] at hst hsync hosc <;>
    simp only [byteFsm, hcase, hb, h, if_true]
  case pid => split_ifs <;> decide
  case dataOrCrc160 => split_ifs <;> simp
  case crc161 => decide
  case eop => decide

/-- Before the line is driven every bit strobe counts; the third one drives it. -/
theorem Preparing.next {n : ℕ} (h : Preparing n s) (hl : i.linkReset = false)
    (ho : i.txOscTestMode = false) (hp : i.pktStart = false)
    (hbyte : s.byteStrobe = true → i.bitStrobe = false) :
    Preparing (n + if i.bitStrobe then 1 else 0) (step s i) ∨
      (n = 2 ∧ i.bitStrobe = true ∧ Driving (step s i)) := by
  cases h with
  | requested hoe hout hst hb hc hh =>
      have hstuff : bitstuff s = false := bitstuff_of_bitHistory (by rw [hh]; rfl)
      have hfsm := byteFsm_of_not_byteStrobe ho hp hb
      cases hs : i.bitStrobe with
      | false =>
          refine .inl (.requested ?_ ?_ ?_ ?_ ?_ ?_) <;>
            simp [step, hl, procFsm, hfsm, hp, hs, procDiff, nrziDiff, hoe, outStateD, hout, hb,
              byteStrobeD, hst, hc, hh]
      | true =>
          have hhist : ((bitHistory s).extractLsb' 1 5).getLsbD 0 = false := by
            rw [bitHistory, hh]
            cases serialTxData s <;> rfl
          refine .inl (.delayed ?_ ?_ ?_ ?_ ?_ ?_) <;>
            simp [step, hl, procFsm, hfsm, hp, hs, procDiff, nrziDiff, outNrziEn, hoe, outStateD,
              hout, hb, byteStrobeD, hst, hc, hstuff]
          simpa using hhist
  | delayed hoe hout hst hb hc hh =>
      have hstuff := bitstuff_of_bitHistory hh
      have hfsm := byteFsm_of_not_byteStrobe ho hp hb
      cases hs : i.bitStrobe with
      | false =>
          refine .inl (.delayed ?_ ?_ ?_ ?_ ?_ ?_) <;>
            simp [step, hl, procFsm, hfsm, hp, hs, procDiff, nrziDiff, hoe, outStateD, hout, hb,
              byteStrobeD, hst, hc]
          simpa using hh
      | true =>
          refine .inl (.loading ?_ ?_ ?_ ?_ ?_) <;>
            simp [step, hl, procFsm, hfsm, hp, hs, procDiff, nrziDiff, outNrziEn, hoe, outStateD,
              hout, hb, byteStrobeD, hst, hc, hstuff]
  | loading hoe hout hst hb hc =>
      have hs := hbyte hb
      rw [hs]
      refine .inl (.loaded ?_ ?_ ?_ ?_ ?_ ?_) <;>
        simp [step, hl, procFsm, byteFsm, hp, hs, procDiff, nrziDiff, hoe, outStateD, hout, hb,
          byteStrobeD, hst, hc]
  | loaded hoe hout hst hb hc hreg =>
      have hfsm := byteFsm_of_not_byteStrobe ho hp hb
      cases hs : i.bitStrobe with
      | false =>
          refine .inl (.loaded ?_ ?_ ?_ ?_ ?_ ?_) <;>
            simp [step, hl, procFsm, hfsm, hp, hs, procDiff, nrziDiff, hoe, outStateD, hout,
              byteStrobeD, hst, hc, hreg]
      | true =>
          have hone : serialTxOe s = true := by rw [serialTxOe, hreg]; rfl
          obtain ⟨hoe', hout'⟩ := step_strobe_oe hl hp hs hout
          rw [hone] at hoe' hout'
          have hstate : (step s i).state = .pid := by
            simp [step, hl, procFsm_state, hfsm, hst]
          have hen : Enabled s := by
            rw [Enabled, hb, hc, hreg]
            rfl
          refine .inr ⟨rfl, rfl, hoe', hout', fun _ => ⟨?_, ?_, hen.strobe hl ho hp hb hs⟩⟩ <;>
            rw [hstate] <;> decide

/-- The line is driven until the packet is over. -/
theorem Driving.next (h : Driving s) (hl : i.linkReset = false) (ho : i.txOscTestMode = false)
    (hp : i.pktStart = false) (hbyte : s.byteStrobe = true → i.bitStrobe = false) :
    Driving (step s i) ∨ AtRest (step s i) := by
  cases hs : i.bitStrobe with
  | false =>
      obtain ⟨hoe, hout⟩ := step_quiet_oe hl hp hs h.outState
      refine .inl ⟨hoe.trans h.oe, hout, ?_⟩
      by_cases hst : s.state = .idle
      · have hstate : (step s i).state = .idle := by
          simp [step, hl, procFsm_state, byteFsm, hst, ho, hp]
        exact fun hne => absurd hstate hne
      · obtain ⟨hsync, hosc, hen⟩ := h.body hst
        cases hb : s.byteStrobe with
        | true =>
            obtain ⟨h1, h2, h3⟩ := hen.load hl hp hb hs hst hsync hosc
            exact fun hne => ⟨h1, h2, h3 hne⟩
        | false =>
            have hstate : (step s i).state = s.state := by
              simp [step, hl, procFsm_state, byteFsm_of_not_byteStrobe ho hp hb]
            rw [hstate]
            exact fun _ => ⟨hsync, hosc, hen.quiet hl ho hp hb hs⟩
  | true =>
      have hb : s.byteStrobe = false := by
        by_contra hb
        rw [hbyte (by simpa using hb)] at hs
        exact absurd hs (by simp)
      have hstate : (step s i).state = s.state := by
        simp [step, hl, procFsm_state, byteFsm_of_not_byteStrobe ho hp hb]
      obtain ⟨hoe, hout⟩ := step_strobe_oe hl hp hs h.outState
      by_cases hst : s.state = .idle
      · rw [hst] at hstate
        cases hone : serialTxOe s with
        | true =>
            rw [hone] at hoe hout
            exact .inl ⟨hoe, hout, fun hne => absurd hstate hne⟩
        | false =>
            rw [hone] at hoe hout
            exact .inr ⟨hstate, hout, hoe⟩
      · obtain ⟨hsync, hosc, hen⟩ := h.body hst
        rw [serialTxOe_of_enabled hb hen] at hoe hout
        refine .inl ⟨hoe, hout, fun _ => ?_⟩
        rw [hstate]
        exact ⟨hsync, hosc, hen.strobe hl ho hp hb hs⟩

end UsbDev.FsTx

namespace UsbDev.NbPe

section
variable {N : ℕ}

/-! ### What ends in a cycle -/

/-- A packet with payload has at least 16 bits of it. -/
theorem rxDataLen16_of_validPacket {s : FsRx.State} (h : FsRx.validPacket s = true)
    (hk : FsRx.pktIsHandshake s = false) : s.rxDataLen16 = true := by
  simp only [FsRx.validPacket, FsRx.validDataLen, FsRx.validTokenLen, hk, Bool.and_eq_true,
    Bool.or_eq_true, Bool.false_and, Bool.false_eq_true, false_or] at h
  obtain ⟨_, hdata | htoken⟩ := h
  · exact hdata.1.2.1
  · exact htoken.1.2.1

theorem pktIsHandshake_of_pid {s : FsRx.State} {p : BitVec 4} (h : FsRx.pid s = p)
    (hp : p.getLsbD 0 = true) : FsRx.pktIsHandshake s = false := by
  have htable : ∀ x : BitVec 9, (x.extractLsb' 1 4).getLsbD 0 = true →
      (x.extractLsb' 1 2 == 0b10#2) = false := by decide +kernel
  rw [← h] at hp
  exact htable _ hp

/-- A token or a DATA packet ends: the receiver has decoded at least 16 bits of payload. -/
theorem payload_of_pktEnd {s : State N} {i : Input N} {p : BitVec 4}
    (he : (rxSignals s i).pktEnd = true) (hv : (rxSignals s i).pktValid = true)
    (hpid : (rxSignals s i).pid = p) (hp : p.getLsbD 0 = true) : FsRx.payload s.rx = 16 :=
  FsRx.payload_of_len16 (FsRx.packetEnd_cases he).2.1
    (rxDataLen16_of_validPacket hv (pktIsHandshake_of_pid hpid hp))

theorem payload_of_inToken {s : State N} {i : Input N}
    (h : (inInput s i).inTokenReceived = true) : FsRx.payload s.rx = 16 := by
  simp only [InPe.Input.inTokenReceived, RxSignals.tokenReceived, Bool.and_eq_true, beq_iff_eq]
    at h
  exact payload_of_pktEnd h.1.1.1.1 h.1.1.1.2 h.2 rfl

theorem payload_of_dataPacket {s : State N} {i : Input N}
    (h : (rxSignals s i).dataPacketReceived = true) : FsRx.payload s.rx = 16 := by
  simp only [RxSignals.dataPacketReceived, Bool.and_eq_true, Bool.or_eq_true, beq_iff_eq] at h
  obtain ⟨⟨hend, hvalid⟩, hpid | hpid⟩ := h <;>
    exact payload_of_pktEnd hend hvalid hpid rfl

theorem packetEnd_of_inToken {s : State N} {i : Input N}
    (h : (inInput s i).inTokenReceived = true) : FsRx.packetEnd s.rx (rxInput s i) = true := by
  simp only [InPe.Input.inTokenReceived, RxSignals.tokenReceived, Bool.and_eq_true] at h
  exact h.1.1.1.1

theorem packetEnd_of_dataPacket {s : State N} {i : Input N}
    (h : (rxSignals s i).dataPacketReceived = true) :
    FsRx.packetEnd s.rx (rxInput s i) = true := by
  simp only [RxSignals.dataPacketReceived, Bool.and_eq_true] at h
  exact h.1.1

/-- An IN token and a DATA packet do not end in one cycle. -/
theorem dataPacket_of_inToken {s : State N} {i : Input N}
    (h : (inInput s i).inTokenReceived = true) :
    (rxSignals s i).dataPacketReceived = false := by
  simp only [InPe.Input.inTokenReceived, Bool.and_eq_true] at h
  exact RxSignals.dataPacketReceived_of_tokenReceived h.1

/-! ### The invariant -/

/-- One of the engines starts a packet in this cycle because of what ended in the last one. -/
def Answering (s : State N) : Prop :=
  s.inp.inXactState = .rcvdIn ∨ s.out.outXactState = .rcvdDataEnd

/-- How far the transmission is, and how many bits the receiver can have seen meanwhile. -/
inductive Stage (s : State N) : Prop
  | rest : FsTx.AtRest s.tx → Stage s
  | preparing (n : ℕ) : FsTx.Preparing n s.tx → FsRx.payload s.rx ≤ n + FsRx.slack s.rx →
      Stage s
  | started : FsTx.Driving s.tx → s.rx.bitPhase ≠ 1 → FsRx.payload s.rx ≤ 4 → Stage s
  | settling : FsTx.Driving s.tx → FsRx.Settling s.rx → FsRx.payload s.rx ≤ 4 → Stage s
  | muted : FsTx.Driving s.tx → FsRx.SeesJ s.rx →
      FsRx.payload s.rx ≤ FsRx.mutedBound s.rx → Stage s

structure Inv (s : State N) : Prop where
  strobe : s.tx.byteStrobe = true → s.rx.bitPhase ≠ 2
  line : FsRx.LineOk s.rx
  stage : Stage s
  answer : Answering s → FsTx.AtRest s.tx ∧ s.rx.packetValid = false ∧ s.rx.bitPhase ≠ 1
  one : ¬ (s.inp.inXactState = .rcvdIn ∧ s.out.outXactState = .rcvdDataEnd)

variable {s : State N} {i : Input N}

theorem slack_le (s : FsRx.State) : FsRx.slack s ≤ 2 := by
  unfold FsRx.slack
  split_ifs <;> omega

theorem Preparing.le_two {n : ℕ} {s : FsTx.State} (h : FsTx.Preparing n s) : n ≤ 2 := by
  cases h <;> omega

/-- No token and no DATA packet ends while a packet is transmitted. -/
theorem Stage.atRest (h : Stage s) (hp : FsRx.payload s.rx = 16) : FsTx.AtRest s.tx := by
  cases h with
  | rest hrest => exact hrest
  | preparing n hprep hle =>
      have hslack := slack_le s.rx
      have hn := Preparing.le_two hprep
      omega
  | started _ _ hle => omega
  | settling _ _ hle => omega
  | muted _ _ hle =>
      have hbound := FsRx.mutedBound_le s.rx
      omega

variable [NeZero N]

/-- A packet starts only with the transmitter at rest and no packet received any more. -/
theorem Inv.start (h : Inv s) (hs : txPktStart s i = true) :
    FsTx.AtRest s.tx ∧ (step s i).rx.packetValid = false := by
  have hanswer : Answering s → FsTx.AtRest s.tx ∧ (step s i).rx.packetValid = false := by
    intro ha
    obtain ⟨hrest, hpacket, hphase⟩ := h.answer ha
    exact ⟨hrest, FsRx.packetValid_step_of_not_valid hphase hpacket⟩
  rw [txPktStart, Bool.or_eq_true] at hs
  obtain hin | hout := hs
  · exact hanswer (.inl ((in_txPktStart_iff s i).1 hin))
  · obtain ⟨_, hdata, _⟩ | ⟨hend, _⟩ := out_txPktStart_cases hout
    · exact ⟨h.stage.atRest (payload_of_dataPacket hdata),
        FsRx.packetValid_step_of_end (packetEnd_of_dataPacket hdata)⟩
    · exact hanswer (.inr hend)

/-- Whatever makes an engine answer in the next cycle starts no packet in this one. -/
theorem Inv.not_start (h : Inv s) (ha : Answering (step s i)) :
    FsRx.payload s.rx = 16 ∧ FsRx.packetEnd s.rx (rxInput s i) = true ∧
      txPktStart s i = false := by
  have hend : FsRx.payload s.rx = 16 ∧ FsRx.packetEnd s.rx (rxInput s i) = true := by
    obtain hin | hout := ha
    · have htoken := (rcvdIn_step hin).1
      exact ⟨payload_of_inToken htoken, packetEnd_of_inToken htoken⟩
    · have hdata := (rcvdDataEnd_step hout).2.1
      exact ⟨payload_of_dataPacket hdata, packetEnd_of_dataPacket hdata⟩
  refine ⟨hend.1, hend.2, ?_⟩
  have hquiet : ¬ Answering s := by
    intro hnow
    have hpacket := (h.answer hnow).2.1
    rw [(FsRx.packetEnd_cases hend.2).2.1] at hpacket
    exact absurd hpacket (by simp)
  rw [← Bool.not_eq_true, txPktStart, Bool.or_eq_true, not_or]
  constructor
  · exact fun hin => hquiet (.inl ((in_txPktStart_iff s i).1 hin))
  · intro hout
    obtain ⟨hstart, hdata, hnext⟩ | ⟨hnow, _⟩ := out_txPktStart_cases hout
    · -- a repeated DATA packet is answered at once and not once more
      obtain hin | hagain := ha
      · rw [dataPacket_of_inToken (rcvdIn_step hin).1] at hdata
        exact absurd hdata (by simp)
      · have hstep : (step s i).out.outXactState =
            if i.linkReset then .idle else (outComb s i).stateNext := rfl
        rw [hstep, hnext] at hagain
        split_ifs at hagain
    · exact hquiet (.inr hnow)

/-- The byte strobe follows a bit strobe. -/
theorem strobe_step (hbyte : (step s i).tx.byteStrobe = true) :
    (step s i).rx.bitPhase ≠ 2 := by
  intro hphase
  have hstrobe : s.rx.bitPhase = 2 := FsRx.bitStrobe_iff.1 (FsTx.byteStrobe_step hbyte)
  have hvalid : s.rx.bitPhase = 1 := FsRx.bitPhase_of_strobe hphase
  rw [hstrobe] at hvalid
  exact absurd hvalid (by decide)

theorem Inv.stage_step (h : Inv s) (ho : i.txOscTestMode = false) : Stage (step s i) := by
  cases hl : i.linkReset with
  | true => exact .rest (FsTx.atRest_of_linkReset hl)
  | false =>
      cases hs : txPktStart s i with
      | true =>
          obtain ⟨hrest, hpacket⟩ := h.start hs
          refine .preparing 0 (hrest.start hl ho hs) ?_
          rw [FsRx.payload_of_not_packetValid hpacket]
          omega
      | false =>
          have hbyte : s.tx.byteStrobe = true → (txInput s i).bitStrobe = false := by
            intro hb
            have hquiet : FsRx.bitStrobe s.rx = false := by
              rw [← Bool.not_eq_true, FsRx.bitStrobe_iff]
              exact h.strobe hb
            exact hquiet
          cases h.stage with
          | rest hrest => exact .rest (hrest.next ho hs)
          | preparing n hprep hle =>
              obtain hnext | ⟨rfl, hstrobe, hdrive⟩ := hprep.next hl ho hs hbyte
              · exact .preparing _ hnext (FsRx.payload_strobe hl hle)
              · have hphase : s.rx.bitPhase = 2 := FsRx.bitStrobe_iff.1 hstrobe
                have hne : s.rx.bitPhase ≠ 1 := by rw [hphase]; decide
                refine .started hdrive ?_ ?_
                · obtain hp | hp := FsRx.bitPhase_after_strobe (i := rxInput s i) hphase <;>
                    exact fun hone => absurd (hone.symm.trans hp) (by decide)
                · have hslack := slack_le s.rx
                  have hstep := FsRx.payload_step_of_not_dvalid (rxInput s i)
                    (FsRx.dvalid_of_not_valid hne)
                  exact hstep.trans (by omega)
          | started hdrive hphase hle =>
              obtain hnext | hrest := hdrive.next hl ho hs hbyte
              · have hstep := FsRx.payload_step_of_not_dvalid (rxInput s i)
                  (FsRx.dvalid_of_not_valid hphase)
                exact .settling hnext (h.line.mute hl hdrive.oe) (hstep.trans hle)
              · exact .rest hrest
          | settling hdrive hsettle hle =>
              obtain hnext | hrest := hdrive.next hl ho hs hbyte
              · exact .muted hnext (hsettle.step hl hdrive.oe) (hsettle.payload_step hl hle)
              · exact .rest hrest
          | muted hdrive hsees hle =>
              obtain hnext | hrest := hdrive.next hl ho hs hbyte
              · exact .muted hnext (hsees.settling.step hl hdrive.oe) (hsees.payload_step hl hle)
              · exact .rest hrest

theorem Inv.answer_step (h : Inv s) (ho : i.txOscTestMode = false)
    (ha : Answering (step s i)) :
    FsTx.AtRest (step s i).tx ∧ (step s i).rx.packetValid = false ∧
      (step s i).rx.bitPhase ≠ 1 := by
  obtain ⟨hpayload, hend, hs⟩ := h.not_start ha
  refine ⟨(h.stage.atRest hpayload).next ho hs, FsRx.packetValid_step_of_end hend, ?_⟩
  obtain ⟨hp, _⟩ | hp := FsRx.bitPhase_after_valid (i := rxInput s i)
    (FsRx.packetEnd_cases hend).1 <;>
  exact fun hone => absurd (hone.symm.trans hp) (by decide)

theorem one_step :
    ¬ ((step s i).inp.inXactState = .rcvdIn ∧ (step s i).out.outXactState = .rcvdDataEnd) := by
  rintro ⟨hin, hout⟩
  have hdata := (rcvdDataEnd_step hout).2.1
  rw [dataPacket_of_inToken (rcvdIn_step hin).1] at hdata
  exact absurd hdata (by simp)

theorem Inv.step (h : Inv s) (ho : i.txOscTestMode = false) : Inv (step s i) where
  strobe := strobe_step
  line := h.line.step (rxInput s i)
  stage := h.stage_step ho
  answer := h.answer_step ho
  one := one_step

theorem inv_reset : Inv (State.reset N) where
  strobe := by simp [State.reset, FsTx.State.reset]
  line := by constructor <;> simp [State.reset, FsRx.State.reset, FsRx.SE0]
  stage := .rest ⟨rfl, rfl, rfl⟩
  answer := by simp [Answering, State.reset, InPe.State.reset, OutPe.State.reset]
  one := by simp [State.reset, InPe.State.reset]

/-- The two engines never start a packet together. -/
theorem Inv.not_both (h : Inv s) :
    ¬ ((inComb s i).txPktStart = true ∧ (outComb s i).txPktStart = true) := by
  rintro ⟨hin, hout⟩
  have hnow := (in_txPktStart_iff s i).1 hin
  obtain ⟨_, hdata, _⟩ | ⟨hend, _⟩ := out_txPktStart_cases hout
  · have hpacket := (h.answer (.inl hnow)).2.1
    rw [(FsRx.packetEnd_cases (packetEnd_of_dataPacket hdata)).2.1] at hpacket
    exact absurd hpacket (by simp)
  · exact h.one ⟨hnow, hend⟩

/-- In every run without the oscillator test the engines start one packet at a time, and only
when the transmitter waits for one. The multiplexer passes on the identifier of the engine that
starts the packet. -/
theorem one_transmission (is : List (Input N)) (ho : ∀ j ∈ is, j.txOscTestMode = false)
    (i : Input N) :
    let s := Clocked.run NbPe.step (State.reset N) is
    ¬ ((inComb s i).txPktStart = true ∧ (outComb s i).txPktStart = true) ∧
      ((inComb s i).txPktStart = true ∨ (outComb s i).txPktStart = true →
        s.tx.state = .idle ∧ s.tx.outState = .osIdle ∧ s.tx.oe = false ∧
          txPktStart s i = true ∧
          txPid s i = if (inComb s i).txPktStart then (inComb s i).txPid
            else (outComb s i).txPid) := by
  intro s
  have hinv : Inv s := Clocked.run_invariant Inv (fun j => j.txOscTestMode = false)
    (fun _ _ hj h => h.step hj) inv_reset is ho
  refine ⟨hinv.not_both, fun hstart => ?_⟩
  have hboth : txPktStart s i = true := by rw [txPktStart, Bool.or_eq_true]; exact hstart
  obtain ⟨hrest, _⟩ := hinv.start hboth
  refine ⟨hrest.state, hrest.outState, hrest.oe, hboth, ?_⟩
  cases hin : (inComb s i).txPktStart with
  | true =>
      have hout : (outComb s i).txPktStart = false := by
        rw [← Bool.not_eq_true]
        exact fun hout => hinv.not_both ⟨hin, hout⟩
      simp [txPid, hout]
  | false =>
      rw [hin] at hstart
      have hout : (outComb s i).txPktStart = true := by simpa using hstart
      simp [txPid, hout]

end

/-! ### A host on the line -/

open LineCode

/-- A cycle that shows a symbol to a device in the default state, whose endpoints are enabled
control endpoints with an empty packet to send. -/
def hostInput (N : ℕ) (l : Line) : Input N where
  linkReset := false
  linkActive := true
  devAddr := 0
  cfgEopSingleBit := false
  cfgUseDiffRcvr := false
  cfgPinflip := false
  txOscTestMode := false
  diffRxOk := true
  usbD := l == .j
  usbDp := l == .j
  usbDn := l == .k
  outDatatog := none
  inDatatog := none
  outEpEnabled := fun _ => true
  outEpControl := fun _ => true
  outEpFull := fun _ => false
  outEpStall := fun _ => false
  outEpIso := fun _ => false
  inEpEnabled := fun _ => true
  inEpStall := fun _ => false
  inEpHasData := fun _ => true
  inEpData := 0
  inEpDataDone := fun _ => true
  inEpIso := fun _ => false

def hostCycles (N : ℕ) (ls : List Line) : List (Input N) :=
  ls.flatMap fun l => List.replicate 4 (hostInput N l)

/-- A packet on the line, from SYNC to EOP. -/
def hostPacket (bits : List Bool) : List Line :=
  packetLines (List.replicate 7 false ++ true :: bits)

/-- A token for endpoint 0 of address 0. -/
def hostToken (pid : BitVec 4) : List Bool :=
  FsRx.pidBits pid ++ List.replicate 11 false ++ FsRx.crc5Bits (List.replicate 11 false)

/-- The device answers an IN token from the transmitter's idle state. -/
theorem one_transmission_inToken :
    let is := hostCycles 1 (hostPacket (hostToken usbPidIn))
    (inComb (Clocked.run NbPe.step (State.reset 1) is) (hostInput 1 .j)).txPktStart = true ∧
      (Clocked.run NbPe.step (State.reset 1) is).tx.state = .idle := by
  have hstart : (inComb (Clocked.run NbPe.step (State.reset 1)
      (hostCycles 1 (hostPacket (hostToken usbPidIn)))) (hostInput 1 .j)).txPktStart = true := by
    decide +kernel
  refine ⟨hstart, ((one_transmission _ ?_ (hostInput 1 .j)).2 (.inl hstart)).1⟩
  intro j hj
  obtain ⟨l, -, hl⟩ := List.mem_flatMap.1 hj
  rw [List.eq_of_mem_replicate hl]
  rfl

end UsbDev.NbPe
