import UsbDev.RxDetect

/-!
# The pace of the receiver

How fast `usb_fs_rx` can collect the bits of a packet, for any samples of the
line: a symbol other than SE0 and the transition state comes with a bit strobe,
and a muted receiver sees ones only, which end the packet with a stuffing
violation. `payload` counts the bits after the identifier.
-/
namespace UsbDev.FsRx

variable {s : State} {i : Input}

/-! ### Sampling -/

theorem bitPhase_step (hl : i.linkReset = false) : (step s i).bitPhase = bitPhaseD s i := by
  simp [step, hl]

/-- The two cycles after a strobe or a sample are no samples. -/
theorem bitPhase_after_valid (hv : s.bitPhase = 1) :
    (step s i).bitPhase = 2 ∧ lineStateRx s i ≠ DT ∧ i.linkReset = false ∨
      (step s i).bitPhase = 0 := by
  cases hl : i.linkReset with
  | true => exact .inr (by simp [step, hl, State.reset])
  | false =>
      rw [bitPhase_step hl, bitPhaseD, hv]
      by_cases hd : lineStateRx s i = DT
      · exact .inr (if_pos hd)
      · exact .inl ⟨by rw [if_neg hd]; rfl, hd, rfl⟩

theorem bitPhase_after_strobe (hv : s.bitPhase = 2) :
    (step s i).bitPhase = 3 ∨ (step s i).bitPhase = 0 := by
  cases hl : i.linkReset with
  | true => exact .inr (by simp [step, hl, State.reset])
  | false =>
      rw [bitPhase_step hl, bitPhaseD, hv]
      split_ifs
      · exact .inr rfl
      · exact .inl rfl

/-- A strobe follows a sample. -/
theorem bitPhase_of_strobe (h : (step s i).bitPhase = 2) : s.bitPhase = 1 := by
  cases hl : i.linkReset with
  | true => simp [step, hl, State.reset] at h
  | false =>
      rw [bitPhase_step hl, bitPhaseD] at h
      split_ifs at h with hd
      · exact absurd h (by decide)
      · revert h
        generalize s.bitPhase = p
        revert p
        decide

theorem lineStateValid_iff : lineStateValid s = true ↔ s.bitPhase = 1 := by
  simp [lineStateValid]

theorem lineStateValid_of_ne (h : s.bitPhase ≠ 1) : lineStateValid s = false := by
  rw [← Bool.not_eq_true, lineStateValid_iff]
  exact h

theorem bitStrobe_iff : bitStrobe s = true ↔ s.bitPhase = 2 := by
  simp [bitStrobe]

/-- A sample follows phase 0. -/
theorem bitPhase_of_valid_step (h : lineStateValid (step s i) = true) :
    i.linkReset = false ∧ s.bitPhase = 0 := by
  rw [lineStateValid_iff] at h
  cases hl : i.linkReset with
  | true => simp [step, hl, State.reset] at h
  | false =>
      refine ⟨rfl, ?_⟩
      rw [bitPhase_step hl, bitPhaseD] at h
      split_ifs at h with hd
      · exact absurd h (by decide)
      · revert h
        generalize s.bitPhase = p
        revert p
        decide

/-- A packet starts or ends only with a sample. -/
theorem packetValidD_of_not_valid (h : s.bitPhase ≠ 1) (i : Input) :
    packetValidD s i = s.packetValid := by
  rw [packetValidD, lineStateValid_of_ne h]
  rfl

theorem packetEnd_cases (h : packetEnd s i = true) :
    s.bitPhase = 1 ∧ s.packetValid = true ∧ packetValidD s i = false := by
  simp only [packetEnd, Bool.and_eq_true, Bool.not_eq_true'] at h
  refine ⟨?_, h.2, h.1⟩
  by_contra hne
  rw [packetValidD_of_not_valid hne, h.2] at h
  exact absurd h.1 (by simp)

theorem packetValid_step (hl : i.linkReset = false) :
    (step s i).packetValid = packetValidD s i := by
  simp [step, hl]

theorem packetValid_step_of_end (h : packetEnd s i = true) : (step s i).packetValid = false := by
  cases hl : i.linkReset with
  | true => simp [step, hl, State.reset]
  | false => rw [packetValid_step hl, (packetEnd_cases h).2.2]

theorem packetValid_step_of_not_valid (h : s.bitPhase ≠ 1) (hp : s.packetValid = false) :
    (step s i).packetValid = false := by
  cases hl : i.linkReset with
  | true => simp [step, hl, State.reset]
  | false => rw [packetValid_step hl, packetValidD_of_not_valid h, hp]

/-! ### Counting bits -/

/-- The bits after the identifier of the packet being received, up to 16. -/
def payload (s : State) : ℕ :=
  if s.packetValid then if s.rxDataLen16 then 16 else s.rxDataLen.toNat else 0

theorem payload_of_not_packetValid (h : s.packetValid = false) : payload s = 0 := by
  simp [payload, h]

/-- A token or a DATA packet has at least 16 of them. -/
theorem payload_of_len16 (hp : s.packetValid = true) (hl : s.rxDataLen16 = true) :
    payload s = 16 := by
  simp [payload, hp, hl]

/-- A cycle adds at most the bit it decodes. -/
theorem payload_step_le : payload (step s i) ≤ payload s + if dvalid s then 1 else 0 := by
  cases hl : i.linkReset with
  | true => simp [payload, step, hl, State.reset]
  | false =>
      by_cases hnext : packetValidD s i = true
      · have hstep : payload (step s i) =
            if rxDataLen16D s i then 16 else (rxDataLenD s i).toNat := by
          simp [payload, step, hl, hnext]
        rw [hstep]
        by_cases hp : s.packetValid = true
        · have hns : packetStart s i = false := by simp [packetStart, hp]
          rw [payload, if_pos hp, rxDataLen16D, rxDataLenD, hns]
          have hlt := s.rxDataLen.isLt
          cases hd : dvalid s with
          | false => simp
          | true =>
              cases hc : pidComplete s with
              | false =>
                  simp only [Bool.and_false, Bool.false_eq_true, if_false, if_true]
                  omega
              | true =>
                  simp only [Bool.and_self, if_true, Bool.or_eq_true, beq_iff_eq]
                  by_cases h16 : s.rxDataLen16 = true
                  · simp [h16]
                  · by_cases h15 : s.rxDataLen = 0b1111#4
                    · simp [h16, h15]
                    · simp only [h16, h15, or_self, Bool.false_eq_true, if_false]
                      rw [BitVec.toNat_add]
                      exact Nat.mod_le _ _
        · have hd : dvalid s = false := by simp [dvalid, dvalidRaw, hp]
          have hns : packetStart s i = true := by
            simp [packetStart, hnext, hp]
          simp [rxDataLen16D, rxDataLenD, hd, hns]
      · have hpv : (step s i).packetValid = false := by
          rw [packetValid_step hl]
          simpa using hnext
        rw [payload_of_not_packetValid hpv]
        omega

theorem payload_step_le_succ (s : State) (i : Input) : payload (step s i) ≤ payload s + 1 := by
  have hstep := payload_step_le (s := s) (i := i)
  split_ifs at hstep <;> omega

theorem payload_step_of_not_dvalid (i : Input) (hd : dvalid s = false) :
    payload (step s i) ≤ payload s := by
  have hstep := payload_step_le (s := s) (i := i)
  simpa [hd] using hstep

/-- Bits come with samples of a symbol pair. -/
theorem dvalid_cases (h : dvalid s = true) :
    s.bitPhase = 1 ∧ symbolPair s = true ∧ s.bitstuffHistory.extractLsb' 0 6 ≠ 0b111111#6 := by
  simp only [dvalid, dvalidRaw, Bool.and_eq_true, Bool.not_eq_eq_eq_not, Bool.not_true,
    beq_eq_false_iff_ne] at h
  exact ⟨lineStateValid_iff.1 h.1.1.2, h.1.2, h.2⟩

theorem dvalid_of_not_valid (h : s.bitPhase ≠ 1) : dvalid s = false := by
  rw [← Bool.not_eq_true]
  exact fun hd => h (dvalid_cases hd).1

/-! ### Bits and strobes -/

/-- The bits that may come before their strobes: one in the cycle of a strobe, and one when a
sample of the transition state interrupts the symbols. -/
def slack (s : State) : ℕ := (if bitStrobe s then 1 else 0) + if symbolPair s then 0 else 1

theorem lineHistory_step (hl : i.linkReset = false) :
    (step s i).lineHistory = lineHistoryD s i := by simp [step, hl]

theorem lineHistoryD_of_not_valid (h : s.bitPhase ≠ 1) (i : Input) :
    lineHistoryD s i = s.lineHistory := by
  rw [lineHistoryD, lineStateValid_of_ne h]
  rfl

theorem symbolPair_step_of_not_valid (hl : i.linkReset = false) (h : s.bitPhase ≠ 1) :
    symbolPair (step s i) = symbolPair s := by
  rw [symbolPair, lineHistory_step hl, lineHistoryD_of_not_valid h]
  rfl

/-- The last two symbols after a sample. -/
theorem low_step_of_valid (hl : i.linkReset = false) (hv : s.bitPhase = 1) :
    (step s i).lineHistory.extractLsb' 0 4 =
      s.lineHistory.extractLsb' 0 2 ++ (lineStateRx s i).extractLsb' 0 2 := by
  rw [lineHistory_step hl, lineHistoryD, lineStateValid_iff.2 hv, if_pos rfl]
  exact history_push _ _ _ _ (low_split s.lineHistory)

/-- A sample of the transition state is no symbol. -/
theorem symbolPair_step_of_transition (hl : i.linkReset = false) (hv : s.bitPhase = 1)
    (hd : lineStateRx s i = DT) : symbolPair (step s i) = false := by
  have htable : ∀ a : BitVec 2, (a ++ DT.extractLsb' 0 2 == 0b0101#4 ||
      a ++ DT.extractLsb' 0 2 == 0b0110#4 || a ++ DT.extractLsb' 0 2 == 0b1001#4 ||
      a ++ DT.extractLsb' 0 2 == 0b1010#4) = false := by decide
  rw [symbolPair, low_step_of_valid hl hv, hd]
  exact htable _

/-- A packet has at most one bit for each strobe since a point without bits, and the slack. -/
theorem payload_strobe {n : ℕ} (hl : i.linkReset = false) (h : payload s ≤ n + slack s) :
    payload (step s i) ≤ (n + if bitStrobe s then 1 else 0) + slack (step s i) := by
  by_cases hv : s.bitPhase = 1
  · have hstrobe : bitStrobe s = false := by simp [bitStrobe, hv]
    -- a bit uses up the pair of symbols that the slack does not count
    have hbit : payload (step s i) ≤ n + 1 := by
      cases hd : dvalid s with
      | false =>
          have hstep := payload_step_of_not_dvalid i hd
          simp only [slack, hstrobe, Bool.false_eq_true, if_false] at h
          split_ifs at h <;> omega
      | true =>
          have hstep := payload_step_le_succ s i
          simp only [slack, hstrobe, (dvalid_cases hd).2.1, Bool.false_eq_true, if_false,
            if_true] at h
          omega
    have hslack : 1 ≤ slack (step s i) := by
      by_cases hdt : lineStateRx s i = DT
      · have hpair := symbolPair_step_of_transition hl hv hdt
        simp [slack, hpair]
      · have hphase : (step s i).bitPhase = 2 := by
          rw [bitPhase_step hl, bitPhaseD, if_neg hdt, hv]
          rfl
        simp [slack, bitStrobe_iff.2 hphase]
    rw [hstrobe]
    simp only [Bool.false_eq_true, if_false]
    omega
  · have hstep := payload_step_of_not_dvalid i (dvalid_of_not_valid hv)
    have hpair := symbolPair_step_of_not_valid hl hv
    have hnext : bitStrobe (step s i) = false := by
      rw [← Bool.not_eq_true, bitStrobe_iff]
      exact fun hp => hv (bitPhase_of_strobe hp)
    simp only [slack, hpair, hnext, Bool.false_eq_true, if_false] at h ⊢
    omega

/-! ### The muted receiver -/

/-- The registers of line state recovery hold a pair or the transition state. -/
structure LineOk (s : State) : Prop where
  lineState : s.lineStateQ = DT ∨ s.lineStateQ.getLsbD 2 = false
  diffState : s.diffStateQ = DT ∨ s.diffStateQ.getLsbD 2 = false

/-- The receiver sees J, or the transition to it. -/
structure Settling (s : State) : Prop where
  lineState : s.lineStateQ = DT ∨ s.lineStateQ = DJ
  diffState : s.diffStateQ = DT ∨ s.diffStateQ = DJ

structure SeesJ (s : State) : Prop where
  lineState : s.lineStateQ = DJ
  diffState : s.diffStateQ = DJ

theorem lineStateD_ok : ∀ (q : BitVec 3) (pair : BitVec 2), q = DT ∨ q.getLsbD 2 = false →
    lineStateD q pair = DT ∨ (lineStateD q pair).getLsbD 2 = false := by decide

theorem lineStateD_muted : ∀ q : BitVec 3, q = DT ∨ q.getLsbD 2 = false →
    lineStateD q 0b10#2 = DT ∨ lineStateD q 0b10#2 = DJ := by decide

theorem lineStateD_settling : ∀ q : BitVec 3, q = DT ∨ q = DJ →
    lineStateD q 0b10#2 = DJ := by decide

theorem LineOk.step (h : LineOk s) (i : Input) : LineOk (step s i) := by
  cases hl : i.linkReset with
  | true => constructor <;> simp [FsRx.step, hl, State.reset, SE0]
  | false =>
      constructor
      · simpa [FsRx.step, hl] using lineStateD_ok _ (dpair i) h.lineState
      · simpa [FsRx.step, hl] using lineStateD_ok _ (ddiff i) h.diffState

theorem dpair_muted (ht : i.txEn = true) : dpair i = 0b10#2 := by simp [dpair, ht, DJ]

theorem ddiff_muted (ht : i.txEn = true) : ddiff i = 0b10#2 := by simp [ddiff, ht, DJ]

theorem LineOk.mute (h : LineOk s) (hl : i.linkReset = false) (ht : i.txEn = true) :
    Settling (FsRx.step s i) := by
  constructor
  · simpa [FsRx.step, hl, dpair_muted ht] using lineStateD_muted _ h.lineState
  · simpa [FsRx.step, hl, ddiff_muted ht] using lineStateD_muted _ h.diffState

theorem Settling.step (h : Settling s) (hl : i.linkReset = false) (ht : i.txEn = true) :
    SeesJ (step s i) := by
  constructor
  · simpa [FsRx.step, hl, dpair_muted ht] using lineStateD_settling _ h.lineState
  · simpa [FsRx.step, hl, ddiff_muted ht] using lineStateD_settling _ h.diffState

theorem SeesJ.settling (h : SeesJ s) : Settling s := ⟨.inr h.lineState, .inr h.diffState⟩

theorem Settling.lineStateRx (h : Settling s) (i : Input) :
    lineStateRx s i = DT ∨ lineStateRx s i = DJ := by
  unfold FsRx.lineStateRx
  split_ifs
  · exact h.lineState
  · exact h.diffState
  · exact h.lineState

theorem SeesJ.lineStateRx (h : SeesJ s) (i : Input) : lineStateRx s i = DJ := by
  simp [FsRx.lineStateRx, h.lineState, h.diffState]

/-- The bits a packet can have while the receiver is muted: besides those received before, two
that end in the symbols before the muting, and a run of ones. -/
def mutedBound (s : State) : ℕ :=
  if s.lineHistory.extractLsb' 0 4 = 0b1010#4 then 6 + onesReceived s.bitstuffHistory
  else if s.lineHistory.extractLsb' 0 2 = 0b01#2 then 4
  else 5

theorem onesReceived_le : ∀ h : BitVec 7, onesReceived h ≤ 7 := by decide +kernel

theorem mutedBound_le (s : State) : mutedBound s ≤ 13 := by
  have hle := onesReceived_le s.bitstuffHistory
  unfold mutedBound
  split_ifs <;> omega

theorem four_le_mutedBound (s : State) : 4 ≤ mutedBound s := by
  unfold mutedBound
  split_ifs <;> omega

/-- A symbol pair ends in J or K. -/
theorem low_of_symbolPair (h : symbolPair s = true) :
    s.lineHistory.extractLsb' 0 2 = 0b01#2 ∨ s.lineHistory.extractLsb' 0 2 = 0b10#2 := by
  rw [symbolPair, low_split] at h
  revert h
  generalize s.lineHistory.extractLsb' 2 2 = a
  generalize s.lineHistory.extractLsb' 0 2 = b
  revert a b
  decide

/-- The last symbol after a sample. -/
theorem last_step_of_valid (hl : i.linkReset = false) (hv : s.bitPhase = 1) :
    (step s i).lineHistory.extractLsb' 0 2 = (lineStateRx s i).extractLsb' 0 2 := by
  rw [lineHistory_step hl, lineHistoryD, lineStateValid_iff.2 hv, if_pos rfl]
  refine BitVec.eq_of_getLsbD_eq fun k hk => ?_
  rw [BitVec.getLsbD_extractLsb', BitVec.getLsbD_append]
  simp [hk]

theorem five_le_mutedBound (h : s.lineHistory.extractLsb' 0 2 ≠ 0b01#2) : 5 ≤ mutedBound s := by
  rw [mutedBound, if_neg h]
  split_ifs <;> omega

/-- While the receiver settles, a sample is J or the transition state. -/
theorem Settling.payload_step (h : Settling s) (hl : i.linkReset = false) (hp : payload s ≤ 4) :
    payload (FsRx.step s i) ≤ mutedBound (FsRx.step s i) := by
  cases hd : dvalid s with
  | false =>
      have hstep := payload_step_of_not_dvalid i hd
      have hbound := four_le_mutedBound (FsRx.step s i)
      omega
  | true =>
      have hstep := payload_step_le_succ s i
      have hbound : 5 ≤ mutedBound (FsRx.step s i) := by
        apply five_le_mutedBound
        rw [last_step_of_valid hl (dvalid_cases hd).1]
        obtain hx | hx := h.lineStateRx i <;> rw [hx] <;> decide
      omega

/-- The last two symbols are J. -/
theorem mutedBound_jj (h : s.lineHistory.extractLsb' 0 4 = 0b1010#4) :
    mutedBound s = 6 + onesReceived s.bitstuffHistory := by
  rw [mutedBound, if_pos h]

theorem last_of_jj : ∀ a b : BitVec 2, a ++ b = 0b1010#4 → b = 0b10#2 := by decide

/-- In a sequence of J every decoded bit is a one. -/
theorem SeesJ.payload_step_jj (hl : i.linkReset = false)
    (he : packetEnd s i = false) (hjj : s.lineHistory.extractLsb' 0 4 = 0b1010#4)
    (hp : payload s ≤ 6 + onesReceived s.bitstuffHistory) :
    payload (FsRx.step s i) ≤ 6 + onesReceived (FsRx.step s i).bitstuffHistory := by
  have hdin : din s = true := by simp [din, hjj]
  have hle := onesReceived_le s.bitstuffHistory
  have hhist : (FsRx.step s i).bitstuffHistory = if dvalidRaw s then
      s.bitstuffHistory.extractLsb' 0 6 ++ BitVec.ofBool (din s) else s.bitstuffHistory := by
    rw [step_bitstuffHistory s hl, bitstuffHistoryD, he]
    rfl
  rw [hhist, hdin]
  cases hraw : dvalidRaw s with
  | false => exact (payload_step_of_not_dvalid i (by simp [dvalid, hraw])).trans hp
  | true =>
      rw [if_pos rfl, onesReceived_push, if_pos rfl]
      cases hd : dvalid s with
      | false =>
          have hstep := payload_step_of_not_dvalid i hd
          omega
      | true =>
          have hstep := payload_step_le_succ s i
          have hsix : onesReceived s.bitstuffHistory < 6 := by
            have hne := (dvalid_cases hd).2.2
            rw [← beq_eq_false_iff_ne, six_ones, decide_eq_false_iff_not] at hne
            omega
          omega

/-- A receiver that sees J for good collects ones only. -/
theorem SeesJ.payload_step (h : SeesJ s) (hl : i.linkReset = false)
    (hp : payload s ≤ mutedBound s) : payload (FsRx.step s i) ≤ mutedBound (FsRx.step s i) := by
  cases he : packetEnd s i with
  | true =>
      rw [payload_of_not_packetValid (packetValid_step_of_end he)]
      omega
  | false =>
      by_cases hv : s.bitPhase = 1
      · have hlow := low_step_of_valid (i := i) hl hv
        have hlast := last_step_of_valid (i := i) hl hv
        rw [h.lineStateRx i] at hlow hlast
        by_cases hjj : s.lineHistory.extractLsb' 0 4 = 0b1010#4
        · have hj := last_of_jj _ _ ((low_split s.lineHistory).symm.trans hjj)
          rw [mutedBound_jj hjj] at hp
          rw [mutedBound_jj (by rw [hlow, hj]; rfl)]
          exact SeesJ.payload_step_jj hl he hjj hp
        · rw [mutedBound, if_neg hjj] at hp
          cases hd : dvalid s with
          | false =>
              have hstep := payload_step_of_not_dvalid i hd
              have hbound := five_le_mutedBound (s := FsRx.step s i) (by rw [hlast]; decide)
              split_ifs at hp <;> omega
          | true =>
              have hstep := payload_step_le_succ s i
              obtain hk | hj := low_of_symbolPair (dvalid_cases hd).2.1
              · have hbound := five_le_mutedBound (s := FsRx.step s i) (by rw [hlast]; decide)
                rw [if_pos hk] at hp
                omega
              · rw [mutedBound_jj (by rw [hlow, hj]; rfl)]
                rw [hj, if_neg (by decide)] at hp
                omega
      · have hraw : dvalidRaw s = false := by simp [dvalidRaw, lineStateValid_of_ne hv]
        have hhist : (FsRx.step s i).bitstuffHistory = s.bitstuffHistory := by
          rw [step_bitstuffHistory s hl, bitstuffHistoryD, he, hraw]
          rfl
        have hsame : mutedBound (FsRx.step s i) = mutedBound s := by
          rw [mutedBound, mutedBound, lineHistory_step hl, lineHistoryD_of_not_valid hv, hhist]
        have hstep := payload_step_of_not_dvalid i (dvalid_of_not_valid hv)
        omega

end UsbDev.FsRx
