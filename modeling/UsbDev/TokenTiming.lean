import UsbDev.RxPace

/-!
# How soon a token can end

A token has at least six symbols of SYNC, eight bits of identifier and sixteen
more, and no two symbols are sampled within less than three cycles. `tokenIn` is
a lower bound, read from the registers of `usb_fs_rx`, on the cycles until a
packet with payload can end; it falls by at most one in a cycle. For the muted
receiver `stale` bounds how long a packet that was cut off is still received.
-/
namespace UsbDev.FsRx

open LineCode

variable {s : State} {i : Input}

/-! ### SYNC and the identifier -/

/-- The symbols of KJKJKK that the history ends with. -/
def syncSeen (h : BitVec 12) : ℕ :=
  if h = syncHistory then 6
  else if h.extractLsb' 0 10 = 0b0110011001#10 then 5
  else if h.extractLsb' 0 8 = 0b01100110#8 then 4
  else if h.extractLsb' 0 6 = 0b011001#6 then 3
  else if h.extractLsb' 0 4 = 0b0110#4 then 2
  else if h.extractLsb' 0 2 = 0b01#2 then 1
  else 0

theorem syncSeen_le (h : BitVec 12) : syncSeen h ≤ 6 := by
  unfold syncSeen
  split_ifs <;> omega

theorem low_of_push {h : BitVec 12} {x : BitVec 2} {n : ℕ} {c : BitVec (n + 2)} (hn : n ≤ 10)
    (hp : (pushSample h x).extractLsb' 0 (n + 2) = c) :
    h.extractLsb' 0 n = c.extractLsb' 2 n := by
  rw [← hp, pushSample_low h x hn]
  exact BitVec.extractLsb'_append_eq_left.symm

theorem le_syncSeen {h : BitVec 12} {n : ℕ}
    (hn : n = 5 ∧ h.extractLsb' 0 10 = 0b0110011001#10 ∨
      n = 4 ∧ h.extractLsb' 0 8 = 0b01100110#8 ∨ n = 3 ∧ h.extractLsb' 0 6 = 0b011001#6 ∨
      n = 2 ∧ h.extractLsb' 0 4 = 0b0110#4 ∨ n = 1 ∧ h.extractLsb' 0 2 = 0b01#2) :
    n ≤ syncSeen h := by
  unfold syncSeen
  obtain ⟨rfl, hl⟩ | ⟨rfl, hl⟩ | ⟨rfl, hl⟩ | ⟨rfl, hl⟩ | ⟨rfl, hl⟩ := hn <;>
    rw [if_pos hl] <;> split_ifs <;> omega

/-- A sample adds at most one symbol. -/
theorem syncSeen_push (h : BitVec 12) (x : BitVec 2) :
    syncSeen (pushSample h x) ≤ syncSeen h + 1 := by
  have hall : (pushSample h x).extractLsb' 0 (10 + 2) = pushSample h x :=
    BitVec.extractLsb'_eq_self
  rw [syncSeen]
  split_ifs with h6 h5 h4 h3 h2 h1
  · have hlow := low_of_push le_rfl (hall.trans h6)
    exact Nat.succ_le_succ (le_syncSeen (.inl ⟨rfl, hlow⟩))
  · have hlow := low_of_push (n := 8) (by decide) h5
    exact Nat.succ_le_succ (le_syncSeen (.inr (.inl ⟨rfl, hlow⟩)))
  · have hlow := low_of_push (n := 6) (by decide) h4
    exact Nat.succ_le_succ (le_syncSeen (.inr (.inr (.inl ⟨rfl, hlow⟩))))
  · have hlow := low_of_push (n := 4) (by decide) h3
    exact Nat.succ_le_succ (le_syncSeen (.inr (.inr (.inr (.inl ⟨rfl, hlow⟩)))))
  · have hlow := low_of_push (n := 2) (by decide) h2
    exact Nat.succ_le_succ (le_syncSeen (.inr (.inr (.inr (.inr ⟨rfl, hlow⟩)))))
  · omega
  · omega

/-- The bits of the identifier that are still to come, below the sentinel. -/
def pidLeft (x : BitVec 9) : ℕ := (((bitsLsb x).take 8).takeWhile (!·)).length

theorem pidLeft_le (x : BitVec 9) : pidLeft x ≤ 8 :=
  (List.takeWhile_sublist _).length_le.trans (List.length_take_le 8 _)

theorem pidLeft_push : ∀ (x : BitVec 9) (b : Bool),
    pidLeft x ≤ pidLeft (BitVec.ofBool b ++ x.extractLsb' 1 8) + 1 := by decide +kernel

theorem pidLeft_of_complete : ∀ x : BitVec 9, x.getLsbD 0 = true → pidLeft x = 0 := by
  decide +kernel

/-! ### The bound -/

/-- The symbols of a token that are still to be decoded. -/
def symbolsLeft (s : State) : ℕ :=
  if s.packetValid then
    if s.rxDataLen16 then 0 else pidLeft s.fullPid + (16 - s.rxDataLen.toNat)
  else 30 - syncSeen s.lineHistory

/-- The symbols that come before their strobes, as in `slack`. -/
def lead (s : State) : ℕ := if s.packetValid then slack s else if bitStrobe s then 1 else 0

/-- The cycles to the next strobe, at the earliest. -/
def strobeIn (s : State) : ℕ :=
  if s.bitPhase = 2 then 0 else if s.bitPhase = 1 then 1 else if s.bitPhase = 0 then 2 else 3

/-- The cycles until a token can end, at the earliest. -/
def tokenIn (s : State) : ℕ := 3 * (symbolsLeft s + lead s) + strobeIn s - 4

theorem strobeIn_step (s : State) (i : Input) :
    strobeIn s ≤ strobeIn (step s i) + 1 ∧ (bitStrobe s = true → 2 ≤ strobeIn (step s i)) := by
  have htable : ∀ p : BitVec 2, ∀ q ∈ [0, p + 1],
      (if p = 2 then 0 else if p = 1 then 1 else if p = 0 then 2 else 3) ≤
          (if q = 2 then 0 else if q = 1 then 1 else if q = 0 then 2 else 3) + 1 ∧
        (p = 2 → 2 ≤ if q = 2 then 0 else if q = 1 then 1 else if q = 0 then 2 else 3) := by
    decide
  rw [bitStrobe_iff]
  refine htable s.bitPhase (step s i).bitPhase ?_
  cases hl : i.linkReset with
  | true => simp [step, hl, State.reset]
  | false =>
      rw [bitPhase_step hl, bitPhaseD]
      split_ifs <;> simp

/-- The history ends with a symbol of SYNC or none is seen. -/
theorem syncSeen_of_not_symbol {h : BitVec 12} (hlow : h.extractLsb' 0 2 = 0b00#2) :
    syncSeen h = 0 := by
  have hcut {n : ℕ} {c : BitVec n} (hn : 2 ≤ n) (hc : h.extractLsb' 0 n = c) :
      c.extractLsb' 0 2 = 0b00#2 := by rw [← hc, low_of_low h hn, hlow]
  have hall : h.extractLsb' 0 12 = h := BitVec.extractLsb'_eq_self
  unfold syncSeen
  split_ifs with h6 h5 h4 h3 h2 h1
  · exact absurd (hcut (by decide) (hall.trans h6)) (by decide)
  · exact absurd (hcut (by decide) h5) (by decide)
  · exact absurd (hcut (by decide) h4) (by decide)
  · exact absurd (hcut (by decide) h3) (by decide)
  · exact absurd (hcut (by decide) h2) (by decide)
  · exact absurd (hcut (by decide) h1) (by decide)
  · rfl

theorem symbolsLeft_of_valid (h : s.packetValid = true) : symbolsLeft s ≤ 24 := by
  have hpid := pidLeft_le s.fullPid
  rw [symbolsLeft, if_pos h]
  split_ifs <;> omega

theorem symbolsLeft_of_not_valid (h : s.packetValid = false) :
    symbolsLeft s = 30 - syncSeen s.lineHistory := by
  simp [symbolsLeft, h]

/-- Between two samples nothing is decoded. -/
theorem symbolsLeft_of_hold (hl : i.linkReset = false) (hv : s.bitPhase ≠ 1) :
    symbolsLeft (step s i) = symbolsLeft s := by
  have hd := dvalid_of_not_valid hv
  have hpv := packetValidD_of_not_valid hv i
  have hns : packetStart s i = false := by
    rw [packetStart, hpv]
    simp
  simp [symbolsLeft, step, hl, hpv, rxDataLen16D, rxDataLenD, fullPidD, lineHistoryD_of_not_valid hv,
    hd, hns]

theorem lead_of_hold (hl : i.linkReset = false) (hv : s.bitPhase ≠ 1) :
    lead s = lead (step s i) + if bitStrobe s then 1 else 0 := by
  have hpv : (step s i).packetValid = s.packetValid := by
    rw [packetValid_step hl, packetValidD_of_not_valid hv]
  have hnext : bitStrobe (step s i) = false := by
    rw [← Bool.not_eq_true, bitStrobe_iff]
    exact fun hp => hv (bitPhase_of_strobe hp)
  simp only [lead, slack, hpv, hnext, symbolPair_step_of_not_valid hl hv]
  split_ifs <;> simp_all

/-- A sample of the transition state is no symbol, any other one comes before a strobe. -/
theorem sample_cases (hl : i.linkReset = false) (hv : s.bitPhase = 1) :
    bitStrobe (step s i) = true ∨
      bitStrobe (step s i) = false ∧ symbolPair (step s i) = false ∧
        (step s i).lineHistory.extractLsb' 0 2 = 0b00#2 := by
  by_cases hd : lineStateRx s i = DT
  · refine .inr ⟨?_, symbolPair_step_of_transition hl hv hd, ?_⟩
    · simp [bitStrobe, bitPhase_step hl, bitPhaseD, hd]
    · rw [last_step_of_valid hl hv, hd]
      rfl
  · refine .inl ?_
    simp [bitStrobe, bitPhase_step hl, bitPhaseD, hd, hv]

/-- A sample completes one symbol, if the packet goes on. -/
theorem symbolsLeft_of_sample (hl : i.linkReset = false) (hp : s.packetValid = true)
    (hn : (step s i).packetValid = true) :
    symbolsLeft s ≤ symbolsLeft (step s i) + if dvalid s then 1 else 0 := by
  have hns := packetStart_of_packetValid (i := i) hp
  have hlt := s.rxDataLen.isLt
  rw [symbolsLeft, symbolsLeft, if_pos hp, if_pos hn, step_rxDataLen16 s hl, step_rxDataLen s hl,
    step_fullPid s hl, rxDataLen16D, rxDataLenD, fullPidD, hns]
  cases hd : dvalid s with
  | false => simp
  | true =>
      cases hc : pidComplete s with
      | false =>
          have hpid := pidLeft_push s.fullPid (din s)
          simp only [Bool.and_false, Bool.not_false, Bool.and_true, Bool.false_eq_true, if_false,
            if_true]
          split_ifs <;> omega
      | true =>
          have hpid : pidLeft s.fullPid = 0 := pidLeft_of_complete _ hc
          simp only [Bool.and_self, Bool.not_true, Bool.and_false, Bool.false_eq_true, if_false,
            if_true, hpid, Bool.or_eq_true, beq_iff_eq]
          by_cases h16 : s.rxDataLen16 = true
          · simp [h16]
          · by_cases h15 : s.rxDataLen = 0b1111#4
            · simp [h16, h15]
            · have hne : s.rxDataLen.toNat ≠ 15 := fun h => h15 (BitVec.eq_of_toNat_eq h)
              simp only [h16, h15, or_self, Bool.false_eq_true, if_false]
              rw [BitVec.toNat_add]
              have hone : BitVec.toNat (1 : BitVec 4) = 1 := rfl
              omega

/-- A cycle completes at most one symbol, and only with a strobe. -/
theorem symbols_step (hl : i.linkReset = false) :
    symbolsLeft s + lead s ≤
      symbolsLeft (step s i) + lead (step s i) + if bitStrobe s then 1 else 0 := by
  by_cases hv : s.bitPhase = 1
  · have hstrobe : bitStrobe s = false := by simp [bitStrobe, hv]
    rw [hstrobe]
    simp only [Bool.false_eq_true, if_false, Nat.add_zero]
    have hsample := sample_cases (i := i) hl hv
    have hhist : (step s i).lineHistory =
        pushSample s.lineHistory ((lineStateRx s i).extractLsb' 0 2) := by
      rw [lineHistory_step hl, lineHistoryD, lineStateValid_iff.2 hv]
      rfl
    have hpush := syncSeen_push s.lineHistory ((lineStateRx s i).extractLsb' 0 2)
    have hle := syncSeen_le (step s i).lineHistory
    rw [← hhist] at hpush
    cases hp : s.packetValid with
    | true =>
        have hlead : lead s = if symbolPair s then 0 else 1 := by simp [lead, hp, slack, hstrobe]
        cases hn : (step s i).packetValid with
        | true =>
            have hleft := symbolsLeft_of_sample hl hp hn
            have hnext : 1 ≤ lead (step s i) := by
              rw [lead, if_pos hn, slack]
              obtain hs | ⟨hs, hpair, -⟩ := hsample
              · simp [hs]
              · simp [hpair]
            cases hd : dvalid s with
            | false =>
                rw [hd] at hleft
                simp only [Bool.false_eq_true, if_false, Nat.add_zero] at hleft
                split_ifs at hlead <;> omega
            | true =>
                rw [hd] at hleft
                simp only [if_true] at hleft
                rw [(dvalid_cases hd).2.1] at hlead
                simp only [if_true] at hlead
                omega
        | false =>
            have hleft := symbolsLeft_of_valid hp
            have hlast := symbolsLeft_of_not_valid hn
            have hone : lead s ≤ 1 := by
              rw [hlead]
              split_ifs <;> omega
            obtain hs | ⟨-, -, hlow⟩ := hsample
            · have hnext : lead (step s i) = 1 := by simp [lead, hn, hs]
              omega
            · rw [syncSeen_of_not_symbol hlow] at hlast
              omega
    | false =>
        have hleft := symbolsLeft_of_not_valid hp
        have hlead : lead s = 0 := by simp [lead, hp, hstrobe]
        cases hn : (step s i).packetValid with
        | true =>
            rw [packetValid_step hl] at hn
            have hsync : s.lineHistory = syncHistory := by
              simp only [packetValidD, hp, lineStateValid_iff.2 hv] at hn
              split_ifs at hn <;> simp_all [syncHistory]
            have hstart : packetStart s i = true := by simp [packetStart, hn, hp]
            have hd : dvalid s = false := by simp [dvalid, dvalidRaw, hp]
            have hnext : symbolsLeft (step s i) = 24 := by
              have hsentinel : pidLeft 0b100000000#9 = 8 := by decide
              simp [symbolsLeft, step_rxDataLen16 s hl, step_rxDataLen s hl, step_fullPid s hl,
                packetValid_step hl, hn, rxDataLen16D, rxDataLenD, fullPidD, hstart, hd, hsentinel]
            have h6 : syncSeen s.lineHistory = 6 := by rw [hsync]; rfl
            omega
        | false =>
            have hlast := symbolsLeft_of_not_valid hn
            obtain hs | ⟨-, -, hlow⟩ := hsample
            · have hnext : lead (step s i) = 1 := by simp [lead, hn, hs]
              omega
            · rw [syncSeen_of_not_symbol hlow] at hlast
              omega
  · have hsame := symbolsLeft_of_hold hl hv
    have hlead := lead_of_hold hl hv
    omega

/-- The bound falls by at most one in a cycle. -/
theorem tokenIn_step (s : State) (i : Input) : tokenIn s ≤ tokenIn (step s i) + 1 := by
  obtain ⟨hnear, hfar⟩ := strobeIn_step s i
  cases hl : i.linkReset with
  | true =>
      have hnext : tokenIn (step s i) = 88 := by
        have hreset : (step s i).packetValid = false ∧ (step s i).bitPhase = 0 ∧
            (step s i).lineHistory = 0b101010101010#12 := by simp [step, hl, State.reset]
        obtain ⟨hp, hphase, hhist⟩ := hreset
        have hseen : syncSeen 0b101010101010#12 = 0 := by decide
        simp [tokenIn, symbolsLeft, lead, bitStrobe, strobeIn, hp, hphase, hhist, hseen]
      rw [hnext, tokenIn]
      have hstrobe : strobeIn s ≤ 3 ∧ (bitStrobe s = true → strobeIn s = 0) := by
        unfold strobeIn bitStrobe
        split_ifs <;> simp_all
      cases hp : s.packetValid with
      | true =>
          have hleft := symbolsLeft_of_valid hp
          have hslack : slack s ≤ 2 := by
            unfold slack
            split_ifs <;> omega
          rw [lead, if_pos hp]
          omega
      | false =>
          have hleft : symbolsLeft s ≤ 30 := by
            rw [symbolsLeft_of_not_valid hp]
            omega
          have hlead : lead s = if bitStrobe s then 1 else 0 := by simp [lead, hp]
          split_ifs at hlead with hs
          · have := hstrobe.2 hs
            omega
          · omega
  | false =>
      have hsymbols := symbols_step (s := s) hl
      unfold tokenIn
      split_ifs at hsymbols with hs
      · have hzero : strobeIn s = 0 := by simp [strobeIn, bitStrobe_iff.1 hs]
        have := hfar hs
        omega
      · omega

/-- When a packet with payload ends the bound is zero. -/
theorem tokenIn_of_payload (hv : s.bitPhase = 1) (hp : s.packetValid = true)
    (h16 : s.rxDataLen16 = true) : tokenIn s = 0 := by
  have hlead : lead s ≤ 1 := by
    simp only [lead, hp, slack, bitStrobe, hv, if_true]
    split_ifs <;> simp_all
  have hleft : symbolsLeft s = 0 := by simp [symbolsLeft, hp, h16]
  have hphase : strobeIn s = 1 := by simp [strobeIn, hv]
  rw [tokenIn, hleft, hphase]
  omega

/-- After the end of a packet at least 22 symbols come before the end of a token. -/
theorem tokenIn_of_packetEnd (he : packetEnd s i = true) : 71 ≤ tokenIn (step s i) := by
  have hp := packetValid_step_of_end he
  have hv := (packetEnd_cases he).1
  have hleft := symbolsLeft_of_not_valid hp
  have hle := syncSeen_le (step s i).lineHistory
  cases hl : i.linkReset with
  | true =>
      have hhist : (step s i).lineHistory = 0b101010101010#12 := by simp [step, hl, State.reset]
      have hseen : syncSeen 0b101010101010#12 = 0 := by decide
      rw [hhist, hseen] at hleft
      rw [tokenIn]
      omega
  | false =>
      obtain hs | ⟨-, -, hlow⟩ := sample_cases (i := i) hl hv
      · have hlead : lead (step s i) = 1 := by simp [lead, hp, hs]
        rw [tokenIn]
        omega
      · rw [syncSeen_of_not_symbol hlow] at hleft
        rw [tokenIn]
        omega

/-! ### Cut off by muting -/

/-- The samples of J until a packet that is being received is over, and J is the last symbol. -/
def stale (s : State) : ℕ :=
  if s.packetValid then
    if s.bitstuffError then 1
    else if s.lineHistory.extractLsb' 0 4 = 0b1010#4 then 9 - onesReceived s.bitstuffHistory
    else if s.lineHistory.extractLsb' 0 2 = 0b10#2 then 10
    else 11
  else if s.lineHistory = syncHistory then 11
  else if s.lineHistory.extractLsb' 0 2 = 0b10#2 then 0
  else 1

theorem stale_le (s : State) : stale s ≤ 11 := by
  unfold stale
  split_ifs <;> omega

theorem stale_eq_zero (h : stale s = 0) :
    s.packetValid = false ∧ s.lineHistory.extractLsb' 0 2 = 0b10#2 := by
  have hones := onesReceived_le s.bitstuffHistory
  unfold stale at h
  split_ifs at h with hp <;> first | omega | simp_all

theorem stale_of_hold (hl : i.linkReset = false) (hv : s.bitPhase ≠ 1) :
    stale (step s i) = stale s := by
  have hpv := packetValidD_of_not_valid hv i
  have hns : packetStart s i = false := by
    rw [packetStart, hpv]
    simp
  have hne : packetEnd s i = false := by
    rw [packetEnd, hpv]
    simp
  have hraw : dvalidRaw s = false := by simp [dvalidRaw, lineStateValid_of_ne hv]
  simp [stale, step, hl, hpv, lineHistoryD_of_not_valid hv, bitstuffErrorD, bitstuffHistoryD, hns,
    hne, hraw]

/-- What is left of a packet when the last symbol is J. -/
theorem stale_of_j (hlow : s.lineHistory.extractLsb' 0 2 = 0b10#2) :
    stale s = if s.packetValid then
      if s.bitstuffError then 1
      else if s.lineHistory.extractLsb' 0 4 = 0b1010#4 then 9 - onesReceived s.bitstuffHistory
      else 10
    else 0 := by
  have hne : s.lineHistory ≠ syncHistory := by
    intro hsync
    rw [hsync] at hlow
    exact absurd hlow (by decide)
  simp only [stale, hlow, hne, if_true, if_false]

theorem first_of_jj : ∀ a : BitVec 2, a ++ DJ.extractLsb' 0 2 = 0b1010#4 → a = 0b10#2 := by decide

/-- Every sample of J takes the packet nearer to its end. -/
theorem SeesJ.stale_step (h : SeesJ s) (hl : i.linkReset = false) :
    stale (FsRx.step s i) ≤ stale s - if lineStateValid s then 1 else 0 := by
  by_cases hv : s.bitPhase = 1
  · have hvalid := lineStateValid_iff.2 hv
    have hlow := low_step_of_valid (i := i) hl hv
    have hlast := last_step_of_valid (i := i) hl hv
    rw [h.lineStateRx i] at hlow hlast
    rw [hvalid, if_pos rfl, stale_of_j hlast]
    cases hn : (FsRx.step s i).packetValid with
    | false => simp
    | true =>
        rw [packetValid_step hl] at hn
        have hend : packetEnd s i = false := by simp [packetEnd, hn]
        cases hp : s.packetValid with
        | false =>
            -- the packet starts with this sample, after KK
            have hsync : s.lineHistory = syncHistory := by
              simp only [packetValidD, hp, hvalid] at hn
              split_ifs at hn <;> simp_all [syncHistory]
            have hstart : packetStart s i = true := by simp [packetStart, hn, hp]
            have herr : (FsRx.step s i).bitstuffError = false := by
              rw [step_bitstuffError, bitstuffErrorD, hstart]
              rfl
            have hkj : syncHistory.extractLsb' 0 2 ++ DJ.extractLsb' 0 2 ≠ 0b1010#4 := by decide
            rw [hlow, hsync, herr, if_neg hkj, stale, hp, if_pos hsync]
            simp
        | true =>
            have herr : s.bitstuffError = false := by
              by_contra herr
              simp only [packetValidD, hp, hvalid, seeEop] at hn
              split_ifs at hn <;> simp_all
            have hns := packetStart_of_packetValid (i := i) hp
            have hpair : 0b10#2 ++ DJ.extractLsb' 0 2 = 0b1010#4 := by decide
            rw [stale, if_pos hp, herr]
            simp only [Bool.false_eq_true, if_false, if_true]
            by_cases hjj : s.lineHistory.extractLsb' 0 4 = 0b1010#4
            · have hj := last_of_jj _ _ ((low_split s.lineHistory).symm.trans hjj)
              have hraw : dvalidRaw s = true := by
                simp [dvalidRaw, hp, hvalid, symbolPair, hjj]
              have hdin : din s = true := by simp [din, hjj]
              have hpush := onesReceived_push s.bitstuffHistory (din s)
              have hones := onesReceived_le s.bitstuffHistory
              rw [hdin, if_pos rfl] at hpush
              rw [if_pos hjj, hlow, hj, step_bitstuffError, bitstuffErrorD, hns, hraw, bitstuffError,
                seven_ones, step_bitstuffHistory s hl, bitstuffHistoryD, hend, hraw, hdin]
              by_cases h7 : 7 ≤ onesReceived s.bitstuffHistory
              · simp only [Bool.false_eq_true, if_false, if_true, Bool.and_true, h7, decide_true]
                omega
              · simp only [Bool.false_eq_true, if_false, if_true, hpush, Bool.and_true, hpair, herr,
                  h7, decide_false]
                omega
            · rw [if_neg hjj, hlow]
              by_cases hj : s.lineHistory.extractLsb' 0 2 = 0b10#2
              · rw [hj]
                simp only [if_true, hpair]
                split_ifs <;> omega
              · have hnot := fun heq => hj (first_of_jj _ heq)
                rw [if_neg hnot, if_neg hj]
                split_ifs <;> omega
  · rw [lineStateValid_of_ne hv, stale_of_hold hl hv]
    simp

/-- Once nothing is left of a packet, a token is far away. -/
theorem tokenIn_of_stale (h : stale s = 0) (hl : i.linkReset = false) (hs : s.bitPhase = 2) :
    76 ≤ tokenIn (step s i) := by
  obtain ⟨hp, hlow⟩ := stale_eq_zero h
  have hhold := symbolsLeft_of_hold (i := i) hl (by rw [hs]; decide)
  have hfar := (strobeIn_step s i).2 (bitStrobe_iff.2 hs)
  have hseen : syncSeen s.lineHistory ≤ 4 := by
    have hcut {n : ℕ} {c : BitVec n} (hn : 2 ≤ n) (hc : s.lineHistory.extractLsb' 0 n = c) :
        c.extractLsb' 0 2 = 0b10#2 := by rw [← hc, low_of_low _ hn, hlow]
    have hall : s.lineHistory.extractLsb' 0 12 = s.lineHistory := BitVec.extractLsb'_eq_self
    unfold syncSeen
    split_ifs with h6 h5 <;> first | omega | skip
    · exact absurd (hcut (by decide) (hall.trans h6)) (by decide)
    · exact absurd (hcut (by decide) h5) (by decide)
  rw [symbolsLeft_of_not_valid hp] at hhold
  rw [tokenIn]
  omega

end UsbDev.FsRx
