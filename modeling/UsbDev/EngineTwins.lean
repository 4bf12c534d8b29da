import UsbDev.FsTx
import UsbDev.UsbIf

/-!
# Engines that differ in dead registers

What an earlier transaction has left in the registers of an engine that is idle
is overwritten before it is read. Two OUT halves, two IN halves or two
transmitters that agree in all that is still read decide alike, as long as they
hear the same packets, and they agree in the next cycle.
-/
namespace UsbDev

namespace OutPe

variable {N : ℕ} [NeZero N]

/-- Inputs that report the same packets; the start of a packet and the endpoints that are full
are left out. -/
structure Input.Agree (i i' : Input N) : Prop where
  linkReset : i.linkReset = i'.linkReset
  devAddr : i.devAddr = i'.devAddr
  enabled : i.enabled = i'.enabled
  control : i.control = i'.control
  stall : i.stall = i'.stall
  iso : i.iso = i'.iso
  datatog : i.datatog = i'.datatog
  rx : i.rx.Agree i'.rx

/-- The tokens that both engines see. -/
theorem Input.Agree.tokens_eq {i i' : Input N} (h : i.Agree i') :
    i.outTokenReceived = i'.outTokenReceived ∧ i.setupTokenReceived = i'.setupTokenReceived ∧
      i.epActive = i'.epActive ∧ i.epIsControl = i'.epIsControl := by
  simp only [Input.outTokenReceived, Input.setupTokenReceived, Input.epActive, Input.epIsControl,
    h.devAddr, h.enabled, h.control, h.rx.tokenReceived_eq, h.rx.pid, h.rx.epCurrentD_eq,
    h.rx.epInHw_eq, and_self]

/-- Two engines that agree in all that is read before it is overwritten. -/
structure Twin (s s' : State N) : Prop where
  phase : s.outXactState = s'.outXactState
  dataToggle : s.dataToggle = s'.dataToggle
  current : s.outXactState ≠ .idle → s.outEpCurrent = s'.outEpCurrent ∧
    s.currentXactSetup = s'.currentXactSetup ∧
    s.outEpSetup s.outEpCurrent = s'.outEpSetup s'.outEpCurrent
  timeout : s.outXactState = .rcvdOut → s.timeoutCntdown = s'.timeoutCntdown
  data : s.outXactState ≠ .idle → s.outXactState ≠ .rcvdOut →
    s.nakOutTransaction = s'.nakOutTransaction ∧ s.outEpPutAddr = s'.outEpPutAddr

namespace Twin

variable {s s' : State N} {i i' : Input N}

/-- The engines decide alike. -/
theorem comb_eq (h : Twin s s') (hi : i.Agree i')
    (hstart : s.outXactState = .rcvdOut → i.rx.pktStart = i'.rx.pktStart)
    (hfull : s.outXactState ≠ .idle → i.full s.outEpCurrent = i'.full s'.outEpCurrent) :
    comb s i = comb s' i' := by
  obtain ⟨hout, hsetup, hactive, hcontrol⟩ := hi.tokens_eq
  have hphase := h.phase
  cases hs : s.outXactState with
  | idle =>
      have hs' := hphase.symm.trans hs
      simp only [comb, hs, hs', hout, hsetup, hactive, hcontrol]
  | rcvdOut =>
      have hs' := hphase.symm.trans hs
      simp only [comb, hs, hs', hstart hs, h.timeout hs]
  | rcvdDataStart =>
      have hs' := hphase.symm.trans hs
      obtain ⟨hcur, -, -⟩ := h.current (by simp [hs])
      have hbad : badDataToggle s i = badDataToggle s' i' := by
        rw [badDataToggle, badDataToggle, hi.rx.dataPacketReceived_eq, hactive, h.dataToggle,
          hi.rx.pid, hi.rx.epCurrentD_eq]
      have hinvalid : i.invalidPacketReceived = i'.invalidPacketReceived := hi.rx.invalid_eq
      have hother : i.nonDataPacketReceived = i'.nonDataPacketReceived := by
        rw [Input.nonDataPacketReceived, Input.nonDataPacketReceived, hi.rx.valid_eq, hi.rx.pid]
      simp only [comb, hs, hs', hcontrol, hi.rx.dataPacketReceived_eq, hbad, hinvalid, hother, hcur,
        hi.iso, hi.stall]
  | rcvdDataEnd =>
      have hs' := hphase.symm.trans hs
      obtain ⟨hcur, hx, -⟩ := h.current (by simp [hs])
      obtain ⟨hnak, -⟩ := h.data (by simp [hs]) (by simp [hs])
      have hlevel := hfull (by simp [hs])
      rw [hcur] at hlevel
      simp only [comb, hs, hs', hx, hnak, hcur, hlevel, hi.stall]
  | rcvdIsoDataEnd =>
      have hs' := hphase.symm.trans hs
      obtain ⟨hnak, -⟩ := h.data (by simp [hs]) (by simp [hs])
      have hlevel := hfull (by simp [hs])
      simp only [comb, hs, hs', hnak, hlevel]

theorem not_idle_of_acked (ha : (comb s i).acked = true) : s.outXactState ≠ .idle := by
  obtain ⟨hs | hs, -⟩ := acked_cases ha <;> simp [hs]

/-- Both engines flip the same toggle. -/
theorem dataToggleD_eq (h : Twin s s') (hi : i.Agree i') (hcomb : comb s i = comb s' i') :
    dataToggleD s i = dataToggleD s' i' := by
  obtain ⟨-, hsetup, hactive, -⟩ := hi.tokens_eq
  cases hn : (comb s i).newPktEnd with
  | false =>
      simp only [dataToggleD, ← hcomb, hn, hsetup, hactive, hi.rx.epCurrentD_eq, h.dataToggle,
        hi.datatog, Bool.false_eq_true, if_false]
  | true =>
      have hacked := hn
      rw [newPktEnd_eq_acked] at hacked
      obtain ⟨hcur, -, -⟩ := h.current (not_idle_of_acked hacked)
      simp only [dataToggleD, ← hcomb, hn, hsetup, hactive, hi.rx.epCurrentD_eq, h.dataToggle,
        hi.datatog, hcur]

/-- The endpoint and the kind of a transaction that is open in both engines, or opened by the same
token. -/
theorem current_step (hi : i.Agree i') (hcomb : comb s i = comb s' i')
    (h : (comb s i).xactStart = false → s.outEpCurrent = s'.outEpCurrent ∧
      s.currentXactSetup = s'.currentXactSetup ∧
      s.outEpSetup s.outEpCurrent = s'.outEpSetup s'.outEpCurrent) :
    (step s i).outEpCurrent = (step s' i').outEpCurrent ∧
      (step s i).currentXactSetup = (step s' i').currentXactSetup ∧
      (step s i).outEpSetup (step s i).outEpCurrent =
        (step s' i').outEpSetup (step s' i').outEpCurrent := by
  obtain ⟨hout, hsetup, hactive, -⟩ := hi.tokens_eq
  have hep : (i.rx.epCurrentD : Fin N) = i'.rx.epCurrentD := hi.rx.epCurrentD_eq
  have hstart : (comb s i).xactStart = (comb s' i').xactStart := by rw [hcomb]
  cases hx : (comb s i).xactStart with
  | true =>
      have hx' := hstart.symm.trans hx
      obtain ⟨-, hcur, hset⟩ := step_of_xactStart hx
      obtain ⟨-, hcur', hset'⟩ := step_of_xactStart hx'
      rw [hcur, hcur', hset, hset', hep, hi.rx.pid]
      refine ⟨rfl, ?_, rfl⟩
      simp only [step, hx, hx', hsetup, if_true]
  | false =>
      have hx' := hstart.symm.trans hx
      obtain ⟨hcur, hxs, hcs⟩ := h hx
      have hcur1 : (step s i).outEpCurrent = s.outEpCurrent := by simp [step, hx]
      have hcur2 : (step s' i').outEpCurrent = s'.outEpCurrent := by simp [step, hx']
      rw [hcur1, hcur2]
      refine ⟨hcur, by simp [step, hx, hx', hxs], ?_⟩
      rw [hcur] at hcs
      rw [hcur]
      simp only [step, hsetup, hout, hactive, hep]
      split_ifs
      · simp [Function.update_apply, hcs]
      · simp [Function.update_apply, hcs]
      · exact hcs

/-- A transaction that is open was open before, or a token opens it. -/
theorem not_idle_before (hs : (step s i).outXactState ≠ .idle)
    (hx : (comb s i).xactStart = false) : s.outXactState ≠ .idle := by
  intro hidle
  apply hs
  change (if i.linkReset then .idle else (comb s i).stateNext) = XactState.idle
  split_ifs
  · rfl
  · revert hx
    simp only [comb, hidle]
    split_ifs <;> simp

/-- The DATA packet of a token is awaited before it is received. -/
theorem data_before (hs : (step s i).outXactState ≠ .idle)
    (ho : (step s i).outXactState ≠ .rcvdOut) : s.outXactState ≠ .idle := by
  intro hidle
  have hnext : (step s i).outXactState = if i.linkReset then .idle else (comb s i).stateNext := rfl
  rw [hnext] at hs ho
  simp only [comb, hidle] at hs ho
  split_ifs at hs ho <;> simp at hs ho

/-- The sticky flag and the put address of the packet that is received. -/
theorem data_step (h : Twin s s')
    (hput : s.outXactState ≠ .idle → s.outEpDataPut = s'.outEpDataPut)
    (hfull : s.outXactState ≠ .idle → i.full s.outEpCurrent = i'.full s'.outEpCurrent)
    (hs : s.outXactState ≠ .idle) :
    (step s i).nakOutTransaction = (step s' i').nakOutTransaction ∧
      (step s i).outEpPutAddr = (step s' i').outEpPutAddr := by
  by_cases hr : s.outXactState = .rcvdOut
  · have hr' := h.phase.symm.trans hr
    simp [step, hr, hr']
  · obtain ⟨hnak, haddr⟩ := h.data hs hr
    simp only [step, incrementAddr, ← h.phase, hnak, haddr, ← hput hs, hfull hs]
    exact ⟨trivial, trivial⟩

/-- Engines that differ in dead registers do so in the next cycle. -/
theorem step (h : Twin s s') (hi : i.Agree i')
    (hput : s.outXactState ≠ .idle → s.outEpDataPut = s'.outEpDataPut)
    (hstart : s.outXactState = .rcvdOut → i.rx.pktStart = i'.rx.pktStart)
    (hfull : s.outXactState ≠ .idle → i.full s.outEpCurrent = i'.full s'.outEpCurrent) :
    Twin (step s i) (step s' i') := by
  have hcomb := h.comb_eq hi hstart hfull
  constructor
  case phase =>
    change (if i.linkReset then _ else (comb s i).stateNext) =
      if i'.linkReset then _ else (comb s' i').stateNext
    rw [hcomb, hi.linkReset]
  case dataToggle =>
    change (if i.linkReset then _ else dataToggleD s i) = if i'.linkReset then _ else dataToggleD s' i'
    rw [h.dataToggleD_eq hi hcomb, hi.linkReset]
  case current =>
    exact fun hs => current_step hi hcomb fun hx => h.current (not_idle_before hs hx)
  case timeout =>
    intro _
    change (comb s i).timeoutD = (comb s' i').timeoutD
    rw [hcomb]
  case data => exact fun hs ho => h.data_step hput hfull (data_before hs ho)

end Twin

end OutPe

namespace UsbIf

variable {N : ℕ} [NeZero N]

/-! ### The OUT half -/

/-- A byte or a word is on its way. -/
def Moving (s : OutState N) : Prop := s.pe.outEpDataPut = true ∨ s.stdWrite = true

/-- The engine receives a DATA packet, or its last byte is on its way. -/
def TakesBytes (s : OutState N) : Prop :=
  s.pe.outXactState ≠ .idle ∧ s.pe.outXactState ≠ .rcvdOut ∨ s.pe.outEpDataPut = true

/-- Two OUT halves that agree in all that is read before it is overwritten. -/
structure OutTwin (s s' : OutState N) : Prop where
  pe : OutPe.Twin s.pe s'.pe
  dataPut : s.pe.outEpDataPut = s'.pe.outEpDataPut
  stdWrite : s.stdWrite = s'.stdWrite
  outMaxUsed : s.outMaxUsed = s'.outMaxUsed
  current : Moving s → s.pe.outEpCurrent = s'.pe.outEpCurrent ∧
    s.pe.currentXactSetup = s'.pe.currentXactSetup ∧ currentSetup s = currentSetup s'
  putAddr : s.pe.outEpDataPut = true → s.pe.outEpPutAddr = s'.pe.outEpPutAddr
  data : s.pe.outEpDataPut = true → s.pe.outEpData = s'.pe.outEpData
  bytes : TakesBytes s → ∀ j : BitVec 2, j.toNat < s.pe.outEpPutAddr.toNat % 4 →
    lane s.wdata j = lane s'.wdata j
  last : s.outMaxUsed.getLsbD 6 = false → ∀ j : BitVec 2, j.toNat < s.outMaxUsed.toNat % 4 →
    lane s.wdata j = lane s'.wdata j
  word : s.stdWrite = true → s.wdata = s'.wdata

namespace OutTwin

variable {s s' : OutState N} {i : OutInput N} {r : RxSignals}

omit [NeZero N] in
theorem current_eq (h : OutTwin s s') (hb : s.pe.outXactState ≠ .idle ∨ Moving s) :
    s.pe.outEpCurrent = s'.pe.outEpCurrent ∧
      s.pe.currentXactSetup = s'.pe.currentXactSetup ∧ currentSetup s = currentSetup s' := by
  obtain hs | hm := hb
  · exact h.pe.current hs
  · exact h.current hm

omit [NeZero N] in
/-- The levels that depend on the endpoint of the transaction. -/
theorem levels_eq (h : OutTwin s s') (hb : s.pe.outXactState ≠ .idle ∨ Moving s) :
    avRvalid s i = avRvalid s' { i with rx := r } ∧
      avRdata s i = avRdata s' { i with rx := r } ∧
      outEpFull s i s.pe.outEpCurrent = outEpFull s' { i with rx := r } s'.pe.outEpCurrent := by
  obtain ⟨hcur, -, hsetup⟩ := h.current_eq hb
  have hvalid : avRvalid s i = avRvalid s' { i with rx := r } := by
    simp only [avRvalid, hsetup]
  refine ⟨hvalid, by simp only [avRdata, hsetup], ?_⟩
  have hblocked : allOutBlocked s i = allOutBlocked s' { i with rx := r } := by
    simp only [allOutBlocked, rxWready, hvalid, hsetup]
  rw [currentSetup, currentSetup] at hsetup
  simp only [outEpFull, hblocked, hsetup]
  rw [hcur]

omit [NeZero N] in
theorem agree (hr : i.rx.Agree r) :
    (outPeInput s i).Agree (outPeInput s' { i with rx := r }) :=
  ⟨rfl, rfl, rfl, rfl, rfl, rfl, rfl, hr⟩

omit [NeZero N] in
theorem full_eq (h : OutTwin s s') (hs : s.pe.outXactState ≠ .idle) :
    (outPeInput s i).full s.pe.outEpCurrent =
      (outPeInput s' { i with rx := r }).full s'.pe.outEpCurrent :=
  (h.levels_eq (.inl hs)).2.2

/-- The engines decide alike. -/
theorem comb_eq (h : OutTwin s s') (hr : i.rx.Agree r)
    (hstart : s.pe.outXactState = .rcvdOut → i.rx.pktStart = r.pktStart) :
    outComb s i = outComb s' { i with rx := r } :=
  h.pe.comb_eq (agree hr) hstart h.full_eq

/-- What moves in a cycle was open or moved before it. -/
theorem moving_before (hm : Moving (outStep s i)) : s.pe.outXactState ≠ .idle ∨ Moving s := by
  obtain hput | hstd := hm
  · have hdata : (s.pe.outXactState == .rcvdDataStart && i.rx.dataPut) = true := hput
    simp only [Bool.and_eq_true, beq_iff_eq] at hdata
    exact .inl (by simp [hdata.1])
  · change (if i.linkReset then false else stdWriteD s) = true at hstd
    split_ifs at hstd
    simp only [stdWriteD, Bool.and_eq_true] at hstd
    exact .inr (.inl hstd.1)

/-- What is received in a cycle was opened before it. -/
theorem takes_before (ht : TakesBytes (outStep s i)) : s.pe.outXactState ≠ .idle := by
  obtain ⟨hs, ho⟩ | hput := ht
  · exact OutPe.Twin.data_before hs ho
  · have hdata : (s.pe.outXactState == .rcvdDataStart && i.rx.dataPut) = true := hput
    simp only [Bool.and_eq_true, beq_iff_eq] at hdata
    simp [hdata.1]

/-! ### The word register -/

omit [NeZero N] in
theorem put_lane_toNat (s : OutState N) :
    (s.pe.outEpPutAddr.extractLsb' 0 2).toNat = s.pe.outEpPutAddr.toNat % 4 := by
  simp [BitVec.extractLsb'_toNat]

omit [NeZero N] in
/-- Both halves have put the bytes of the current word up to this one. -/
theorem put_lanes (h : OutTwin s s') (hput : s.pe.outEpDataPut = true) (j : BitVec 2)
    (hj : j.toNat ≤ s.pe.outEpPutAddr.toNat % 4) : lane (wdataD s) j = lane (wdataD s') j := by
  rw [wdataD, wdataD, lane_setLane, lane_setLane, ← h.putAddr hput, ← h.data hput]
  split_ifs with hlane
  · rfl
  · refine h.bytes (.inr hput) j (lt_of_le_of_ne hj fun heq => hlane ?_)
    exact BitVec.eq_of_toNat_eq (heq.trans (put_lane_toNat s).symm)

/-- While a count of the payload is kept, it names the last byte put, or has not moved. -/
theorem outMaxUsed_cases (s : OutState N) (i : OutInput N)
    (h6 : (outStep s i).outMaxUsed.getLsbD 6 = false) : (outStep s i).outMaxUsed = 0 ∨
      i.linkReset = false ∧ s.pe.outEpDataPut = true ∧
        (outStep s i).outMaxUsed.toNat = s.pe.outEpPutAddr.toNat ∨
      i.linkReset = false ∧ s.pe.outEpDataPut = false ∧
        (outStep s i).outMaxUsed = s.outMaxUsed := by
  have hstep : (outStep s i).outMaxUsed = if i.linkReset then 0 else outMaxUsedD s i := rfl
  rw [getLsbD_six, decide_eq_false_iff_not] at h6
  rw [hstep] at h6 ⊢
  cases hl : i.linkReset with
  | true => exact .inl rfl
  | false =>
      simp only [hl, Bool.false_eq_true, if_false, outMaxUsedD] at h6 ⊢
      split_ifs with hend hput hsmall hcrc
      · exact .inl rfl
      · refine .inr (.inl ⟨trivial, hput, ?_⟩)
        have := s.pe.outEpPutAddr.isLt
        rw [BitVec.toNat_setWidth]
        omega
      · rw [if_neg hend, if_pos hput, if_neg hsmall, if_pos hcrc, BitVec.toNat_add] at h6
        simp only [BitVec.ofNat_eq_ofNat, BitVec.toNat_ofNat] at h6
        omega
      · rw [if_neg hend, if_pos hput, if_neg hsmall, if_neg hcrc] at h6
        omega
      · exact .inr (.inr ⟨trivial, by simpa using hput, rfl⟩)

theorem wdata_step (s : OutState N) (i : OutInput N) (hl : i.linkReset = false) :
    (outStep s i).wdata = if s.pe.outEpDataPut then wdataD s else s.wdata := by
  simp [outStep, hl]

/-- The bytes below the put address. -/
theorem bytes_step (h : OutTwin s s') (hput : s.pe.outEpDataPut = true → i.rx.dataPut = false)
    (ht : TakesBytes (outStep s i)) (j : BitVec 2)
    (hj : j.toNat < (outStep s i).pe.outEpPutAddr.toNat % 4) :
    lane (outStep s i).wdata j = lane (outStep s' { i with rx := r }).wdata j := by
  have haddr : (outStep s i).pe.outEpPutAddr = if s.pe.outXactState == .rcvdOut then 0
      else if s.pe.outXactState == .rcvdDataStart && OutPe.incrementAddr s.pe then
        s.pe.outEpPutAddr + 1
      else s.pe.outEpPutAddr := rfl
  by_cases ho : s.pe.outXactState = .rcvdOut
  · simp [haddr, ho] at hj
  · cases hd : s.pe.outEpDataPut with
    | false =>
        have hd' := h.dataPut.symm.trans hd
        have hword : (outStep s i).wdata = s.wdata := by simp [outStep, hd]
        have hword' : (outStep s' { i with rx := r }).wdata = s'.wdata := by simp [outStep, hd']
        have hsame : (outStep s i).pe.outEpPutAddr = s.pe.outEpPutAddr := by
          rw [haddr]
          simp [OutPe.incrementAddr, hd, ho]
        rw [hsame] at hj
        rw [hword, hword']
        exact h.bytes (.inl ⟨takes_before ht, ho⟩) j hj
    | true =>
        have hd' := h.dataPut.symm.trans hd
        have hl : i.linkReset = false := by
          rw [← Bool.not_eq_true]
          intro hl
          obtain ⟨hs, -⟩ | hnext := ht
          · exact hs (by simp [outStep, OutPe.step, outPeInput, hl])
          · have hbyte : (s.pe.outXactState == .rcvdDataStart && i.rx.dataPut) = true := hnext
            simp [hput hd] at hbyte
        rw [wdata_step s i hl, wdata_step s' { i with rx := r } hl, hd, hd']
        refine h.put_lanes hd j ?_
        rw [haddr] at hj
        split_ifs at hj
        · simp at hj
        · rw [BitVec.toNat_add] at hj
          simp only [BitVec.ofNat_eq_ofNat, BitVec.toNat_ofNat] at hj
          omega
        · omega

/-- The bytes of the word that is not yet full. -/
theorem last_step (h : OutTwin s s') (h6 : (outStep s i).outMaxUsed.getLsbD 6 = false)
    (j : BitVec 2) (hj : j.toNat < (outStep s i).outMaxUsed.toNat % 4) :
    lane (outStep s i).wdata j = lane (outStep s' { i with rx := r }).wdata j := by
  obtain hzero | ⟨hl, hd, hused⟩ | ⟨hl, hd, hused⟩ := outMaxUsed_cases s i h6
  · simp [hzero] at hj
  · have hd' := h.dataPut.symm.trans hd
    rw [wdata_step s i hl, wdata_step s' { i with rx := r } hl, hd, hd']
    rw [hused] at hj
    exact h.put_lanes hd j (by omega)
  · have hd' := h.dataPut.symm.trans hd
    rw [wdata_step s i hl, wdata_step s' { i with rx := r } hl, hd, hd']
    rw [hused] at h6 hj
    exact h.last h6 j hj

/-- A full word is the same. -/
theorem word_step (h : OutTwin s s') (hstd : (outStep s i).stdWrite = true) :
    (outStep s i).wdata = (outStep s' { i with rx := r }).wdata := by
  change (if i.linkReset then false else stdWriteD s) = true at hstd
  split_ifs at hstd with hl
  rw [Bool.not_eq_true] at hl
  simp only [stdWriteD, Bool.and_eq_true, beq_iff_eq] at hstd
  obtain ⟨hd, -, hlast⟩ := hstd
  have hd' := h.dataPut.symm.trans hd
  rw [wdata_step s i hl, wdata_step s' { i with rx := r } hl, hd, hd']
  refine eq_of_lanes fun j => h.put_lanes hd j ?_
  have htop : 3 = s.pe.outEpPutAddr.toNat % 4 := by
    rw [← put_lane_toNat, hlast]
    rfl
  have := j.isLt
  omega

theorem outMaxUsed_step (h : OutTwin s s') (hcomb : outComb s i = outComb s' { i with rx := r }) :
    (outStep s i).outMaxUsed = (outStep s' { i with rx := r }).outMaxUsed := by
  have hD : outMaxUsedD s i = outMaxUsedD s' { i with rx := r } := by
    rw [outMaxUsedD, outMaxUsedD, hcomb, ← h.dataPut, h.outMaxUsed]
    cases hput : s.pe.outEpDataPut with
    | false => rfl
    | true => rw [h.putAddr hput]
  change (if i.linkReset then _ else _) = if i.linkReset then _ else _
  rw [hD]

theorem stdWrite_step (h : OutTwin s s') :
    (outStep s i).stdWrite = (outStep s' { i with rx := r }).stdWrite := by
  have hD : stdWriteD s = stdWriteD s' := by
    rw [stdWriteD, stdWriteD, ← h.dataPut, h.outMaxUsed]
    cases hput : s.pe.outEpDataPut with
    | false => rfl
    | true => rw [h.putAddr hput]
  change (if i.linkReset then _ else _) = if i.linkReset then _ else _
  rw [hD]

/-- OUT halves that differ in dead registers do so in the next cycle, if the receiver completes
no two bytes in a row. -/
theorem step (h : OutTwin s s') (hr : i.rx.Agree r)
    (hstart : s.pe.outXactState = .rcvdOut → i.rx.pktStart = r.pktStart)
    (hput : s.pe.outEpDataPut = true → i.rx.dataPut = false) :
    OutTwin (outStep s i) (outStep s' { i with rx := r }) where
  pe := h.pe.step (agree hr) (fun _ => h.dataPut) hstart h.full_eq
  dataPut := by
    change (s.pe.outXactState == _ && i.rx.dataPut) = (s'.pe.outXactState == _ && r.dataPut)
    rw [h.pe.phase, hr.dataPut]
  stdWrite := h.stdWrite_step
  outMaxUsed := h.outMaxUsed_step (h.comb_eq hr hstart)
  current hm := OutPe.Twin.current_step (agree hr) (h.comb_eq hr hstart)
    fun _ => h.current_eq (moving_before hm)
  putAddr hnext := (h.pe.data_step (fun _ => h.dataPut) h.full_eq (takes_before (.inr hnext))).2
  data hnext := by
    have hbyte : (s.pe.outXactState == .rcvdDataStart && i.rx.dataPut) = true := hnext
    rw [Bool.and_eq_true] at hbyte
    change (if i.rx.dataPut then _ else _) = if r.dataPut then _ else _
    rw [← hr.dataPut, hbyte.2]
    exact hr.data
  bytes := h.bytes_step hput
  last := h.last_step
  word := h.word_step

/-- A link reset leaves nothing but a byte that is just being put. -/
theorem of_linkReset (hl : i.linkReset = true)
    (hput : s.pe.outXactState = .rcvdDataStart → i.rx.dataPut = false) :
    OutTwin (outStep s i) (OutState.reset N) := by
  have hphase : (outStep s i).pe.outXactState = .idle := by
    simp [outStep, OutPe.step, outPeInput, hl]
  have hbyte : (outStep s i).pe.outEpDataPut = false := by
    change (s.pe.outXactState == .rcvdDataStart && i.rx.dataPut) = false
    cases hs : s.pe.outXactState with
    | rcvdDataStart => rw [hput hs]; rfl
    | _ => rfl
  have hstd : (outStep s i).stdWrite = false := by simp [outStep, hl]
  have hused : (outStep s i).outMaxUsed = 0 := by simp [outStep, hl]
  constructor
  case pe =>
    constructor
    case phase => exact hphase
    case dataToggle => simp [outStep, OutPe.step, outPeInput, hl, OutState.reset, OutPe.State.reset]
    case current => exact fun hs => absurd hphase hs
    case timeout => simp [hphase]
    case data => exact fun hs => absurd hphase hs
  case dataPut => exact hbyte
  case stdWrite => exact hstd
  case outMaxUsed => exact hused
  case current => simp [Moving, hbyte, hstd]
  case putAddr => simp [hbyte]
  case data => simp [hbyte]
  case bytes => simp [TakesBytes, hphase, hbyte]
  case last => simp [hused]
  case word => simp [hstd]

/-! ### What they show -/

theorem rxWdata_eq (h : OutTwin s s') (ha : rxWvalid s i = true) :
    rxWdata s i = rxWdata s' { i with rx := r } := by
  have hopen : s.pe.outXactState ≠ .idle ∨ Moving s := .inl (OutPe.Twin.not_idle_of_acked ha)
  obtain ⟨hcur, -, hsetup⟩ := h.current_eq hopen
  obtain ⟨-, hbuffer, -⟩ := h.levels_eq (i := i) (r := r) hopen
  rw [rxWdata, rxWdata, hcur, hsetup, h.outMaxUsed, hbuffer]

/-- The writes to the packet RAM, and their addresses. -/
theorem memWrite_eq (h : OutTwin s s') (hcomb : outComb s i = outComb s' { i with rx := r }) :
    memWrite s i = memWrite s' { i with rx := r } ∧
      (memWrite s i = true → memWaddr s i = memWaddr s' { i with rx := r }) := by
  by_cases hb : s.pe.outXactState ≠ .idle ∨ Moving s
  · obtain ⟨hvalid, hbuffer, -⟩ := h.levels_eq (i := i) (r := r) hb
    rw [memWrite, memWrite, memWaddr, memWaddr, hvalid, hbuffer, hcomb, h.stdWrite, h.outMaxUsed]
    exact ⟨rfl, fun _ => rfl⟩
  · have hacked : (outComb s i).acked = false := by
      rw [← Bool.not_eq_true]
      exact fun ha => hb (.inl (OutPe.Twin.not_idle_of_acked ha))
    have hstd : s.stdWrite = false := by
      rw [← Bool.not_eq_true]
      exact fun hstd => hb (.inr (.inr hstd))
    have hnone : memWrite s i = false := by simp [memWrite, hacked, hstd]
    have hnone' : memWrite s' { i with rx := r } = false := by
      simp [memWrite, ← hcomb, ← h.stdWrite, hacked, hstd]
    rw [hnone, hnone']
    exact ⟨rfl, fun hw => Bool.noConfusion hw⟩

end OutTwin

/-! ### The IN half -/

/-- Two IN halves that agree in all that is read before it is overwritten. -/
structure InTwin (s s' : InState N) : Prop where
  phase : s.pe.inXactState = s'.pe.inXactState
  dataToggle : s.pe.dataToggle = s'.pe.dataToggle
  opened : s.pe.inXactState ≠ .idle → s.pe.inEpCurrent = s'.pe.inEpCurrent ∧
    s.pe.hasData = s'.pe.hasData ∧ s.pe.inEpGetAddr = s'.pe.inEpGetAddr
  timeout : s.pe.inXactState = .waitAckStart → s.pe.timeoutCntdown = s'.pe.timeoutCntdown
  txData : s.pe.inXactState = .sendData → s.pe.txData = s'.pe.txData

namespace InTwin

variable {s s' : InState N} {i : InInput N} {r : RxSignals}

/-- The packets that both engines see. -/
theorem tokens_eq (s s' : InState N) (hr : i.rx.Agree r) :
    (inPeInput s i).inTokenReceived = (inPeInput s' { i with rx := r }).inTokenReceived ∧
      (inPeInput s i).setupTokenReceived =
        (inPeInput s' { i with rx := r }).setupTokenReceived ∧
      (inPeInput s i).ackReceived = (inPeInput s' { i with rx := r }).ackReceived ∧
      (inPeInput s i).epActive = (inPeInput s' { i with rx := r }).epActive ∧
      ((inPeInput s i).rx.epCurrentD : Fin N) =
        (inPeInput s' { i with rx := r }).rx.epCurrentD := by
  simp only [InPe.Input.inTokenReceived, InPe.Input.setupTokenReceived, InPe.Input.ackReceived,
    InPe.Input.epActive, inPeInput, hr.tokenReceived_eq, hr.valid_eq, hr.pid, hr.epCurrentD_eq,
    hr.epInHw_eq, and_self]

omit [NeZero N] in
theorem moreData_eq (h : InTwin s s') (hs : s.pe.inXactState ≠ .idle) :
    InPe.moreDataToSend s.pe (inPeInput s i) =
      InPe.moreDataToSend s'.pe (inPeInput s' { i with rx := r }) := by
  obtain ⟨hcur, hdata, haddr⟩ := h.opened hs
  simp only [InPe.moreDataToSend, inPeInput, inDataDone, hcur, hdata, haddr]

omit [NeZero N] in
theorem txDataAvail_eq (h : InTwin s s') : InPe.txDataAvail s.pe (inPeInput s i) =
    InPe.txDataAvail s'.pe (inPeInput s' { i with rx := r }) := by
  rw [InPe.txDataAvail, InPe.txDataAvail, ← h.phase]
  cases hs : s.pe.inXactState with
  | sendData => rw [h.moreData_eq (by simp [hs])]
  | _ => rfl

/-- The engines decide alike. -/
theorem comb_eq (h : InTwin s s') (hr : i.rx.Agree r)
    (hstart : s.pe.inXactState = .waitAckStart → i.rx.pktStart = r.pktStart) :
    inComb s i = inComb s' { i with rx := r } := by
  obtain ⟨htoken, -, hack, hactive, -⟩ := tokens_eq s s' hr
  have hphase := h.phase
  rw [inComb, inComb]
  cases hs : s.pe.inXactState with
  | idle =>
      have hs' := hphase.symm.trans hs
      simp only [InPe.comb, hs, hs', htoken, hactive]
  | rcvdIn =>
      have hs' := hphase.symm.trans hs
      obtain ⟨hcur, hdata, -⟩ := h.opened (by simp [hs])
      simp only [InPe.comb, hs, hs', hcur, hdata, h.dataToggle]
      rfl
  | sendData =>
      have hs' := hphase.symm.trans hs
      obtain ⟨hcur, hdata, haddr⟩ := h.opened (by simp [hs])
      have hmore := h.moreData_eq (i := i) (r := r) (by simp [hs])
      simp only [InPe.comb, hs, hs', hmore, hcur, hdata, haddr]
      rfl
  | waitTxEnd =>
      have hs' := hphase.symm.trans hs
      simp only [InPe.comb, hs, hs']
      rfl
  | waitAckStart =>
      have hs' := hphase.symm.trans hs
      have hsop : (inPeInput s i).rx.pktStart =
          (inPeInput s' { i with rx := r }).rx.pktStart := hstart hs
      simp only [InPe.comb, hs, hs', hsop, h.timeout hs]
  | waitAck =>
      have hs' := hphase.symm.trans hs
      have hend : (inPeInput s i).rx.pktEnd =
          (inPeInput s' { i with rx := r }).rx.pktEnd := hr.pktEnd
      simp only [InPe.comb, hs, hs', hack, htoken, hactive, hend]

/-- Both engines flip the same toggle. -/
theorem dataToggle_step (h : InTwin s s') (hr : i.rx.Agree r) :
    (inStep s i).pe.dataToggle = (inStep s' { i with rx := r }).pe.dataToggle := by
  obtain ⟨-, hsetup, hack, hactive, hep⟩ := tokens_eq s s' hr
  have htog : InPe.dataToggleD s.pe (inPeInput s i) =
      InPe.dataToggleD s'.pe (inPeInput s' { i with rx := r }) := by
    simp only [InPe.dataToggleD, hsetup, hack, hactive, hep, h.dataToggle, ← h.phase]
    cases hs : s.pe.inXactState with
    | waitAck =>
        rw [(h.opened (by simp [hs])).1]
        rfl
    | _ => rfl
  change (if i.linkReset then _ else InPe.dataToggleD s.pe (inPeInput s i)) =
    if i.linkReset then _ else InPe.dataToggleD s'.pe (inPeInput s' { i with rx := r })
  rw [htog]

theorem phase_step (s : InState N) (i : InInput N) : (inStep s i).pe.inXactState =
    if i.linkReset || !i.linkActive then .idle else (inComb s i).stateNext := rfl

/-- A transaction that is open was opened before, or by this token. -/
theorem opened_before (hs : (inStep s i).pe.inXactState ≠ .idle)
    (htoken : (inPeInput s i).inTokenReceived = false) : s.pe.inXactState ≠ .idle := by
  intro hidle
  apply hs
  rw [phase_step, inComb, InPe.comb, hidle]
  simp [htoken]

theorem opened_step (h : InTwin s s') (hr : i.rx.Agree r)
    (hs : (inStep s i).pe.inXactState ≠ .idle) :
    (inStep s i).pe.inEpCurrent = (inStep s' { i with rx := r }).pe.inEpCurrent ∧
      (inStep s i).pe.hasData = (inStep s' { i with rx := r }).pe.hasData ∧
      (inStep s i).pe.inEpGetAddr = (inStep s' { i with rx := r }).pe.inEpGetAddr := by
  obtain ⟨htoken, -, -, -, hep⟩ := tokens_eq s s' hr
  have haddr : (inStep s i).pe.inEpGetAddr = (inStep s' { i with rx := r }).pe.inEpGetAddr := by
    change (if s.pe.inXactState == .idle then _ else if s.pe.inXactState == .sendData && _ then _
      else _) = if s'.pe.inXactState == .idle then _ else if s'.pe.inXactState == .sendData && _ then _
      else _
    rw [← h.phase]
    by_cases hidle : s.pe.inXactState = .idle
    · simp [hidle]
    · rw [(h.opened hidle).2.2]
      rfl
  have hpe : (inStep s i).pe = InPe.step s.pe (inPeInput s i) := rfl
  have hpe' : (inStep s' { i with rx := r }).pe =
      InPe.step s'.pe (inPeInput s' { i with rx := r }) := rfl
  refine ⟨?_, ?_, haddr⟩ <;> rw [hpe, hpe'] <;> simp only [InPe.step, ← htoken, ← hep]
  · cases ht : (inPeInput s i).inTokenReceived with
    | true => rfl
    | false => exact (h.opened (opened_before hs ht)).1
  · cases ht : (inPeInput s i).inTokenReceived with
    | true => rfl
    | false => exact (h.opened (opened_before hs ht)).2.1

/-- IN halves that differ in dead registers do so in the next cycle. -/
theorem step (h : InTwin s s') (hr : i.rx.Agree r)
    (hstart : s.pe.inXactState = .waitAckStart → i.rx.pktStart = r.pktStart) :
    InTwin (inStep s i) (inStep s' { i with rx := r }) where
  phase := by rw [phase_step, phase_step, h.comb_eq hr hstart]
  dataToggle := h.dataToggle_step hr
  opened := h.opened_step hr
  timeout _ := by
    change (inComb s i).timeoutD = (inComb s' { i with rx := r }).timeoutD
    rw [h.comb_eq hr hstart]
  txData hsend := by
    have hidle : s.pe.inXactState ≠ .idle := by
      intro hidle
      rw [phase_step, inComb, InPe.comb, hidle] at hsend
      split_ifs at hsend
    change lane i.memRdata _ = lane i.memRdata _
    rw [(h.opened hidle).2.2]

/-- A link reset leaves nothing. -/
theorem of_linkReset (hl : i.linkReset = true) : InTwin (inStep s i) (InState.reset N) := by
  have hphase : (inStep s i).pe.inXactState = .idle := by
    simp [inStep, InPe.step, inPeInput, hl]
  constructor
  case phase => exact hphase
  case dataToggle => simp [inStep, InPe.step, inPeInput, hl, InState.reset, InPe.State.reset]
  case opened => exact fun hopen => absurd hphase hopen
  case timeout => simp [hphase]
  case txData => simp [hphase]

end InTwin

end UsbIf

namespace FsTx

variable {s : State} {i j : Input}

/-- The transmitter reads the data byte only if one is available. -/
theorem step_congr (hl : i.linkReset = j.linkReset) (hp : i.cfgPinflip = j.cfgPinflip)
    (ho : i.txOscTestMode = j.txOscTestMode) (hb : i.bitStrobe = j.bitStrobe)
    (hs : i.pktStart = j.pktStart) (hpid : i.pid = j.pid) (ha : i.txDataAvail = j.txDataAvail)
    (hd : i.txDataAvail = true → i.txData = j.txData) : step s i = step s j := by
  obtain ⟨linkReset, cfgPinflip, txOscTestMode, bitStrobe, pktStart, pid, txDataAvail, txData⟩ := i
  dsimp only at hl hp ho hb hs hpid ha hd
  subst hl hp ho hb hs hpid ha
  have hfsm : byteFsm s { j with txData := txData } = byteFsm s j := by
    simp only [byteFsm]
    cases ha : j.txDataAvail with
    | true => rw [hd ha]
    | false => rfl
  have hproc : procFsm s { j with txData := txData } = procFsm s j := by
    simp only [procFsm, hfsm]
  have hout : outStateD s { j with txData := txData } = outStateD s j := by
    simp only [outStateD, hproc]
  simp only [step, hproc, hout]
  rfl

end FsTx

end UsbDev
