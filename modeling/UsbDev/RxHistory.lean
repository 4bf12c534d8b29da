import UsbDev.RxDetect
import UsbDev.RxReports

/-!
# What the receiver forgets

The history of symbols is looked at in two places only: its last two symbols, and
all six for the end of SYNC, which has no SE0 in it. So symbols before an SE0 no
longer count once another symbol has followed, and after an end of packet one
more SE0 changes nothing.
-/
namespace UsbDev.FsRx

open LineCode Clocked

/-- Two histories that agree from an SE0 on, `k` symbols back. -/
inductive SameTail (h h' : BitVec 12) : Prop
  | refl (heq : h = h') : SameTail h h'
  | since (k : ℕ) (hpos : 1 ≤ k) (hle : k ≤ 4)
      (hlow : h.extractLsb' 0 (2 * k + 2) = h'.extractLsb' 0 (2 * k + 2))
      (hse0 : h.extractLsb' (2 * k) 2 = symbolCode .se0) : SameTail h h'

/-- The receiver with another history. -/
def withHistory (s : State) (h : BitVec 12) : State := { s with lineHistory := h }

/-- Two receivers that differ in what they have forgotten. -/
def Forgets (s s' : State) : Prop :=
  ∃ h, s' = withHistory s h ∧ SameTail s.lineHistory h

variable {eop : Bool} {s s' : State} {i : Input} {h h' : BitVec 12} {x : BitVec 2}

theorem extract_push (h : BitVec 12) (x : BitVec 2) {n : ℕ} (hn : n + 2 ≤ 10) :
    (pushSample h x).extractLsb' (n + 2) 2 = h.extractLsb' n 2 := by
  refine BitVec.eq_of_getLsbD_eq fun k hk => ?_
  simp only [pushSample, BitVec.getLsbD_append, BitVec.getLsbD_extractLsb', hk, decide_true,
    Bool.true_and, show ¬ n + 2 + k < 2 by omega, if_false, Nat.zero_add,
    show n + 2 + k - 2 = n + k by omega, show n + k < 10 by omega]

theorem extract_low {m n k : ℕ} (h : BitVec 12) (hle : k + m ≤ n) :
    (h.extractLsb' 0 n).extractLsb' k m = h.extractLsb' k m := by
  refine BitVec.eq_of_getLsbD_eq fun b hb => ?_
  simp [hb, show k + b < n by omega]

theorem SameTail.push (h₀ : SameTail h h') (x : BitVec 2) :
    SameTail (pushSample h x) (pushSample h' x) := by
  cases h₀ with
  | refl heq => exact .refl (by rw [heq])
  | since k hpos hle hlow hse0 =>
      have hpush := pushSample_low h x (n := 2 * k + 2) (by omega)
      have hpush' := pushSample_low h' x (n := 2 * k + 2) (by omega)
      rw [hlow, ← hpush'] at hpush
      by_cases hk : k = 4
      · subst hk
        exact .refl (by simpa using hpush)
      · refine .since (k + 1) (by omega) (by omega) hpush ?_
        have hextract := extract_push h x (n := 2 * k) (by omega)
        exact hextract.trans hse0

/-- The last two symbols agree. -/
theorem SameTail.low (h₀ : SameTail h h') {n : ℕ} (hn : n ≤ 4) :
    h.extractLsb' 0 n = h'.extractLsb' 0 n := by
  cases h₀ with
  | refl heq => rw [heq]
  | since k hpos hle hlow hse0 =>
      have hcut := congrArg (fun y => BitVec.extractLsb' 0 n y) hlow
      simpa only [extract_low _ (show 0 + n ≤ 2 * k + 2 by omega)] using hcut

theorem sync_no_se0 {k : ℕ} (hle : k ≤ 4) (hse0 : h.extractLsb' (2 * k) 2 = symbolCode .se0) :
    h ≠ syncHistory := by
  rintro rfl
  have hall : ∀ k ≤ 4, syncHistory.extractLsb' (2 * k) 2 ≠ symbolCode .se0 := by decide
  exact hall k hle hse0

theorem SameTail.sync (h₀ : SameTail h h') : (h == syncHistory) = (h' == syncHistory) := by
  cases h₀ with
  | refl heq => rw [heq]
  | since k hpos hle hlow hse0 =>
      have hcut := congrArg (fun y => BitVec.extractLsb' (2 * k) 2 y) hlow
      simp only [extract_low _ (show 2 * k + 2 ≤ 2 * k + 2 by omega)] at hcut
      rw [beq_eq_false_iff_ne.2 (sync_no_se0 hle hse0),
        beq_eq_false_iff_ne.2 (sync_no_se0 hle (hcut.symm.trans hse0))]

section withHistory
variable (h₀ : SameTail s.lineHistory h)
include h₀

theorem seeEop_withHistory (i : Input) : seeEop (withHistory s h) i = seeEop s i := by
  have hfour := h₀.low (n := 4) (by omega)
  have htwo := h₀.low (n := 2) (by omega)
  simp only [seeEop, withHistory, hfour, htwo]
  rfl

theorem packetValidD_withHistory (i : Input) :
    packetValidD (withHistory s h) i = packetValidD s i := by
  have hsync : (h == 0b011001100101#12) = (s.lineHistory == 0b011001100101#12) := h₀.sync.symm
  simp only [packetValidD, seeEop_withHistory h₀, ← hsync]
  rfl

theorem dvalidRaw_withHistory : dvalidRaw (withHistory s h) = dvalidRaw s := by
  have hfour := h₀.low (n := 4) (by omega)
  simp only [dvalidRaw, symbolPair, hfour]
  rfl

theorem din_withHistory : din (withHistory s h) = din s := by
  simp only [din, h₀.low (n := 4) (by omega)]
  rfl

theorem inPacketD_withHistory (i : Input) : inPacketD (withHistory s h) i = inPacketD s i := by
  simp only [inPacketD, seeEop_withHistory h₀, seeSop, h₀.low (n := 4) (by omega)]
  rfl

/-- A cycle with another history. -/
theorem step_withHistory (hl : i.linkReset = false) :
    step (withHistory s h) i = withHistory (step s i) (lineHistoryD (withHistory s h) i) := by
  have hvalid := packetValidD_withHistory h₀ i
  have hstart : packetStart (withHistory s h) i = packetStart s i := by
    rw [packetStart, packetStart, hvalid]
    rfl
  have hend : packetEnd (withHistory s h) i = packetEnd s i := by
    rw [packetEnd, packetEnd, hvalid]
    rfl
  have hraw := dvalidRaw_withHistory h₀
  have hbit : dvalid (withHistory s h) = dvalid s := by
    rw [dvalid, dvalid, hraw]
    rfl
  simp only [step, hl, Bool.false_eq_true, if_false, hvalid, inPacketD_withHistory h₀,
    bitstuffHistoryD, bitstuffErrorD, hstart, hend, hraw, hbit, fullPidD, crc5D, crc16D,
    tokenPayloadD, rxDataBufferD, rxDataLen16D, rxDataLenD, din_withHistory h₀]
  rfl

end withHistory

theorem Forgets.step (h₀ : Forgets s s') (hl : i.linkReset = false) :
    Forgets (step s i) (step s' i) := by
  obtain ⟨h, rfl, htail⟩ := h₀
  refine ⟨_, step_withHistory htail hl, ?_⟩
  have hhist : (FsRx.step s i).lineHistory = lineHistoryD s i := by simp [FsRx.step, hl]
  rw [hhist]
  unfold lineHistoryD
  have hvalid : lineStateValid (withHistory s h) = lineStateValid s := rfl
  rw [hvalid]
  cases lineStateValid s with
  | false => exact htail
  | true => exact htail.push _

theorem Forgets.core (h₀ : Forgets s s') : Forgets (core s) (core s') := by
  obtain ⟨h, rfl, htail⟩ := h₀
  exact ⟨h, rfl, htail⟩

theorem Forgets.present (h₀ : Forgets s s') (x : BitVec 2) : Forgets (present s x) (present s' x) := by
  obtain ⟨h, rfl, htail⟩ := h₀
  exact ⟨h, rfl, htail⟩

theorem Forgets.pushed (h₀ : Forgets s s') (eop : Bool) (x : BitVec 2) :
    Forgets (pushed eop s x) (pushed eop s' x) :=
  ((h₀.present x).step rfl).core

theorem Forgets.symbolStep (h₀ : Forgets s s') (eop : Bool) (x : BitVec 2) :
    Forgets (symbolStep eop s x) (symbolStep eop s' x) :=
  ((h₀.pushed eop x).core.step rfl).core

/-! ### Events -/

/-- What the receiver shows in a cycle: a byte, the end of a packet, or neither. -/
def event (s : State) (i : Input) : Option (Option (BitVec 8) × Option Report) :=
  if rxDataPut s || packetEnd s i then some (putByte s, report s i) else none

theorem event_symbolOutput (eop : Bool) : SymbolOutput eop event where
  congr {s s' i j} hi hj hcore hv := by
    have hview (s : State) (i : Input) (hi : Listens eop i) : event s i =
        if lineStateValid s then event (FsRx.present s 0) (listening eop)
        else event (FsRx.core s) (listening eop) := by
      cases hvalid : lineStateValid s with
      | true =>
          have hend : packetEnd s i = packetEnd (FsRx.present s 0) (listening eop) := by
            rw [packetEnd, packetEnd, packetValidD_present hi hvalid]
            rfl
          simp only [event, report, crc5Error, crc16Error, pidError, bitstuffErrorO, hend]
          rfl
      | false =>
          have hend : packetEnd s i = false := by simp [packetEnd, packetValidD, hvalid]
          have hend' : packetEnd (FsRx.core s) (listening eop) = false := by
            have hcore : lineStateValid (FsRx.core s) = false := rfl
            simp [packetEnd, packetValidD, hcore]
          simp only [event, report, hend, hend']
          rfl
    rw [hview s i hi, hview s' j hj, hv, hcore]
    rw [FsRx.present, FsRx.present, hcore]
  silent s := by
    have hvalid : lineStateValid (settled eop s) = false := rfl
    have hend : packetEnd (settled eop s) (listening eop) = false := by
      simp [packetEnd, packetValidD, hvalid]
    rw [event, rxDataPut_settled, hend]
    rfl

theorem Forgets.event_eq (h₀ : Forgets s s') (i : Input) : event s' i = event s i := by
  obtain ⟨h, rfl, htail⟩ := h₀
  have hend : packetEnd (withHistory s h) i = packetEnd s i := by
    rw [packetEnd, packetEnd, packetValidD_withHistory htail]
    rfl
  simp only [event, report, crc5Error, crc16Error, pidError, bitstuffErrorO, hend]
  rfl

theorem Forgets.symbolLog_eq (h₀ : Forgets s s') (eop : Bool) (xs : List (BitVec 2)) :
    symbolLog eop event s' xs = symbolLog eop event s xs := by
  induction xs generalizing s s' with
  | nil => rfl
  | cons x xs ih =>
      rw [symbolLog_cons, symbolLog_cons, ih (h₀.symbolStep eop x), symbolOut, symbolOut,
        (h₀.present x).event_eq, (h₀.pushed eop x).event_eq]

/-! ### One more SE0 -/

theorem lineHistory_symbolStep (eop : Bool) (s : State) (x : BitVec 2) :
    (symbolStep eop s x).lineHistory = pushSample s.lineHistory x := by
  have hhist : (symbolStep eop s x).lineHistory = (pushed eop s x).lineHistory := by
    rw [symbolStep, settled_eq]
    rfl
  have hpush : (lineStateRx (present s x) (listening eop)).extractLsb' 0 2 = x := by
    have hrx : lineStateRx (present s x) (listening eop) = 0#1 ++ x := rfl
    rw [hrx, BitVec.extractLsb'_append_eq_right]
  have hstep : (pushed eop s x).lineHistory = lineHistoryD (present s x) (listening eop) := rfl
  have hvalid : lineStateValid (present s x) = true := rfl
  rw [hhist, hstep, lineHistoryD, hvalid, if_pos rfl, hpush]
  rfl

theorem low_two {a b : BitVec 2} (hl : h.extractLsb' 0 4 = a ++ b) : h.extractLsb' 0 2 = b := by
  rw [← extract_low h (show 0 + 2 ≤ 4 by omega), hl, BitVec.extractLsb'_append_eq_right]

/-- The cycle after the sample is over. -/
structure Latched (s : State) : Prop where
  core : core s = s
  addr : addrD s = s.addr
  endp : endpD s = s.endp
  frameNum : frameNumD s = s.frameNum
  rxDataPut : rxDataPut s = false

theorem latched_of_settled (hs : settled eop s = s) : Latched s := by
  have hcore : core s = s := by
    rw [← hs]
    rfl
  have heq := settled_eq eop s
  rw [hs, hcore] at heq
  exact
    { core := hcore
      addr := (congrArg State.addr heq).symm
      endp := (congrArg State.endp heq).symm
      frameNum := (congrArg State.frameNum heq).symm
      rxDataPut := by rw [← hs, rxDataPut_settled] }

theorem Latched.settled_eq (h : Latched s) (hin : inPacketD s (listening eop) = s.inPacket) :
    settled eop s = s := by
  rw [FsRx.settled_eq, hin, h.addr, h.endp, h.frameNum, h.rxDataPut, if_neg (by decide), h.core]

section se0
variable (hlow : s.lineHistory.extractLsb' 0 4 = symbolCode .se0 ++ symbolCode .se0)
include hlow

theorem not_sync_of_low : (s.lineHistory == syncHistory) = false := by
  rw [beq_eq_false_iff_ne]
  intro hsync
  rw [hsync] at hlow
  exact absurd hlow (by decide)

theorem packetValidD_of_low (hv : lineStateValid s = true) (i : Input) :
    packetValidD s i = false := by
  have hsync : (s.lineHistory == 0b011001100101#12) = false := not_sync_of_low hlow
  rw [packetValidD, hv, if_pos rfl, seeEop_of_se0 hlow, hsync]
  cases s.packetValid <;> cases i.diffRxOk <;> rfl

theorem dvalidRaw_of_low : dvalidRaw s = false := by
  have hpair : symbolPair s = false := by
    rw [symbolPair, hlow]
    rfl
  rw [dvalidRaw, hpair, Bool.and_false]

/-- After two SE0 a symbol only ends the packet. -/
theorem pushed_of_se0 (hs : settled eop s = s) (x : BitVec 2) : pushed eop s x =
    { s with packetValid := false, lineHistory := pushSample s.lineHistory x, inPacket := false,
             bitstuffHistory := if s.packetValid then 0 else s.bitstuffHistory } := by
  have hlow' : (present s x).lineHistory.extractLsb' 0 4 = symbolCode .se0 ++ symbolCode .se0 :=
    hlow
  have hl := latched_of_settled hs
  have hput : rxDataPut (present s x) = false := hl.rxDataPut
  have haddr : addrD (present s x) = s.addr := hl.addr
  have hendp : endpD (present s x) = s.endp := hl.endp
  have hframe : frameNumD (present s x) = s.frameNum := hl.frameNum
  have hvalid := packetValidD_of_low hlow' rfl (listening eop)
  have hstart : packetStart (present s x) (listening eop) = false := by
    rw [packetStart, hvalid, Bool.false_and]
  have hend : packetEnd (present s x) (listening eop) = s.packetValid := by
    rw [packetEnd, hvalid]
    rfl
  have hraw := dvalidRaw_of_low hlow'
  have hbit : dvalid (present s x) = false := by rw [dvalid, hraw, Bool.false_and]
  have hin : inPacketD (present s x) (listening eop) = false := by
    rw [inPacketD, seeEop_of_se0 hlow', if_pos rfl]
  have hpush : lineHistoryD (present s x) (listening eop) = pushSample s.lineHistory x := by
    rw [← lineHistory_symbolStep eop s x, symbolStep, settled_eq]
    rfl
  have hnot : (listening eop).linkReset = false := rfl
  rw [pushed]
  simp only [step, hnot, Bool.false_eq_true, if_false, hvalid, hin, hpush, bitstuffHistoryD,
    bitstuffErrorD, hstart, hend, hraw, hbit, fullPidD, crc5D, crc16D, tokenPayloadD, rxDataBufferD,
    rxDataLen16D, rxDataLenD, hput, haddr, hendp, hframe, Bool.false_and, Bool.and_false,
    Bool.or_false]
  conv_rhs => rw [← hl.core]
  rfl

/-- Nothing more comes of it. -/
theorem event_pushed_of_se0 (hs : settled eop s = s) (x : BitVec 2) :
    event (pushed eop s x) (listening eop) = none := by
  have hput : rxDataPut (pushed eop s x) = false := by
    rw [pushed_of_se0 hlow hs]
    exact (latched_of_settled hs).rxDataPut
  have hvalid : lineStateValid (pushed eop s x) = false := rfl
  have hend : packetEnd (pushed eop s x) (listening eop) = false := by
    simp [packetEnd, packetValidD, hvalid]
  rw [event, hput, hend]
  rfl

theorem low_pushed_se0 (hs : settled eop s = s) :
    (pushed eop s (symbolCode .se0)).lineHistory.extractLsb' 0 4 =
      symbolCode .se0 ++ symbolCode .se0 := by
  have hpush := pushSample_low s.lineHistory (symbolCode .se0) (n := 2) (by omega)
  rw [pushed_of_se0 hlow hs, hpush, low_two hlow]

/-- A third SE0 is settled at once. -/
theorem symbolStep_se0 (hs : settled eop s = s) :
    symbolStep eop s (symbolCode .se0) = pushed eop s (symbolCode .se0) := by
  have hl := latched_of_settled hs
  have hpush := pushed_of_se0 hlow hs (symbolCode .se0)
  have hnext : Latched (pushed eop s (symbolCode .se0)) := by
    rw [hpush]
    refine ⟨?_, hl.addr, hl.endp, hl.frameNum, hl.rxDataPut⟩
    conv_rhs => rw [← hl.core]
    rfl
  refine hnext.settled_eq ?_
  rw [inPacketD, seeEop_of_se0 (low_pushed_se0 hlow hs), if_pos rfl, hpush]

/-- After two SE0 one more makes no difference to the next symbol. -/
theorem extra_se0 (hs : settled eop s = s) (x : BitVec 2) :
    symbolOut eop event s x = symbolOut eop event s (symbolCode .se0) ++
        symbolOut eop event (symbolStep eop s (symbolCode .se0)) x ∧
      Forgets (symbolStep eop s x) (symbolStep eop (symbolStep eop s (symbolCode .se0)) x) := by
  have hthird := symbolStep_se0 hlow hs
  have hlow' := low_pushed_se0 hlow hs
  have hpush := pushed_of_se0 hlow hs (symbolCode .se0)
  rw [hthird]
  generalize hp : pushed eop s (symbolCode .se0) = p at hthird hlow' hpush
  have hsettled : settled eop p = p := by rw [← hthird, symbolStep, settled_settled]
  constructor
  · have hfirst : event (present s x) (listening eop) =
        event (present s (symbolCode .se0)) (listening eop) :=
      (event_symbolOutput eop).congr (listens_listening eop) (listens_listening eop) rfl rfl
    have hsecond : event (present p x) (listening eop) = none := by
      have hput : rxDataPut (present p x) = false := (latched_of_settled hsettled).rxDataPut
      have hvalid : (present p x).packetValid = false := by rw [hpush]; rfl
      rw [event, hput, packetEnd, hvalid, Bool.and_false]
      rfl
    simp only [symbolOut, event_pushed_of_se0 hlow hs, event_pushed_of_se0 hlow' hsettled, hfirst,
      hsecond, Option.toList_none, List.append_nil]
  · have htail : SameTail (pushSample s.lineHistory x) (pushSample p.lineHistory x) := by
      refine .since 1 (by omega) (by omega) ?_ ?_
      · rw [pushSample_low _ _ (by omega), pushSample_low _ _ (by omega), low_two hlow,
          low_two hlow']
      · have hextract := extract_push s.lineHistory x (n := 0) (by omega)
        exact hextract.trans (low_two hlow)
    have hforgets : Forgets (pushed eop s x) (pushed eop p x) := by
      refine ⟨pushSample p.lineHistory x, ?_, ?_⟩
      · rw [pushed_of_se0 hlow hs, pushed_of_se0 hlow' hsettled, hpush]
        rfl
      · rw [pushed_of_se0 hlow hs]
        exact htail
    exact (hforgets.core.step rfl).core

end se0

end UsbDev.FsRx
