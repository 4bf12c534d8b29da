import UsbDev.RxSymbols
import UsbDev.RxBytes

/-!
# The receiver behind its clock recovery

Behind line state and clock recovery the receiver acts on one symbol at a time:
the cycle that takes a sample, and a cycle after it in which the fields of the
token are latched and a byte is put out. More cycles without a sample change
nothing. So what it reports is a function of the samples, however these lie in
time.
-/
namespace UsbDev.FsRx

open Clocked

/-- The registers behind the clock recovery; the others are cleared. -/
def core (s : State) : State :=
  { s with lineStateQ := SE0, lineStateQQ := SE0, diffStateQ := SE0, bitPhase := 0,
           rxIdleDet := false }

/-- An input of a receiver that listens, with valid symbols. -/
structure Listens (eop : Bool) (i : Input) : Prop where
  linkReset : i.linkReset = false
  cfgEopSingleBit : i.cfgEopSingleBit = eop
  diffRxOk : i.diffRxOk = true
  txEn : i.txEn = false

def listening (eop : Bool) : Input where
  linkReset := false
  cfgEopSingleBit := eop
  cfgUseDiffRcvr := false
  cfgPinflip := false
  diffRxOk := true
  usbD := false
  usbDp := false
  usbDn := false
  txEn := false

/-- The clock recovery shows a symbol and asks for a sample. -/
def present (s : State) (x : BitVec 2) : State := { core s with lineStateQ := 0#1 ++ x, bitPhase := 1 }

/-- The cycle that takes a sample. -/
def pushed (eop : Bool) (s : State) (x : BitVec 2) : State :=
  core (step (present s x) (listening eop))

/-- A cycle without a sample. -/
def settled (eop : Bool) (s : State) : State := core (step (core s) (listening eop))

/-- One symbol. -/
def symbolStep (eop : Bool) (s : State) (x : BitVec 2) : State := settled eop (pushed eop s x)

variable {eop : Bool} {s s' : State} {i j : Input}

@[simp] theorem core_core (s : State) : core (core s) = core s := rfl

@[simp] theorem settled_core (eop : Bool) (s : State) : settled eop (core s) = settled eop s := rfl

theorem listens_listening (eop : Bool) : Listens eop (listening eop) := ⟨rfl, rfl, rfl, rfl⟩

theorem inPacketD_congr (hi : Listens eop i) (hj : Listens eop j) (h : core s = core s') :
    inPacketD s i = inPacketD s' j := by
  have hcore (s : State) (i : Input) (hi : Listens eop i) :
      inPacketD s i = inPacketD (core s) (listening eop) := by
    simp only [inPacketD, seeEop, seeSop, hi.cfgEopSingleBit, hi.txEn]
    rfl
  rw [hcore s i hi, hcore s' j hj, h]

/-- What a cycle without a sample changes. -/
theorem core_step_of_not_valid (hi : Listens eop i) (hv : lineStateValid s = false) :
    core (step s i) =
      { core s with
        inPacket := inPacketD s i, addr := addrD s, endp := endpD s, frameNum := frameNumD s
        rxDataBuffer := if rxDataPut s then 0b100000000#9 else s.rxDataBuffer } := by
  have hvalid : packetValidD s i = s.packetValid := by simp [packetValidD, hv]
  have hstart : packetStart s i = false := by simp [packetStart, hvalid]
  have hend : packetEnd s i = false := by simp [packetEnd, hvalid]
  have hraw : dvalidRaw s = false := by simp [dvalidRaw, hv]
  have hbit : dvalid s = false := by simp [dvalid, hraw]
  simp [step, core, hi.linkReset, hvalid, hstart, hend, hraw, hbit, lineHistoryD, hv,
    bitstuffHistoryD, bitstuffErrorD, fullPidD, crc5D, crc16D, tokenPayloadD, rxDataBufferD,
    rxDataLen16D, rxDataLenD]

theorem core_step_idle (hi : Listens eop i) (hv : lineStateValid s = false) :
    core (step s i) = settled eop s := by
  rw [settled, core_step_of_not_valid hi hv,
    core_step_of_not_valid (s := core s) (listens_listening eop) rfl,
    inPacketD_congr hi (listens_listening eop) (core_core s).symm]
  rfl

theorem settled_eq (eop : Bool) (s : State) : settled eop s =
    { core s with
      inPacket := inPacketD s (listening eop), addr := addrD s, endp := endpD s
      frameNum := frameNumD s
      rxDataBuffer := if rxDataPut s then 0b100000000#9 else s.rxDataBuffer } :=
  core_step_of_not_valid (s := core s) (listens_listening eop) rfl

theorem rxDataPut_settled (eop : Bool) (s : State) : rxDataPut (settled eop s) = false := by
  rw [settled_eq]
  cases h : rxDataPut s with
  | true => simp [rxDataPut]
  | false => simpa [rxDataPut] using h

theorem inPacketD_listening (eop : Bool) (s : State) : inPacketD s (listening eop) =
    (!seeEop s (listening eop) && (s.lineHistory.extractLsb' 0 4 == 0b1001#4 || s.inPacket)) := by
  have htx : (listening eop).txEn = false := rfl
  simp only [inPacketD, seeSop, htx]
  generalize (s.lineHistory.extractLsb' 0 4 == 0b1001#4) = sop
  cases seeEop s (listening eop) <;> cases s.inPacket <;> cases sop <;> rfl

theorem settled_settled (eop : Bool) (s : State) :
    settled eop (settled eop s) = settled eop s := by
  have hput := rxDataPut_settled eop s
  have hin : inPacketD (settled eop s) (listening eop) = inPacketD s (listening eop) := by
    have heop : seeEop (settled eop s) (listening eop) = seeEop s (listening eop) := by
      rw [settled_eq]
      rfl
    have hhist : (settled eop s).lineHistory = s.lineHistory := by rw [settled_eq]; rfl
    have hnext : (settled eop s).inPacket = inPacketD s (listening eop) := by rw [settled_eq]
    rw [inPacketD_listening, heop, hhist, hnext, inPacketD_listening]
    cases seeEop s (listening eop) <;> cases s.inPacket <;> simp
  have hlatched (done : Bool) {w : ℕ} (x y : BitVec w) :
      (if done then x else if done then x else y) = if done then x else y := by
    cases done <;> rfl
  have haddr : addrD (settled eop s) = addrD s := by
    rw [settled_eq]
    exact hlatched _ _ _
  have hendp : endpD (settled eop s) = endpD s := by
    rw [settled_eq]
    exact hlatched _ _ _
  have hframe : frameNumD (settled eop s) = frameNumD s := by
    rw [settled_eq]
    exact hlatched _ _ _
  rw [settled_eq eop (settled eop s), hin, hput, if_neg (by decide), haddr, hendp, hframe,
    settled_eq]
  rfl

theorem packetValidD_present (hi : Listens eop i) (hv : lineStateValid s = true) (x : BitVec 2) :
    packetValidD (present s x) (listening eop) = packetValidD s i := by
  have hseop : seeEop (present s x) (listening eop) = seeEop s i := by
    simp only [seeEop, hi.cfgEopSingleBit]
    rfl
  have hvalid : lineStateValid (present s x) = true := rfl
  rw [packetValidD, packetValidD, hvalid, hv, if_pos rfl, if_pos rfl, hseop, hi.diffRxOk]
  rfl

/-- The cycle that takes a sample depends on the clock recovery by the sample only. -/
theorem core_step_valid (hi : Listens eop i) (hv : lineStateValid s = true) :
    core (step s i) = pushed eop s ((lineStateRx s i).extractLsb' 0 2) := by
  generalize hx : (lineStateRx s i).extractLsb' 0 2 = x
  have hvalid := packetValidD_present hi hv x
  have hv' : lineStateValid (present s x) = true := rfl
  have hin : inPacketD (present s x) (listening eop) = inPacketD s i := by
    simp only [inPacketD, seeEop, seeSop, hi.cfgEopSingleBit, hi.txEn]
    rfl
  have hraw : dvalidRaw (present s x) = dvalidRaw s := by
    rw [dvalidRaw, dvalidRaw, hv, hv']
    rfl
  have hbit : dvalid (present s x) = dvalid s := by
    rw [dvalid, dvalid, hraw]
    rfl
  have hstart : packetStart (present s x) (listening eop) = packetStart s i := by
    rw [packetStart, packetStart, hvalid]
    rfl
  have hend : packetEnd (present s x) (listening eop) = packetEnd s i := by
    rw [packetEnd, packetEnd, hvalid]
    rfl
  have hpush : (lineStateRx (present s x) (listening eop)).extractLsb' 0 2 = x := by
    have hrx : lineStateRx (present s x) (listening eop) = 0#1 ++ x := rfl
    rw [hrx, BitVec.extractLsb'_append_eq_right]
  have hnot : (listening eop).linkReset = false := rfl
  simp only [pushed, step, hi.linkReset, hnot, Bool.false_eq_true, if_false, core, hvalid, hin,
    lineHistoryD, hv, hv', if_true, hx, hpush, bitstuffHistoryD, bitstuffErrorD, hstart, hend, hraw,
    hbit, fullPidD, crc5D, crc16D, tokenPayloadD, rxDataBufferD, rxDataLen16D, rxDataLenD]
  rfl

/-! ### Runs -/

/-- An output that the clock recovery drives through `line_state_valid` only, and that is silent
once the cycle after the sample is over. -/
structure SymbolOutput {α : Type*} (eop : Bool) (out : State → Input → Option α) : Prop where
  congr : ∀ {s s' i j}, Listens eop i → Listens eop j → core s = core s' →
    lineStateValid s = lineStateValid s' → out s i = out s' j
  silent : ∀ s, out (settled eop s) (listening eop) = none

section
variable {α : Type*} {out : State → Input → Option α}

/-- What a symbol makes the receiver put out. -/
def symbolOut (eop : Bool) (out : State → Input → Option α) (s : State) (x : BitVec 2) : List α :=
  (out (present s x) (listening eop)).toList ++ (out (pushed eop s x) (listening eop)).toList

/-- What a list of symbols makes the receiver put out. -/
def symbolLog (eop : Bool) (out : State → Input → Option α) (s : State) (xs : List (BitVec 2)) :
    List α :=
  (Clocked.outs (symbolStep eop) (symbolOut eop out) s xs).flatten

theorem symbolLog_cons (s : State) (x : BitVec 2) (xs : List (BitVec 2)) :
    symbolLog eop out s (x :: xs) =
      symbolOut eop out s x ++ symbolLog eop out (symbolStep eop s x) xs := rfl

theorem symbolLog_append (s : State) (xs ys : List (BitVec 2)) :
    symbolLog eop out s (xs ++ ys) = symbolLog eop out s xs ++
      symbolLog eop out (Clocked.run (symbolStep eop) s xs) ys := by
  rw [symbolLog, outs_append, List.flatten_append]
  rfl

theorem SymbolOutput.idle (h : SymbolOutput eop out) (hi : Listens eop i)
    (hv : lineStateValid s = false) : out s i = out (core s) (listening eop) :=
  h.congr hi (listens_listening eop) rfl hv

theorem SymbolOutput.valid (h : SymbolOutput eop out) (hi : Listens eop i)
    (hv : lineStateValid s = true) (hs : core s = settled eop s) (x : BitVec 2) :
    out s i = out (present (settled eop s) x) (listening eop) := by
  refine h.congr hi (listens_listening eop) ?_ hv
  rw [← hs]
  rfl

/-- What the receiver puts out over some cycles, up to what the last sample has yet to give,
follows from the samples. -/
theorem SymbolOutput.log (h : SymbolOutput eop out) (is : List Input)
    (his : ∀ i ∈ is, Listens eop i) (hs : lineStateValid s = true → core s = settled eop s) :
    Clocked.log step out s is ++
        (out (core (Clocked.run step s is)) (listening eop)).toList =
      (out (core s) (listening eop)).toList ++
        symbolLog eop out (settled eop s) (Clocked.log step sample s is) ∧
    settled eop (Clocked.run step s is) =
      Clocked.run (symbolStep eop) (settled eop s) (Clocked.log step sample s is) := by
  induction is generalizing s with
  | nil => exact ⟨by simp [symbolLog], rfl⟩
  | cons i is ih =>
      have hi := his i (by simp)
      have hrest (hs' : lineStateValid (step s i) = true → core (step s i) = settled eop (step s i)) :=
        ih (fun j hj => his j (by simp [hj])) hs'
      cases hv : lineStateValid s with
      | false =>
          have hnext := core_step_idle hi hv
          have hsettled : settled eop (step s i) = settled eop s := by
            rw [← settled_core, hnext, settled_settled]
          obtain ⟨hlog, hrun⟩ := hrest fun _ => by rw [hsettled, hnext]
          have hsample : sample s i = none := by rw [sample, hv, if_neg (by decide)]
          rw [log_cons, log_cons, hsample, Option.toList_none, List.nil_append, run_cons, hrun,
            hsettled, List.append_assoc, hlog, hnext, h.silent, h.idle hi hv, hsettled]
          exact ⟨rfl, rfl⟩
      | true =>
          generalize hx : (lineStateRx s i).extractLsb' 0 2 = x
          have hsample : sample s i = some x := by rw [sample, hv, if_pos rfl, hx]
          have hnext : core (step s i) = pushed eop (settled eop s) x := by
            rw [core_step_valid hi hv, hx, ← hs hv]
            rfl
          have hsettled : settled eop (step s i) = symbolStep eop (settled eop s) x := by
            rw [symbolStep, ← hnext, settled_core]
          have hnot := not_valid_step hi.linkReset hv
          obtain ⟨hlog, hrun⟩ := hrest fun hc => by rw [hnot] at hc; cases hc
          have hquiet : out (core s) (listening eop) = none := by rw [hs hv, h.silent]
          rw [log_cons, log_cons, hsample, run_cons, hrun, List.append_assoc, hlog,
            h.valid hi hv (hs hv) x, hquiet, hnext, hsettled]
          exact ⟨by rw [← List.append_assoc]; rfl, rfl⟩

end

end UsbDev.FsRx
