import UsbDev.RxBits

/-!
# The receiver and the symbols on the line

The receiver takes one sample of the line state in every bit time. The NRZI
decoder compares each sample with the one before, so the bits decoded within a
packet are those of its samples, the last one excepted, starting from the K that
ends SYNC.
-/
namespace UsbDev.FsRx

open LineCode Clocked

/-- The two bits that `line_history_q` takes for a symbol. -/
def symbolCode : Line → BitVec 2
  | .j => 0b10#2
  | .k => 0b01#2
  | .se0 => 0b00#2

/-- The sample taken in this cycle. -/
def sample (s : State) (i : Input) : Option (BitVec 2) :=
  if lineStateValid s then some ((lineStateRx s i).extractLsb' 0 2) else none

/-- The bit that two samples in a row stand for, if both are J or K. -/
def pairBit (a b : BitVec 2) : Option Bool :=
  if (a = symbolCode .j ∨ a = symbolCode .k) ∧ (b = symbolCode .j ∨ b = symbolCode .k) then
    some (a == b)
  else none

/-- The bits of a list of samples, compared with the sample `a` before them. -/
def pairBits (a : BitVec 2) : List (BitVec 2) → List Bool
  | [] => []
  | b :: xs => (pairBit a b).toList ++ pairBits b xs

/-- The bits that a list of levels codes, after the level `level`. -/
def nrziDecode (level : Bool) : List Bool → List Bool
  | [] => []
  | l :: ls => (level == l) :: nrziDecode l ls

@[simp] theorem length_nrziDecode (level : Bool) (ls : List Bool) :
    (nrziDecode level ls).length = ls.length := by
  induction ls generalizing level with
  | nil => rfl
  | cons l ls ih => simp [nrziDecode, ih]

theorem nrziDecode_nrzi (level : Bool) (bs : List Bool) :
    nrziDecode level (nrzi level bs) = bs := by
  induction bs generalizing level with
  | nil => rfl
  | cons b bs ih => rw [nrzi_cons, nrziDecode, beq_nrziStep, ih]

/-- The samples of J and K symbols. -/
def levelSamples (ls : List Bool) : List (BitVec 2) := ls.map fun l => symbolCode (Line.ofLevel l)

theorem pairBit_level (a b : Bool) :
    pairBit (symbolCode (Line.ofLevel a)) (symbolCode (Line.ofLevel b)) = some (a == b) := by
  cases a <;> cases b <;> decide

theorem pairBit_se0 (a : BitVec 2) : pairBit a (symbolCode .se0) = none := by
  have hse0 : ¬ (symbolCode .se0 = symbolCode .j ∨ symbolCode .se0 = symbolCode .k) := by decide
  exact if_neg fun h => hse0 h.2

theorem pairBits_se0 (a : BitVec 2) (n : ℕ) :
    pairBits a (List.replicate n (symbolCode .se0)) = [] := by
  induction n generalizing a with
  | zero => rfl
  | succ n ih => rw [List.replicate_succ, pairBits, pairBit_se0, ih, Option.toList_none,
      List.nil_append]

/-- Only the J and K symbols before the end of packet carry bits. -/
theorem pairBits_levels (level : Bool) (ls : List Bool) (n : ℕ) :
    pairBits (symbolCode (Line.ofLevel level))
        (levelSamples ls ++ List.replicate n (symbolCode .se0)) = nrziDecode level ls := by
  induction ls generalizing level with
  | nil => exact pairBits_se0 _ n
  | cons l ls ih =>
      change (pairBit _ _).toList ++ pairBits _ (levelSamples ls ++ _) = _
      rw [pairBit_level, ih]
      rfl

/-! ### Samples and decoded bits -/

theorem pair_table : ∀ a b : BitVec 2,
    pairBit a b =
      if a ++ b == 0b0101#4 || a ++ b == 0b0110#4 || a ++ b == 0b1001#4 || a ++ b == 0b1010#4 then
        some (a ++ b == 0b0101#4 || a ++ b == 0b1010#4)
      else none := by decide +kernel

theorem history_push (h : BitVec 12) (a b c : BitVec 2) (hab : h.extractLsb' 0 4 = a ++ b) :
    (h.extractLsb' 0 10 ++ c).extractLsb' 0 4 = b ++ c := by
  have hbit : ∀ k < 2, h.getLsbD k = b.getLsbD k := by
    intro k hk
    have hget := congrArg (fun x : BitVec 4 => x.getLsbD k) hab
    simpa only [BitVec.getLsbD_extractLsb', BitVec.getLsbD_append, hk, if_true, Nat.zero_add,
      show k < 4 by omega, decide_true, Bool.true_and] using hget
  refine BitVec.eq_of_getLsbD_eq fun k hk => ?_
  rw [BitVec.getLsbD_extractLsb', BitVec.getLsbD_append, BitVec.getLsbD_append, Nat.zero_add]
  by_cases hk2 : k < 2
  · simp [hk2, hk]
  · simp [hk2, hk, hbit (k - 2) (by omega), show k - 2 < 10 by omega]

variable {s : State} {i : Input} {a b : BitVec 2}

/-- The decoder looks at the last two samples. -/
theorem decodedBit_eq (hv : s.packetValid = true) (hh : s.lineHistory.extractLsb' 0 4 = a ++ b) :
    decodedBit s = if lineStateValid s then pairBit a b else none := by
  rw [decodedBit, dvalidRaw, hv, Bool.true_and, symbolPair, din, hh, pair_table]
  cases lineStateValid s <;> rfl

/-- The bits decoded over some cycles of a packet, from its samples: the last one is not yet
compared. -/
theorem log_decodedBit (hv : s.packetValid = true) (hh : s.lineHistory.extractLsb' 0 4 = a ++ b)
    (is : List Input) (hl : ∀ i ∈ is, i.linkReset = false)
    (he : ∀ e ∈ outs step packetEnd s is, e = false) :
    Clocked.log step (fun s _ => decodedBit s) s is =
      pairBits a ((b :: Clocked.log step sample s is).dropLast) := by
  induction is generalizing s a b with
  | nil => rfl
  | cons i is ih =>
      have hreset := hl i (by simp)
      have hend : packetEnd s i = false := he _ (by simp)
      have hv' : (step s i).packetValid = true := by
        rw [step_packetValid s hreset]
        simpa [packetEnd, hv] using hend
      have hrest := fun a b hh => ih (s := step s i) (a := a) (b := b) hv' hh
        (fun j hj => hl j (by simp [hj])) (fun e hj => he e (by simp [hj]))
      have hhist : (step s i).lineHistory = lineHistoryD s i := by simp [step, hreset]
      rw [log_cons, log_cons, decodedBit_eq hv hh, sample]
      cases hvalid : lineStateValid s with
      | false =>
          rw [hrest a b (by rw [hhist, lineHistoryD, hvalid, if_neg (by decide), hh])]
          rfl
      | true =>
          rw [hrest b _ (by
            rw [hhist, lineHistoryD, hvalid, if_pos rfl]
            exact history_push _ a b _ hh)]
          rfl

/-! ### A packet from start to end -/

/-- A packet: `first` is the cycle in which the identifier begins, `last` the cycle in which the
receiver reports the end. -/
structure PacketRun (s : State) (first : Input) (mid : List Input) (last : Input) : Prop where
  settled : Settled s
  start : packetStart s first = true
  linkReset : ∀ i ∈ first :: mid, i.linkReset = false
  middle : ∀ e ∈ outs step packetEnd (step s first) mid, e = false
  ends : packetEnd (Clocked.run step s (first :: mid)) last = true

/-- The NRZI bits of a packet, from all samples that the receiver compares before its end. -/
def packetBits (s : State) (is : List Input) : List Bool :=
  pairBits (symbolCode .k) (Clocked.log step sample s is).dropLast

variable {first last : Input} {mid : List Input}

/-- The bits decoded within a packet. -/
theorem PacketRun.log_decodedBit (h : PacketRun s first mid last) :
    Clocked.log step (fun s _ => decodedBit s) (step s first) mid = packetBits s (first :: mid) := by
  have hreset := h.linkReset first (by simp)
  have hfirst := Receiving.start h.settled hreset h.start
  have hstart := h.start
  simp only [packetStart, Bool.and_eq_true, Bool.not_eq_true', packetValidD] at hstart
  obtain ⟨hvalid, hidle⟩ := hstart
  have hphase : lineStateValid s = true := by
    by_contra hne
    simp [hne, hidle] at hvalid
  have hsync : s.lineHistory = 0b011001100101#12 := by
    by_contra hne
    simp [hphase, hidle, hne] at hvalid
  have hhist : (step s first).lineHistory.extractLsb' 0 4 =
      symbolCode .k ++ (lineStateRx s first).extractLsb' 0 2 := by
    have hline : (step s first).lineHistory = lineHistoryD s first := by simp [step, hreset]
    rw [hline, lineHistoryD, hphase, if_pos rfl]
    refine history_push _ (symbolCode .k) _ _ ?_
    rw [hsync]
    decide
  rw [packetBits, log_cons, sample, hphase, if_pos rfl]
  exact FsRx.log_decodedBit hfirst.packetValid hhist mid (fun i hi => h.linkReset i (by simp [hi]))
    h.middle

/-- At the end of a packet the registers hold its bits. -/
theorem PacketRun.receiving (h : PacketRun s first mid last) :
    Receiving (Clocked.run step s (first :: mid)) (packetBits s (first :: mid)) := by
  have hfirst := Receiving.start h.settled (h.linkReset first (by simp)) h.start
  have hrun := hfirst.run mid (fun i hi => h.linkReset i (by simp [hi])) h.middle
  rw [h.log_decodedBit, List.nil_append] at hrun
  exact hrun

/-- The symbols between SYNC and the end of packet are `ls`, J or K; the receiver takes samples
of these, and of the SE0 after them, until it reports the end. -/
structure SymbolPacket (s : State) (first : Input) (mid : List Input) (last : Input)
    (ls : List Bool) : Prop extends PacketRun s first mid last where
  diffRxOk : last.diffRxOk = true
  symbols : ∃ n, Clocked.log step sample s (first :: mid) <+:
    levelSamples ls ++ List.replicate n (symbolCode .se0)

/-- A sample enters the history. -/
def pushSample (h : BitVec 12) (x : BitVec 2) : BitVec 12 := h.extractLsb' 0 10 ++ x

/-- The history is made of the samples. -/
theorem run_lineHistory (s : State) (is : List Input) (hl : ∀ i ∈ is, i.linkReset = false) :
    (Clocked.run step s is).lineHistory =
      (Clocked.log step sample s is).foldl pushSample s.lineHistory := by
  induction is generalizing s with
  | nil => rfl
  | cons i is ih =>
      have hhist : (step s i).lineHistory = lineHistoryD s i := by simp [step, hl i (by simp)]
      rw [run_cons, ih _ fun j hj => hl j (by simp [hj]), hhist, lineHistoryD, log_cons, sample]
      cases lineStateValid s <;> rfl

theorem nrziDecode_prefix {level : Bool} {ls ls' : List Bool} (h : ls <+: ls') :
    nrziDecode level ls <+: nrziDecode level ls' := by
  obtain ⟨t, rfl⟩ := h
  induction ls generalizing level with
  | nil => exact List.nil_prefix
  | cons l ls ih => exact List.cons_prefix_cons.2 ⟨rfl, ih⟩

theorem pairBits_levelSamples (level : Bool) (ls : List Bool) :
    pairBits (symbolCode (Line.ofLevel level)) (levelSamples ls) = nrziDecode level ls := by
  have hbits := pairBits_levels level ls 0
  rw [List.replicate_zero, List.append_nil] at hbits
  exact hbits

/-- The cycle of `packet_start` takes a sample. -/
theorem PacketRun.valid_start (h : PacketRun s first mid last) : lineStateValid s = true := by
  by_contra hne
  have hstart := h.start
  simp only [packetStart, packetValidD, hne, Bool.and_eq_true, Bool.not_eq_true'] at hstart
  exact absurd (hstart.1.symm.trans hstart.2) (by decide)

/-- While the symbols are valid only the end conditions end a packet. -/
theorem seeEop_of_packetEnd (h : packetEnd s i = true) (hd : i.diffRxOk = true) :
    seeEop s i = true := by
  simp only [packetEnd, Bool.and_eq_true, Bool.not_eq_true', packetValidD] at h
  obtain ⟨hend, hv⟩ := h
  by_contra hne
  simp [hv, hd, hne] at hend

/-- A J or K symbol is no end of packet. -/
theorem early_of_level {l : Bool} (h : seeEop s i = true)
    (hl : s.lineHistory.extractLsb' 0 2 = symbolCode (Line.ofLevel l)) :
    s.bitstuffError = true ∨ seePreamble s = true := by
  have hne : s.lineHistory.extractLsb' 0 2 ≠ 0b00#2 := by
    rw [hl]
    cases l <;> decide
  have hne4 : s.lineHistory.extractLsb' 0 4 ≠ 0b0000#4 := by
    intro h4
    have hcut := congrArg (fun x : BitVec 4 => x.extractLsb' 0 2) h4
    rw [BitVec.extractLsb'_extractLsb'_of_le (by decide)] at hcut
    exact hne hcut
  simpa [seeEop, hne, hne4] using h

/-- A packet of J and K symbols is received up to its end, or it ends early on a bit stuffing
error or a PRE identifier. -/
theorem SymbolPacket.samples_cases {ls : List Bool} (h : SymbolPacket s first mid last ls) :
    (∃ n, Clocked.log step sample s (first :: mid) =
        levelSamples ls ++ List.replicate (n + 1) (symbolCode .se0)) ∨
      ((Clocked.run step s (first :: mid)).bitstuffError = true ∨
        seePreamble (Clocked.run step s (first :: mid)) = true) ∧
      packetBits s (first :: mid) <+: nrziDecode false ls := by
  obtain ⟨n, hpre⟩ := h.symbols
  by_cases hlen : (Clocked.log step sample s (first :: mid)).length ≤ (levelSamples ls).length
  · have hshort : Clocked.log step sample s (first :: mid) <+: levelSamples ls :=
      List.prefix_of_prefix_length_le hpre (List.prefix_append _ _) hlen
    have hxs := List.prefix_iff_eq_take.1 hshort
    rw [levelSamples, ← List.map_take] at hxs
    have hne : ls.take (Clocked.log step sample s (first :: mid)).length ≠ [] := by
      intro hnil
      rw [hnil, log_cons, sample, h.valid_start] at hxs
      exact absurd hxs (by simp)
    obtain ⟨init, l, hinit⟩ := (List.eq_nil_or_concat' _).resolve_left hne
    have hsub : init <+: ls := by
      have htake := List.take_prefix (Clocked.log step sample s (first :: mid)).length ls
      rw [hinit] at htake
      exact (List.prefix_append init [l]).trans htake
    rw [hinit, List.map_append, List.map_singleton] at hxs
    have hlast : (Clocked.run step s (first :: mid)).lineHistory.extractLsb' 0 2 =
        symbolCode (Line.ofLevel l) := by
      rw [run_lineHistory s _ h.linkReset, hxs, List.foldl_concat, pushSample,
        BitVec.extractLsb'_append_eq_right]
    have hbits : packetBits s (first :: mid) = nrziDecode false init := by
      rw [packetBits, hxs, List.dropLast_concat]
      exact pairBits_levelSamples false init
    refine .inr ⟨early_of_level (seeEop_of_packetEnd h.ends h.diffRxOk) hlast, ?_⟩
    rw [hbits]
    exact nrziDecode_prefix hsub
  · have hall : levelSamples ls <+: Clocked.log step sample s (first :: mid) :=
      List.prefix_of_prefix_length_le (List.prefix_append _ _) hpre (by omega)
    obtain ⟨t, ht⟩ := hall
    rw [← ht, List.prefix_append_right_inj] at hpre
    have hse0 : t = List.replicate t.length (symbolCode .se0) :=
      List.eq_replicate_iff.2 ⟨rfl, fun x hx => List.eq_of_mem_replicate (hpre.mem hx)⟩
    have hpos : t.length = (t.length - 1) + 1 := by
      rw [← ht, List.length_append] at hlen
      omega
    exact .inl ⟨t.length - 1, by rw [← hpos, ← hse0, ht]⟩

/-- All bits are decoded when the end of packet has been seen. -/
theorem packetBits_of_complete {ls : List Bool} {n : ℕ} {is : List Input}
    (h : Clocked.log step sample s is =
      levelSamples ls ++ List.replicate (n + 1) (symbolCode .se0)) :
    packetBits s is = nrziDecode false ls := by
  rw [packetBits, h, List.replicate_succ', ← List.append_assoc, List.dropLast_concat]
  exact pairBits_levels false ls n

end UsbDev.FsRx
