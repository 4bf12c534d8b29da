import UsbDev.RxBytes
import UsbDev.RxClock

/-!
# Between packets

While no packet is received nothing is reported, and a packet starts only on a
history that ends in KJKJKK. SYNC after an idle line is recognised with its last
symbol, for every bit phase that the idle line left behind.
-/
namespace UsbDev.FsRx

open LineCode Clocked Deserializer

/-- The history that starts a packet. -/
def syncHistory : BitVec 12 := 0b011001100101#12

/-- With `a` and `b` as the last samples no further one meets the end of SYNC. -/
def NoSync (a b : BitVec 2) : List (BitVec 2) → Prop
  | [] => True
  | x :: xs => a ++ b ≠ 0b0101#4 ∧ NoSync b x xs

instance decidableNoSync : ∀ (a b : BitVec 2) (xs : List (BitVec 2)), Decidable (NoSync a b xs)
  | _, _, [] => inferInstanceAs (Decidable True)
  | a, b, x :: xs =>
      have := decidableNoSync b x xs
      inferInstanceAs (Decidable (a ++ b ≠ 0b0101#4 ∧ NoSync b x xs))

theorem noSync_of_not_k {a b : BitVec 2} (hb : b ≠ symbolCode .k) {xs : List (BitVec 2)}
    (h : ∀ x ∈ xs, x ≠ symbolCode .k) : NoSync a b xs := by
  induction xs generalizing a b with
  | nil => exact trivial
  | cons x xs ih =>
      have hne : ∀ a b : BitVec 2, b ≠ symbolCode .k → a ++ b ≠ 0b0101#4 := by decide
      exact ⟨hne a b hb, ih (h x (by simp)) fun y hy => h y (by simp [hy])⟩

theorem pushSample_low (h : BitVec 12) (x : BitVec 2) {n : ℕ} (hn : n ≤ 10) :
    (pushSample h x).extractLsb' 0 (n + 2) = h.extractLsb' 0 n ++ x := by
  refine BitVec.eq_of_getLsbD_eq fun k hk => ?_
  simp only [pushSample, BitVec.getLsbD_append, BitVec.getLsbD_extractLsb', Nat.zero_add, hk,
    decide_true, Bool.true_and]
  split_ifs with h2
  · rfl
  · simp [show k - 2 < 10 by omega, show k - 2 < n by omega]

/-- The last six symbols of SYNC fill the history. -/
theorem foldl_pushSample_sync (h : BitVec 12) :
    ([.k, .j, .k, .j, .k, .k].map symbolCode).foldl pushSample h = syncHistory := by
  have hall : ∀ x : BitVec 12, x.extractLsb' 0 (10 + 2) = x := fun x => BitVec.extractLsb'_eq_self
  have hnone : h.extractLsb' 0 0 = 0#0 := BitVec.eq_of_zero_length rfl
  simp only [List.map_cons, List.map_nil, List.foldl_cons, List.foldl_nil]
  rw [← hall (pushSample _ _), pushSample_low _ _ (by decide),
    pushSample_low (n := 8) _ _ (by decide), pushSample_low (n := 6) _ _ (by decide),
    pushSample_low (n := 4) _ _ (by decide), pushSample_low (n := 2) _ _ (by decide),
    pushSample_low (n := 0) _ _ (by decide), hnone]
  decide

/-! ### Reports -/

/-- The outputs of the receiver at the end of a packet. -/
structure Report where
  valid : Bool
  pid : BitVec 4
  addr : BitVec 7
  endp : BitVec 4
  frameNum : BitVec 11
  crc5Error : Bool
  crc16Error : Bool
  pidError : Bool
  bitstuffError : Bool
  deriving DecidableEq, Repr

def Report.noError (r : Report) : Bool :=
  !r.crc5Error && !r.crc16Error && !r.pidError && !r.bitstuffError

/-- What is reported in a cycle: the outputs when `pkt_end_o` pulses. -/
def report (s : State) (i : Input) : Option Report :=
  if packetEnd s i then
    some
      { valid := validPacket s, pid := pid s, addr := s.addr, endp := s.endp
        frameNum := s.frameNum, crc5Error := crc5Error s i, crc16Error := crc16Error s i
        pidError := pidError s i, bitstuffError := bitstuffErrorO s i }
  else none

/-- No packet is being received and no byte is shown. -/
structure Quiet (s : State) : Prop where
  packetValid : s.packetValid = false
  bitstuffHistory : s.bitstuffHistory = 0
  rxDataPut : rxDataPut s = false

variable {s : State} {i : Input} {is : List Input} {a b : BitVec 2}

theorem Quiet.report_eq (h : Quiet s) : report s i = none := by
  simp [report, packetEnd, h.packetValid]

theorem Quiet.putByte_eq (h : Quiet s) : putByte s = none := by
  simp [putByte, h.rxDataPut]

/-- A cycle that starts no packet. -/
theorem Quiet.next (h : Quiet s) (hl : i.linkReset = false) (hs : packetStart s i = false) :
    Quiet (step s i) := by
  have hd : dvalid s = false := by simp [dvalid, dvalidRaw, h.packetValid]
  have hv : (step s i).packetValid = false := by
    rw [step_packetValid s hl]
    simpa [packetStart, h.packetValid] using hs
  have hsettled : Settled s := fun _ => h.bitstuffHistory
  exact
    { packetValid := hv
      bitstuffHistory := hsettled.next hv
      rxDataPut := by
        have hbuffer : (step s i).rxDataBuffer = s.rxDataBuffer := by
          rw [step_rxDataBuffer s hl, rxDataBufferD, hd, hs, h.rxDataPut]
          rfl
        rw [FsRx.rxDataPut, hbuffer]
        exact h.rxDataPut }

theorem Quiet.packetStart_eq (h : Quiet s) (hd : i.diffRxOk = true) :
    packetStart s i = (lineStateValid s && s.lineHistory == syncHistory) := by
  rw [packetStart, packetValidD, h.packetValid, hd, ← syncHistory]
  cases lineStateValid s <;> cases s.lineHistory == syncHistory <;> rfl

/-- Cycles whose samples do not complete SYNC start no packet. -/
theorem Quiet.hunt (h : Quiet s) (hl : ∀ i ∈ is, i.linkReset = false)
    (hd : ∀ i ∈ is, i.diffRxOk = true) (hh : s.lineHistory.extractLsb' 0 4 = a ++ b)
    (hn : NoSync a b (log step sample s is)) :
    Quiet (run step s is) ∧ log step report s is = [] ∧
      log step (fun s _ => putByte s) s is = [] := by
  induction is generalizing s a b with
  | nil => exact ⟨h, rfl, rfl⟩
  | cons i is ih =>
      have hreset := hl i (by simp)
      have hstart : packetStart s i = false := by
        rw [h.packetStart_eq (hd i (by simp))]
        cases hvalid : lineStateValid s with
        | false => rfl
        | true =>
            rw [log_cons, sample, hvalid, if_pos rfl] at hn
            rw [Bool.true_and, beq_eq_false_iff_ne]
            intro hsync
            rw [hsync] at hh
            exact hn.1 (hh.symm.trans (by decide))
      have hhist : (step s i).lineHistory = lineHistoryD s i := by simp [step, hreset]
      have hrest := fun a b hh hn => ih (h.next hreset hstart) (a := a) (b := b)
        (fun j hj => hl j (by simp [hj])) (fun j hj => hd j (by simp [hj])) hh hn
      rw [log_cons, sample] at hn
      simp only [run_cons, log_cons, h.report_eq, h.putByte_eq]
      cases hvalid : lineStateValid s with
      | false =>
          rw [hvalid] at hn
          rw [lineHistoryD, hvalid, if_neg (by decide)] at hhist
          obtain ⟨hq, hrep, hput⟩ := hrest a b (by rw [hhist, hh]) hn
          exact ⟨hq, by rw [hrep]; rfl, by rw [hput]; rfl⟩
      | true =>
          rw [hvalid] at hn
          rw [lineHistoryD, hvalid, if_pos rfl] at hhist
          obtain ⟨hq, hrep, hput⟩ := hrest b _ (by
            rw [hhist]
            exact history_push _ a b _ hh) hn.2
          exact ⟨hq, by rw [hrep]; rfl, by rw [hput]; rfl⟩

/-! ### SYNC -/

/-- SYNC on the line. -/
def syncLines : List Line := [.k, .j, .k, .j, .k, .j, .k, .k]

/-- A receiver before an idle line: J for at least one bit time, in any bit phase, and nothing
of an earlier packet left to report. -/
structure Idle (s : State) : Prop where
  quiet : Quiet s
  lineStateQ : s.lineStateQ = DJ
  lineHistory : s.lineHistory.extractLsb' 0 2 = symbolCode .j

theorem low_split (h : BitVec 12) :
    h.extractLsb' 0 4 = h.extractLsb' 2 2 ++ h.extractLsb' 0 2 :=
  (BitVec.extractLsb'_append_extractLsb'_eq_extractLsb' (show 2 = 0 + 2 from rfl)).symm

theorem low_of_low (h : BitVec 12) {m n : ℕ} (hmn : m ≤ n) :
    (h.extractLsb' 0 n).extractLsb' 0 m = h.extractLsb' 0 m := by
  refine BitVec.eq_of_getLsbD_eq fun k hk => ?_
  have hkn : k < n := by omega
  simp [hk, hkn]

theorem noSync_sync : ∀ a : BitVec 2,
    ∀ pre ∈ [[], [symbolCode .j], [symbolCode .se0]],
      NoSync a (symbolCode .j) (pre ++ syncLines.map symbolCode) := by decide +kernel

/-- The packet starts with the sample of the first symbol after SYNC. -/
theorem sync_detected {flip : Bool} {l : Line} {ls : List Line} (h : Idle s)
    (hw : Waveform flip (syncLines ++ l :: ls) is) :
    ∃ pre first rest, is = pre ++ first :: rest ∧ Quiet (Clocked.run step s pre) ∧
      packetStart (Clocked.run step s pre) first = true ∧ log step report s pre = [] ∧
      log step (fun s _ => putByte s) s pre = [] ∧
      log step sample (Clocked.run step s pre) (first :: rest) = (l :: ls).map symbolCode := by
  have hreset := hw.linkReset
  have hok := hw.diffRxOk
  obtain ⟨sync, after, rfl, hsync, hafter⟩ := hw.split
  cases hsync with
  | @cons _ _ i₀ i₁ i₂ i₃ sync h₀ h₁ h₂ h₃ hsync =>
  cases hafter with
  | @cons _ _ j₀ j₁ j₂ j₃ rest k₀ k₁ k₂ k₃ hrest =>
  obtain ⟨ha₁, pre, hpre, hsamples₁⟩ := first_symbol h.lineStateQ h₀ h₁ h₂ h₃
  obtain ⟨hsamples₂, l₂, ha₂⟩ := log_sample ha₁ hsync
  obtain ⟨hnone, hc⟩ := three_cycles ha₂ k₀ k₁ k₂
  obtain ⟨hsome, ha₃⟩ := fourth_cycle hc k₃
  have hpast : log step sample s ([i₀, i₁, i₂, i₃] ++ sync ++ [j₀, j₁, j₂]) =
      pre ++ syncLines.map symbolCode := by
    rw [log_append, log_append, run_append, hsamples₁, hsamples₂, hnone, List.append_nil,
      List.append_assoc]
    rfl
  have hsplit : ∀ i ∈ [i₀, i₁, i₂, i₃] ++ sync ++ [j₀, j₁, j₂],
      i ∈ (i₀ :: i₁ :: i₂ :: i₃ :: sync) ++ (j₀ :: j₁ :: j₂ :: j₃ :: rest) := by
    intro i hi
    simp only [List.mem_append, List.mem_cons, List.not_mem_nil, or_false] at hi ⊢
    tauto
  have hreset' := fun i hi => hreset i (hsplit i hi)
  have hhunt := h.quiet.hunt (a := s.lineHistory.extractLsb' 2 2) (b := symbolCode .j)
    hreset' (fun i hi => hok i (hsplit i hi)) (by rw [low_split, h.lineHistory])
    (by rw [hpast]; exact noSync_sync _ pre hpre)
  have hhist := run_lineHistory s _ hreset'
  rw [hpast, show syncLines = [.k, .j] ++ [.k, .j, .k, .j, .k, .k] from rfl, List.map_append,
    ← List.append_assoc, List.foldl_append, foldl_pushSample_sync] at hhist
  have hrun : Clocked.run step s ([i₀, i₁, i₂, i₃] ++ sync ++ [j₀, j₁, j₂]) =
      Clocked.run step (Clocked.run step (Clocked.run step s [i₀, i₁, i₂, i₃]) sync)
        [j₀, j₁, j₂] := by rw [run_append, run_append]
  refine ⟨[i₀, i₁, i₂, i₃] ++ sync ++ [j₀, j₁, j₂], j₃, rest, by simp, hhunt.1, ?_, hhunt.2.1,
    hhunt.2.2, ?_⟩
  · rw [hhunt.1.packetStart_eq k₃.diffRxOk, hhist, beq_self_eq_true, Bool.and_true, hrun]
    have hphase := congrArg Prod.snd hc
    rw [lineStateValid, beq_iff_eq]
    exact hphase
  · rw [hrun, log_cons, hsome, (log_sample ha₃ hrest).1]
    rfl

/-! ### The packet after SYNC -/

variable {first : Input} {bits : List Bool}

theorem seeEop_of_se0 (h : s.lineHistory.extractLsb' 0 4 = symbolCode .se0 ++ symbolCode .se0) :
    seeEop s i = true := by
  have hzero : s.lineHistory.extractLsb' 0 4 = 0b0000#4 := h.trans (by decide)
  simp [seeEop, hzero]

/-- The history after two samples. -/
theorem foldl_pushSample_two (h : BitVec 12) (xs : List (BitVec 2)) (a b : BitVec 2) :
    ((xs ++ [a, b]).foldl pushSample h).extractLsb' 0 4 = a ++ b := by
  rw [List.foldl_append, List.foldl_cons, List.foldl_cons, List.foldl_nil,
    pushSample_low (n := 2) _ _ (by decide), pushSample, BitVec.extractLsb'_append_eq_right]

theorem map_symbolCode_levels (ls : List Bool) :
    (ls.map Line.ofLevel ++ [Line.se0, Line.se0, Line.j]).map symbolCode =
      levelSamples ls ++ [symbolCode .se0, symbolCode .se0, symbolCode .j] := by
  rw [List.map_append, List.map_map]
  rfl

/-- A packet whose symbols are followed by SE0 and J has an end. -/
theorem exists_packet (hq : Quiet s) (hs : packetStart s first = true)
    (hl : ∀ i ∈ first :: is, i.linkReset = false) (hd : ∀ i ∈ first :: is, i.diffRxOk = true)
    (hsamples : Clocked.log step sample s (first :: is) =
      levelSamples bits ++ [symbolCode .se0, symbolCode .se0, symbolCode .j]) :
    ∃ mid last post, is = mid ++ last :: post ∧ SymbolPacket s first mid last bits := by
  have hsettled : Settled s := fun _ => hq.bitstuffHistory
  have hall : (levelSamples bits ++ [symbolCode .se0, symbolCode .se0]) ++ [symbolCode .j] <+:
      Clocked.log step sample s (first :: is) := by
    rw [hsamples, List.append_assoc]
    exact List.prefix_rfl
  obtain ⟨as, j, bs, hsplit, hlog, hj⟩ := exists_log_split step sample hall
  cases as with
  | nil => simp at hlog
  | cons i₀ mid₀ =>
      obtain ⟨rfl, htail⟩ := List.cons.inj hsplit
      have his : is = mid₀ ++ j :: bs := htail
      have hmem : ∀ k ∈ first :: mid₀, k ∈ first :: is := by
        rw [his]
        intro k hk
        simp only [List.mem_cons, List.mem_append] at hk ⊢
        tauto
      have hstart := Receiving.start hsettled (hl first (by simp)) hs
      obtain hnone | ⟨mid, last, post, hmid, hnone, hend⟩ :=
          exists_first step packetEnd (step s first) mid₀
      · have hrec := hstart.run mid₀ (fun k hk => hl k (hmem k (by simp [hk]))) hnone
        have hvalid : lineStateValid (Clocked.run step s (first :: mid₀)) = true := by
          by_contra hne
          rw [sample, if_neg hne] at hj
          exact absurd hj (by simp)
        have hhist := run_lineHistory s (first :: mid₀) fun k hk => hl k (hmem k hk)
        have heop : seeEop (Clocked.run step s (first :: mid₀)) j = true := by
          refine seeEop_of_se0 ?_
          rw [hhist, hlog]
          exact foldl_pushSample_two _ _ _ _
        have hok : j.diffRxOk = true := hd j (by rw [his]; simp)
        have hpv : (Clocked.run step s (first :: mid₀)).packetValid = true := hrec.packetValid
        refine ⟨mid₀, j, bs, his, ?_⟩
        exact
          { settled := hsettled
            start := hs
            linkReset := fun k hk => hl k (hmem k hk)
            middle := hnone
            ends := by
              rw [packetEnd, packetValidD, hvalid, hok, hpv, heop]
              rfl
            diffRxOk := hok
            symbols := ⟨2, by rw [hlog]; exact List.prefix_rfl⟩ }
      · refine ⟨mid, last, post ++ j :: bs, by rw [his, hmid]; simp, ?_⟩
        have hmem' : ∀ k ∈ first :: mid, k ∈ first :: is := by
          intro k hk
          refine hmem k ?_
          rw [hmid]
          simp only [List.mem_cons, List.mem_append] at hk ⊢
          tauto
        exact
          { settled := hsettled
            start := hs
            linkReset := fun k hk => hl k (hmem' k hk)
            middle := hnone
            ends := hend
            diffRxOk := hd last (by rw [his, hmid]; simp)
            symbols := ⟨2, by
              rw [show List.replicate 2 (symbolCode .se0) = [symbolCode .se0, symbolCode .se0]
                from rfl, ← hlog, hmid, ← List.cons_append, log_append]
              exact List.prefix_append _ _⟩ }

/-- Two bit times of J out of reset. -/
theorem idle_lineCycles : Idle (run step State.reset (lineCycles [.j, .j])) where
  quiet := ⟨by decide +kernel, by decide +kernel, by decide +kernel⟩
  lineStateQ := by decide +kernel
  lineHistory := by decide +kernel

/-- Every list of bits can be sent as a packet to a receiver out of reset. -/
theorem exists_symbolPacket {raw : List Bool} (hne : raw ≠ []) :
    ∃ s first mid last, Reachable step (fun _ _ => True) State.reset s ∧
      SymbolPacket s first mid last (nrzi false raw) := by
  obtain ⟨b, bs, rfl⟩ := List.exists_cons_of_ne_nil hne
  have hw := waveform_lineCycles
    (syncLines ++ ((nrzi false (b :: bs)).map Line.ofLevel ++ [.se0, .se0, .j]))
  rw [nrzi_cons, List.map_cons, List.cons_append] at hw
  have hreset := hw.linkReset
  have hok := hw.diffRxOk
  obtain ⟨pre, first, rest, hsplit, hquiet, hstart, -, -, hsamples⟩ :=
    sync_detected idle_lineCycles hw
  have hmem : ∀ i ∈ first :: rest, i ∈ pre ++ first :: rest := fun i hi =>
    List.mem_append_right pre hi
  rw [hsplit] at hreset hok
  have hlevels := hsamples.trans (map_symbolCode_levels (nrzi false (b :: bs)))
  obtain ⟨mid, last, post, -, hpacket⟩ := exists_packet hquiet hstart
    (fun i hi => hreset i (hmem i hi)) (fun i hi => hok i (hmem i hi)) hlevels
  refine ⟨_, first, mid, last, ?_, hpacket⟩
  exact (Reachable.init.run _ fun _ _ _ => trivial).run _ fun _ _ _ => trivial

end UsbDev.FsRx
