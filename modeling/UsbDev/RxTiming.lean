import UsbDev.RxClock
import UsbDev.RxReports

/-!
# Jitter on the line

A run of one symbol, meant as `n` bit times, may last between `4 * n - 1` and
`4 * n + 1` cycles, and the first sample of a run may be skewed to any pair that
differs from the symbol before. The transition state takes the skewed sample and
restarts the bit phase, so the samples lie in the fourth cycle of the run and
every four cycles after it, the last of them at most in the first cycle of the
next run.
-/
namespace UsbDev.FsRx

open LineCode Clocked

/-- The receiver listens in single-ended mode. -/
structure SingleEnded (i : Input) : Prop where
  linkReset : i.linkReset = false
  cfgUseDiffRcvr : i.cfgUseDiffRcvr = false
  txEn : i.txEn = false

/-- The line state of this cycle is the symbol `l`. -/
structure Shows (l : Line) (i : Input) : Prop extends SingleEnded i where
  dpair : dpair i = symbolCode l

/-- The length of a run meant as `n` bit times, in cycles. -/
def RunLength (n len : ℕ) : Prop := 1 ≤ n ∧ 4 * n - 1 ≤ len ∧ len ≤ 4 * n + 1

/-- Runs of symbols after the symbol `l`, each meant as so many bit times. -/
inductive Runs : Line → List (Line × ℕ) → List Input → Prop
  | nil (l : Line) : Runs l [] []
  | cons {l l' : Line} {n : ℕ} {i : Input} {is rest : List Input} {runs : List (Line × ℕ)}
      (hi : SingleEnded i) (hne : dpair i ≠ symbolCode l) (his : ∀ j ∈ is, Shows l' j)
      (hlen : RunLength n (is.length + 1)) (hrest : Runs l' runs rest) :
      Runs l ((l', n) :: runs) (i :: is ++ rest)

/-- The line state that enters the history in this cycle. -/
def shifted (s : State) (i : Input) : Option (BitVec 3) :=
  if lineStateValid s then some (lineStateRx s i) else none

/-- The line states that the runs stand for. -/
def meant (runs : List (Line × ℕ)) : List (BitVec 3) :=
  runs.flatMap fun r => List.replicate r.2 (symbolState r.1)

/-- The symbol before the end of some runs after `l`. -/
def lastSymbol (l : Line) : List (Line × ℕ) → Line
  | [] => l
  | r :: runs => lastSymbol r.1 runs

/-- The runs from the second sample of the first one to the first sample of a further one. -/
inductive Jittered : List (Line × ℕ) → List Input → Prop
  | intro {l : Line} {n : ℕ} {is rest : List Input} {runs : List (Line × ℕ)} {j : Input}
      (his : ∀ i ∈ is, Shows l i) (hlen : RunLength n (is.length + 1)) (hrest : Runs l runs rest)
      (hj : SingleEnded j) (hne : dpair j ≠ symbolCode (lastSymbol l runs)) :
      Jittered ((l, n) :: runs) (is ++ rest ++ [j])

/-- The transition to the symbol `l` is over. -/
def Locked (l : Line) (s : State) : Prop := clockOf s = (symbolState l, 0)

variable {l l' : Line} {s : State} {i : Input} {is : List Input} {runs : List (Line × ℕ)} {n : ℕ}

theorem SingleEnded.lineStateRx_eq (h : SingleEnded i) : lineStateRx s i = s.lineStateQ := by
  rw [lineStateRx, h.cfgUseDiffRcvr, if_neg (by decide)]

theorem SingleEnded.clockOf_step (h : SingleEnded i) :
    clockOf (step s i) = clock (clockOf s) (dpair i) := by
  simp only [clockOf, clock, step, h.linkReset, Bool.false_eq_true, if_false, bitPhaseD,
    h.lineStateRx_eq]
  rfl

/-- A transition restarts the bit phase. -/
theorem Shows.locked (h : Shows l i) (hs : s.lineStateQ = DT) : Locked l (step s i) := by
  rw [Locked, h.clockOf_step, h.dpair, clockOf, hs]
  cases l <;> simp [clock, lineStateD, symbolState]

/-- What enters the history in a cycle of the symbol `l`. -/
theorem SingleEnded.shifted_eq (h : SingleEnded i) {p : BitVec 2}
    (hc : clockOf s = (symbolState l, p)) :
    shifted s i = if p = 1 then some (symbolState l) else none := by
  have hstate : s.lineStateQ = symbolState l := congrArg Prod.fst hc
  have hphase : s.bitPhase = p := congrArg Prod.snd hc
  rw [shifted, lineStateValid, hphase, h.lineStateRx_eq, hstate]
  simp

theorem ofNat_eq_one_iff (m : ℕ) : BitVec.ofNat 2 m = 1 ↔ m % 4 = 1 := by
  rw [← BitVec.toNat_inj, BitVec.toNat_ofNat]
  rfl

theorem ofNat_succ (m : ℕ) : BitVec.ofNat 2 m + 1 = BitVec.ofNat 2 (m + 1) :=
  (BitVec.ofNat_add m 1).symm

/-- A clock that samples the same value in every fourth cycle, for as long as `P` holds. -/
theorem log_everyFourth {σ ι α : Type*} {step : σ → ι → σ} {out : σ → ι → Option α}
    {P : BitVec 2 → σ → Prop} {Q : ι → Prop} {x : α}
    (hstay : ∀ p s i, P p s → Q i → P (p + 1) (step s i))
    (hout : ∀ p s i, P p s → Q i → out s i = if p = 1 then some x else none)
    {s : σ} (h : P 0 s) {is : List ι} (his : ∀ i ∈ is, Q i) :
    P (BitVec.ofNat 2 is.length) (Clocked.run step s is) ∧
      log step out s is = List.replicate ((is.length + 2) / 4) x := by
  induction is using List.reverseRecOn with
  | nil => exact ⟨h, by simp [log_nil]⟩
  | append_singleton is i ih =>
      obtain ⟨hc, hlog⟩ := ih fun j hj => his j (by simp [hj])
      have hi := his i (by simp)
      have hnext := hstay _ _ _ hc hi
      rw [ofNat_succ] at hnext
      rw [run_append, run_cons, run_nil, log_append, hlog, log_cons, log_nil, List.append_nil,
        hout _ _ _ hc hi, List.length_append, List.length_singleton]
      refine ⟨hnext, ?_⟩
      by_cases hp : is.length % 4 = 1
      · rw [if_pos ((ofNat_eq_one_iff _).2 hp), Option.toList_some, ← List.replicate_succ']
        congr 1
        omega
      · rw [if_neg (mt (ofNat_eq_one_iff _).1 hp), Option.toList_none, List.append_nil]
        congr 1
        omega

theorem succ_ne_one : ∀ {p : BitVec 2}, p ≠ 0 → p + 1 ≠ 1 := by decide

/-- A run of `n` bit times ends with a sample or without one, and has `n` of them. -/
theorem replicate_run {α : Type*} (x : α) {m : ℕ} (h : RunLength n (m + 2)) :
    BitVec.ofNat 2 m ≠ 0 ∧
      List.replicate ((m + 2) / 4) x ++ (if BitVec.ofNat 2 m = 1 then [x] else []) =
        List.replicate n x := by
  obtain ⟨hn, hle, hge⟩ := h
  constructor
  · intro hzero
    have hmod : m % 4 = 0 := by
      have hnat := congrArg BitVec.toNat hzero
      rw [BitVec.toNat_ofNat] at hnat
      exact hnat
    omega
  · by_cases hp : m % 4 = 1
    · rw [if_pos ((ofNat_eq_one_iff _).2 hp), ← List.replicate_succ']
      congr 1
      omega
    · rw [if_neg (mt (ofNat_eq_one_iff _).1 hp), List.append_nil]
      congr 1
      omega

/-- A symbol that stays on the line is sampled every four cycles. -/
theorem Locked.run (h : Locked l s) (his : ∀ i ∈ is, Shows l i) :
    clockOf (Clocked.run step s is) = (symbolState l, BitVec.ofNat 2 is.length) ∧
      log step shifted s is = List.replicate ((is.length + 2) / 4) (symbolState l) := by
  refine log_everyFourth (P := fun p s => clockOf s = (symbolState l, p)) (Q := Shows l) ?_ ?_ h his
  · intro p s i hc hi
    have hstay : ∀ p, clock (symbolState l, p) (symbolCode l) = (symbolState l, p + 1) := by
      cases l <;> decide
    rw [hi.clockOf_step, hc, hi.dpair, hstay]
  · intro p s i hc hi
    exact hi.shifted_eq hc

/-- A run of `n` bit times gives `n` samples, the last one at the latest in the first cycle of
the next run. The cycle after it takes none. -/
theorem Locked.edge (h : Locked l s) (his : ∀ i ∈ is, Shows l i)
    (hlen : RunLength n (is.length + 2)) (hi : SingleEnded i) (hne : dpair i ≠ symbolCode l) :
    log step shifted s (is ++ [i]) = List.replicate n (symbolState l) ∧
      (Clocked.run step s (is ++ [i])).lineStateQ = DT ∧
      lineStateValid (Clocked.run step s (is ++ [i])) = false := by
  obtain ⟨hc, hlog⟩ := h.run his
  obtain ⟨hp, hcount⟩ := replicate_run (symbolState l) hlen
  have hnext := hi.clockOf_step (s := Clocked.run step s is)
  have hedge : ∀ pair p, pair ≠ symbolCode l → clock (symbolState l, p) pair = (DT, p + 1) := by
    cases l <;> decide
  rw [hc, hedge _ _ hne] at hnext
  have hphase : BitVec.ofNat 2 is.length + 1 ≠ 1 := succ_ne_one hp
  rw [run_append, run_cons, run_nil]
  refine ⟨?_, congrArg Prod.fst hnext, ?_⟩
  · rw [log_append, hlog, log_cons, log_nil, List.append_nil, hi.shifted_eq hc, ← hcount]
    split_ifs <;> rfl
  · have hq : (step (Clocked.run step s is) i).bitPhase = BitVec.ofNat 2 is.length + 1 :=
      congrArg Prod.snd hnext
    rw [lineStateValid, hq]
    simpa using hphase

/-- Each run gives as many samples as it is meant to have bit times. -/
theorem Runs.log_shifted {rest : List Input} {j : Input} (h : Runs l runs rest)
    (hs : Locked l s) (his : ∀ i ∈ is, Shows l i) (hlen : RunLength n (is.length + 2))
    (hj : SingleEnded j) (hne : dpair j ≠ symbolCode (lastSymbol l runs)) :
    log step shifted s (is ++ rest ++ [j]) = meant ((l, n) :: runs) := by
  induction h generalizing s is n with
  | nil l =>
      obtain ⟨hlog, -, -⟩ := hs.edge his hlen hj hne
      rw [List.append_nil, hlog]
      simp [meant]
  | @cons l l' n' i is' rest runs hi hdiff his' hlen' hrest ih =>
      obtain ⟨hlog, hdt, hvalid⟩ := hs.edge his hlen hi hdiff
      cases is' with
      | nil =>
          obtain ⟨hn, hle, -⟩ := hlen'
          simp only [List.length_nil] at hle
          omega
      | cons k is' =>
          have hk := his' k (by simp)
          have hnone : shifted (Clocked.run step s (is ++ [i])) k = none := by
            rw [shifted, hvalid, if_neg (by decide)]
          have hnext := ih (hk.locked hdt) (fun m hm => his' m (by simp [hm])) hlen' hne
          have hsplit : is ++ (i :: k :: is' ++ rest) ++ [j] =
              (is ++ [i]) ++ k :: (is' ++ rest ++ [j]) := by simp
          rw [hsplit, log_append, hlog, log_cons, hnone, hnext]
          rfl

/-- The bits that the receiver hands on, the stuffed ones dropped. -/
def dataBit (s : State) : Option Bool := if dvalid s then some (din s) else none

theorem dataBit_symbolOutput (eop : Bool) : SymbolOutput eop fun s _ => dataBit s where
  congr {s s'} _ _ _ _ hcore hv := by
    have hview (s : State) : dataBit s =
        if lineStateValid s then dataBit (present s 0) else none := by
      unfold dataBit dvalid dvalidRaw
      cases lineStateValid s with
      | true => rfl
      | false => simp
    rw [hview s, hview s', hv, present, present, hcore]
  silent s := by
    have hv : lineStateValid (settled eop s) = false := rfl
    simp [dataBit, dvalid, dvalidRaw, hv]

theorem Runs.singleEnded (h : Runs l runs is) : ∀ i ∈ is, SingleEnded i := by
  induction h with
  | nil => simp
  | cons hi _ his _ _ ih =>
      intro j hj
      simp only [List.cons_append, List.mem_cons, List.mem_append] at hj
      obtain rfl | hj | hj := hj
      · exact hi
      · exact (his j hj).toSingleEnded
      · exact ih j hj

theorem Jittered.singleEnded (h : Jittered runs is) : ∀ i ∈ is, SingleEnded i := by
  cases h with
  | intro his _ hrest hj _ =>
      intro i hi
      simp only [List.mem_append, List.mem_singleton] at hi
      obtain (hi | hi) | rfl := hi
      · exact (his i hi).toSingleEnded
      · exact hrest.singleEnded i hi
      · exact hj

theorem Jittered.log_shifted (h : Jittered runs (i :: is)) (hs : s.lineStateQ = DT) :
    lineStateValid (step s i) = false ∧ log step shifted (step s i) is = meant runs := by
  generalize hcycles : i :: is = cycles at h
  cases h with
  | @intro l n is' rest runs j his hlen hrest hj hne =>
      cases is' with
      | nil =>
          obtain ⟨hn, hle, -⟩ := hlen
          simp only [List.length_nil] at hle
          omega
      | cons k is' =>
          obtain ⟨rfl, rfl⟩ := List.cons.inj hcycles
          have hlock := (his i (by simp)).locked hs
          refine ⟨?_, hrest.log_shifted hlock (fun m hm => his m (by simp [hm])) hlen hj hne⟩
          have hphase : (step s i).bitPhase = 0 := congrArg Prod.snd hlock
          rw [lineStateValid, hphase]
          rfl

theorem log_sample_eq (s : State) (is : List Input) :
    log step sample s is = (log step shifted s is).map (·.extractLsb' 0 2) := by
  rw [← log_map]
  congr 1
  funext s i
  rw [sample, shifted]
  split_ifs <;> rfl

/-- After a transition the history takes the symbols of the runs and nothing else, and the bits
handed on are the same for any two waveforms with the same runs. -/
theorem symbol_recovery :
    (∀ (s : State) (runs : List (Line × ℕ)) (i : Input) (is : List Input), s.lineStateQ = DT →
      Jittered runs (i :: is) →
        log step shifted (step s i) is = meant runs ∧
        (Clocked.run step (step s i) is).lineHistory =
          ((meant runs).map (·.extractLsb' 0 2)).foldl pushSample (step s i).lineHistory) ∧
    ∀ (eop : Bool) (s s' : State) (runs : List (Line × ℕ)) (i i' : Input) (is is' : List Input),
      s.lineStateQ = DT → s'.lineStateQ = DT → Jittered runs (i :: is) → Jittered runs (i' :: is') →
      (∀ j ∈ is, Listens eop j) → (∀ j ∈ is', Listens eop j) →
      core (step s i) = core (step s' i') →
        log step (fun s _ => dataBit s) (step s i) is =
          log step (fun s _ => dataBit s) (step s' i') is' := by
  constructor
  · intro s runs i is hs h
    obtain ⟨-, hlog⟩ := h.log_shifted hs
    refine ⟨hlog, ?_⟩
    rw [run_lineHistory _ _ fun j hj => (h.singleEnded j (by simp [hj])).linkReset, log_sample_eq,
      hlog]
  · intro eop s s' runs i i' is is' hs hs' h h' his his' hcore
    have hbits (s : State) (i : Input) (is : List Input) (hs : s.lineStateQ = DT)
        (h : Jittered runs (i :: is)) (his : ∀ j ∈ is, Listens eop j) :
        log step (fun s _ => dataBit s) (step s i) is =
          symbolLog eop (fun s _ => dataBit s) (settled eop (step s i))
            ((meant runs).map (·.extractLsb' 0 2)) := by
      obtain ⟨hvalid, hlog⟩ := h.log_shifted hs
      obtain ⟨hout, -⟩ := (dataBit_symbolOutput eop).log is his (s := step s i)
        fun hc => by rw [hvalid] at hc; cases hc
      have hnone (s : State) : dataBit (core s) = none := by
        have hv : lineStateValid (core s) = false := rfl
        simp [dataBit, dvalid, dvalidRaw, hv]
      rw [hnone, hnone, Option.toList_none, List.append_nil, List.nil_append, log_sample_eq,
        hlog] at hout
      exact hout
    rw [hbits s i is hs h his, hbits s' i' is' hs' h' his', ← settled_core, hcore, settled_core]

/-- The second K of a run, `m` cycles more of it, a J for `n + 1` cycles and the next K. -/
def jittered (m n : ℕ) : List Input :=
  lineInput .k :: List.replicate m (lineInput .k) ++
    (lineInput .j :: List.replicate n (lineInput .j) ++ []) ++ [lineInput .k]

theorem jittered_runs {m n : ℕ} (hm : RunLength 2 (m + 2)) (hn : RunLength 1 (n + 1)) :
    Jittered [(.k, 2), (.j, 1)] (jittered m n) := by
  have hshows (l : Line) (m : ℕ) : ∀ i ∈ List.replicate m (lineInput l), Shows l i := by
    intro i hi
    rw [List.eq_of_mem_replicate hi]
    exact ⟨⟨rfl, rfl, rfl⟩, by cases l <;> rfl⟩
  refine .intro (hshows .k (m + 1)) (by simpa using hm)
    (.cons ⟨rfl, rfl, rfl⟩ (by decide) (hshows .j n) (by simpa using hn) (.nil .j))
    ⟨rfl, rfl, rfl⟩ (by decide)

/-- The receiver in the transition from J to K. -/
def turned : State := Clocked.run step .reset (lineCycles [.j] ++ [lineInput .k])

/-- A long K and a short J are the same bits as a short K and a long J. -/
theorem symbol_recovery_jittered :
    log step shifted (step turned (lineInput .k)) (jittered 7 2).tail = meant [(.k, 2), (.j, 1)] ∧
      log step (fun s _ => dataBit s) (step turned (lineInput .k)) (jittered 7 2).tail =
        log step (fun s _ => dataBit s) (step turned (lineInput .k)) (jittered 5 4).tail := by
  have hlong : Jittered _ (jittered 7 2) :=
    jittered_runs ⟨by decide, by decide, by decide⟩ ⟨by decide, by decide, by decide⟩
  have hshort : Jittered _ (jittered 5 4) :=
    jittered_runs ⟨by decide, by decide, by decide⟩ ⟨by decide, by decide, by decide⟩
  have hturned : turned.lineStateQ = DT := by decide
  have hlistens (m n : ℕ) : ∀ i ∈ (jittered m n).tail, Listens false i := by
    intro i hi
    have hline : ∃ l, i = lineInput l := by
      simp [jittered] at hi
      tauto
    obtain ⟨l, rfl⟩ := hline
    exact ⟨rfl, rfl, rfl, rfl⟩
  obtain ⟨hlog, hbits⟩ := symbol_recovery
  exact ⟨(hlog turned _ _ _ hturned hlong).1, hbits false turned turned _ _ _ _ _ hturned hturned
    hlong hshort (hlistens 7 2) (hlistens 5 4) rfl⟩

end UsbDev.FsRx
