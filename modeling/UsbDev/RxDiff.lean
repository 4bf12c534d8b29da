import UsbDev.RxHistory
import UsbDev.RxPace
import UsbDev.RxTiming

/-!
# Differential and single-ended reception

With the differential receiver the line state comes from `usb_d_i` except at SE0.
The two modes differ at the entry to SE0: there the differential signal need not
change, so the bit phase is not restarted and one more SE0 may be sampled. The
way back restarts the phase in either mode, and the further SE0 is forgotten.
-/
namespace UsbDev.FsRx

open LineCode Clocked

/-- The symbol `l` on the line, and on the differential input unless it is SE0. -/
structure Carries (eop : Bool) (l : Line) (i : Input) : Prop extends Listens eop i where
  dpair : dpair i = symbolCode l
  usbD : i.usbDp ≠ i.usbDn → i.usbD = i.usbDp

/-- Runs of symbols without skew, each other than the one before; an SE0 lasts two bit times. -/
inductive Steady (eop : Bool) : Line → List (Line × ℕ) → List Input → Prop
  | nil (l : Line) : Steady eop l [] []
  | cons {l l' : Line} {n : ℕ} {is rest : List Input} {runs : List (Line × ℕ)} (hne : l' ≠ l)
      (his : ∀ i ∈ is, Carries eop l' i) (hlen : RunLength n is.length)
      (hse0 : l' = .se0 → n = 2) (hrest : Steady eop l' runs rest) :
      Steady eop l ((l', n) :: runs) (is ++ rest)

/-! ### Samples -/

/-- Samples of runs, each SE0 sampled two or three times. -/
inductive Sampled : List (Line × ℕ) → List (BitVec 2) → Prop
  | nil : Sampled [] []
  | level {l : Line} {n : ℕ} {runs : List (Line × ℕ)} {xs : List (BitVec 2)} (hl : l ≠ .se0)
      (h : Sampled runs xs) : Sampled ((l, n) :: runs) (List.replicate n (symbolCode l) ++ xs)
  | se0 {l : Line} {m n : ℕ} {runs : List (Line × ℕ)} {xs : List (BitVec 2)} (hm : m = 2 ∨ m = 3)
      (hl : l ≠ .se0) (hn : 1 ≤ n) (h : Sampled ((l, n) :: runs) xs) :
      Sampled ((.se0, 2) :: (l, n) :: runs) (List.replicate m (symbolCode .se0) ++ xs)

/-- The symbols of some runs. -/
def symbols (runs : List (Line × ℕ)) : List (BitVec 2) :=
  runs.flatMap fun r => List.replicate r.2 (symbolCode r.1)

variable {eop : Bool} {l l' : Line} {s : State} {i j : Input} {is : List Input} {n : ℕ}
  {runs : List (Line × ℕ)} {xs : List (BitVec 2)}

theorem symbols_cons (l : Line) (n : ℕ) (runs : List (Line × ℕ)) :
    symbols ((l, n) :: runs) = List.replicate n (symbolCode l) ++ symbols runs := List.flatMap_cons

theorem settled_symbolRun (hs : settled eop s = s) (xs : List (BitVec 2)) :
    settled eop (Clocked.run (symbolStep eop) s xs) = Clocked.run (symbolStep eop) s xs :=
  Clocked.run_invariant (fun s => settled eop s = s) (fun _ => True)
    (fun _ _ _ _ => settled_settled _ _) hs xs fun _ _ => trivial

/-- A third SE0 leaves no trace in what is reported. -/
theorem symbolLog_extra (hs : settled eop s = s) (x : BitVec 2) (xs : List (BitVec 2)) :
    symbolLog eop event s (List.replicate 3 (symbolCode .se0) ++ x :: xs) =
      symbolLog eop event s (List.replicate 2 (symbolCode .se0) ++ x :: xs) := by
  have hsplit : List.replicate 3 (symbolCode .se0) ++ x :: xs =
      List.replicate 2 (symbolCode .se0) ++ symbolCode .se0 :: x :: xs := rfl
  rw [hsplit, symbolLog_append, symbolLog_append]
  congr 1
  have hsettled := settled_symbolRun hs (List.replicate 2 (symbolCode .se0))
  have hlow : (Clocked.run (symbolStep eop) s
      (List.replicate 2 (symbolCode .se0))).lineHistory.extractLsb' 0 4 =
        symbolCode .se0 ++ symbolCode .se0 := by
    have hhist : (Clocked.run (symbolStep eop) s (List.replicate 2 (symbolCode .se0))).lineHistory =
        ([] ++ [symbolCode .se0, symbolCode .se0]).foldl pushSample s.lineHistory := by
      rw [List.replicate_succ, List.replicate_succ, run_cons, run_cons, List.replicate_zero, run_nil,
        lineHistory_symbolStep, lineHistory_symbolStep]
      rfl
    rw [hhist]
    exact foldl_pushSample_two _ _ _ _
  obtain ⟨hout, hforgets⟩ := extra_se0 hlow hsettled x
  rw [symbolLog_cons, symbolLog_cons, symbolLog_cons, hout, hforgets.symbolLog_eq,
    List.append_assoc]

theorem Sampled.cons_of_level (h : Sampled ((l, n) :: runs) xs) (hl : l ≠ .se0) (hn : 1 ≤ n) :
    ∃ ys, xs = symbolCode l :: ys := by
  cases h with
  | level _ h =>
      obtain ⟨m, rfl⟩ : ∃ m, n = m + 1 := ⟨n - 1, by omega⟩
      exact ⟨_, rfl⟩
  | se0 => exact absurd rfl hl

/-- What is reported depends on the runs only. -/
theorem Sampled.symbolLog_eq (h : Sampled runs xs) (hs : settled eop s = s) :
    symbolLog eop event s xs = symbolLog eop event s (symbols runs) := by
  induction h generalizing s with
  | nil => rfl
  | level hl h ih =>
      rw [symbols_cons, symbolLog_append, symbolLog_append, ih (settled_symbolRun hs _)]
  | @se0 l m n runs xs hm hl hn h ih =>
      rw [symbols_cons, symbolLog_append _ _ (symbols _), ← ih (settled_symbolRun hs _),
        ← symbolLog_append]
      obtain ⟨ys, rfl⟩ := h.cons_of_level hl hn
      obtain rfl | rfl := hm
      · rfl
      · exact symbolLog_extra hs _ _

/-! ### Line state and bit phase -/

/-- Where the two lines differ they carry the differential signal, flipped or not. -/
theorem diff_table (l : Line) (flip d p n : Bool) (hl : l ≠ .se0)
    (hpair : BitVec.ofBool (if flip then n else p) ++ BitVec.ofBool (if flip then p else n) =
      symbolCode l) (hd : p ≠ n → d = p) :
    (if d ^^ flip then DJ.extractLsb' 0 2 else DK.extractLsb' 0 2) = symbolCode l := by
  revert hl hpair hd
  cases l <;> cases flip <;> cases d <;> cases p <;> cases n <;> decide

theorem Carries.ddiff_eq (h : Carries eop l i) (hl : l ≠ .se0) : ddiff i = symbolCode l := by
  have hpair := h.dpair
  rw [FsRx.dpair, h.txEn, if_neg (by decide)] at hpair
  rw [ddiff, h.txEn, if_neg (by decide)]
  exact diff_table l _ _ _ _ hl hpair h.usbD

/-- The registers of line state recovery after a cycle. -/
theorem line_step (hi : Listens eop i) :
    (step s i).lineStateQ = lineStateD s.lineStateQ (dpair i) ∧
      (step s i).lineStateQQ = s.lineStateQ ∧
      (step s i).diffStateQ = lineStateD s.diffStateQ (ddiff i) ∧
      (step s i).bitPhase = if lineStateRx s i = DT then 0 else s.bitPhase + 1 := by
  simp [step, hi.linkReset, bitPhaseD]

/-- J or K on the line, recovered from either input. -/
structure OnLevel (l : Line) (p : BitVec 2) (s : State) : Prop where
  level : l ≠ .se0
  lineStateQ : s.lineStateQ = symbolState l
  diffStateQ : s.diffStateQ = symbolState l
  bitPhase : s.bitPhase = p

/-- SE0 on the line, and anything on the differential input. -/
structure OnSe0 (p : BitVec 2) (s : State) : Prop where
  lineStateQ : s.lineStateQ = SE0
  diffStateQ : s.diffStateQ = DT ∨ s.diffStateQ.getLsbD 2 = false
  bitPhase : s.bitPhase = p

variable {p : BitVec 2}

theorem sample_eq (hp : s.bitPhase = p) {x : BitVec 3} (hx : lineStateRx s i = x) :
    sample s i = if p = 1 then some (x.extractLsb' 0 2) else none := by
  rw [sample, lineStateValid, hp, hx]
  simp

theorem OnLevel.lineStateRx_eq (h : OnLevel l p s) (i : Input) : lineStateRx s i = symbolState l := by
  rw [lineStateRx, h.lineStateQ, h.diffStateQ]
  split_ifs <;> rfl

theorem OnLevel.sample_eq (h : OnLevel l p s) (i : Input) :
    sample s i = if p = 1 then some (symbolCode l) else none := by
  rw [FsRx.sample_eq h.bitPhase (h.lineStateRx_eq i), symbolState,
    BitVec.extractLsb'_append_eq_right]

theorem symbolState_ne_dt (l : Line) : symbolState l ≠ DT := by cases l <;> decide

theorem lineStateD_same (l : Line) : lineStateD (symbolState l) (symbolCode l) = symbolState l := by
  cases l <;> decide

theorem lineStateD_other (h : l' ≠ l) : lineStateD (symbolState l) (symbolCode l') = DT := by
  revert h
  cases l <;> cases l' <;> decide

theorem lineStateD_dt (l : Line) : lineStateD DT (symbolCode l) = symbolState l := by
  cases l <;> decide

/-- From any state two equal samples give the symbol. -/
theorem lineStateD_twice {q : BitVec 3} (hl : l ≠ .se0) (hq : q = DT ∨ q.getLsbD 2 = false) :
    lineStateD (lineStateD q (symbolCode l)) (symbolCode l) = symbolState l := by
  revert q hl
  cases l <;> decide

theorem OnLevel.stay (h : OnLevel l p s) (hi : Carries eop l i) : OnLevel l (p + 1) (step s i) := by
  obtain ⟨hq, -, hd, hp⟩ := line_step (s := s) hi.toListens
  rw [h.lineStateRx_eq, if_neg (symbolState_ne_dt l), h.bitPhase] at hp
  rw [h.lineStateQ, hi.dpair, lineStateD_same] at hq
  rw [h.diffStateQ, hi.ddiff_eq h.level, lineStateD_same] at hd
  exact ⟨h.level, hq, hd, hp⟩

/-- A level that stays on the line is sampled every four cycles. -/
theorem OnLevel.run (h : OnLevel l 0 s) (his : ∀ i ∈ is, Carries eop l i) :
    OnLevel l (BitVec.ofNat 2 is.length) (Clocked.run step s is) ∧
      log step sample s is = List.replicate ((is.length + 2) / 4) (symbolCode l) :=
  log_everyFourth (fun _ _ _ hp hi => hp.stay hi) (fun _ _ i hp _ => hp.sample_eq i) h his

/-- The two cycles of a transition between J and K. -/
theorem OnLevel.turn (h : OnLevel l p s) (hp : p ≠ 0) (hl : l' ≠ .se0) (hne : l' ≠ l)
    (hi : Carries eop l' i) (hj : Carries eop l' j) :
    OnLevel l' 0 (step (step s i) j) ∧
      log step sample s [i, j] = if p = 1 then [symbolCode l] else [] := by
  obtain ⟨hq, hqq, hd, hphase⟩ := line_step (s := s) hi.toListens
  rw [h.lineStateRx_eq, if_neg (symbolState_ne_dt l), h.bitPhase] at hphase
  rw [h.lineStateQ, hi.dpair, lineStateD_other hne] at hq
  rw [h.diffStateQ, hi.ddiff_eq hl, lineStateD_other hne] at hd
  have hrx : lineStateRx (step s i) j = DT := by
    rw [lineStateRx, hq, hd]
    split_ifs <;> rfl
  obtain ⟨hq', -, hd', hphase'⟩ := line_step (s := step s i) hj.toListens
  rw [hrx, if_pos rfl] at hphase'
  rw [hq, hj.dpair, lineStateD_dt] at hq'
  rw [hd, hj.ddiff_eq hl, lineStateD_dt] at hd'
  have hnone : sample (step s i) j = none := by
    rw [FsRx.sample_eq hphase hrx, if_neg]
    intro hone
    exact succ_ne_one hp hone
  refine ⟨⟨hl, hq', hd', hphase'⟩, ?_⟩
  rw [log_cons, log_cons, log_nil, hnone, h.sample_eq i]
  split_ifs <;> rfl

/-- The two cycles of the entry to SE0: the bit phase restarts or runs on. -/
theorem OnLevel.fall (h : OnLevel l p s) (hp : p ≠ 0) (hi : Carries eop .se0 i)
    (hj : Carries eop .se0 j) :
    (OnSe0 0 (step (step s i) j) ∨ OnSe0 (p + 2) (step (step s i) j)) ∧
      log step sample s [i, j] = if p = 1 then [symbolCode l] else [] := by
  obtain ⟨hq, hqq, hd, hphase⟩ := line_step (s := s) hi.toListens
  rw [h.lineStateRx_eq, if_neg (symbolState_ne_dt l), h.bitPhase] at hphase
  rw [h.lineStateQ, hi.dpair, lineStateD_other h.level.symm] at hq
  rw [h.lineStateQ] at hqq
  rw [h.diffStateQ] at hd
  have hne : ∀ l : Line, l ≠ .se0 → symbolState l ≠ SE0 := by
    intro l
    cases l <;> decide
  have huse : useSe (step s i) = false := by
    have hqne : (symbolState l == SE0) = false := beq_eq_false_iff_ne.2 (hne l h.level)
    rw [useSe, hq, hqq, hqne]
    rfl
  obtain ⟨hq', -, hd', hphase'⟩ := line_step (s := step s i) hj.toListens
  rw [hq, hj.dpair, lineStateD_dt] at hq'
  have hok : (step (step s i) j).diffStateQ = DT ∨
      (step (step s i) j).diffStateQ.getLsbD 2 = false := by
    rw [hd', hd]
    refine lineStateD_ok _ _ (lineStateD_ok _ _ (.inr ?_))
    cases l <;> decide
  have hnone : sample (step s i) j = none := by
    rw [FsRx.sample_eq hphase rfl, if_neg]
    intro hone
    exact succ_ne_one hp hone
  refine ⟨?_, ?_⟩
  · by_cases hrx : lineStateRx (step s i) j = DT
    · rw [if_pos hrx] at hphase'
      exact .inl ⟨hq', hok, hphase'⟩
    · rw [if_neg hrx, hphase, BitVec.add_assoc] at hphase'
      exact .inr ⟨hq', hok, hphase'⟩
  · rw [log_cons, log_cons, log_nil, hnone, h.sample_eq i]
    split_ifs <;> rfl

theorem OnSe0.lineStateRx_eq (h : OnSe0 p s) (i : Input) : lineStateRx s i = SE0 := by
  rw [lineStateRx, useSe, h.lineStateQ]
  split_ifs <;> first | rfl | simp_all

theorem OnSe0.stay (h : OnSe0 p s) (hi : Carries eop .se0 i) : OnSe0 (p + 1) (step s i) := by
  obtain ⟨hq, -, hd, hp⟩ := line_step (s := s) hi.toListens
  rw [h.lineStateRx_eq, if_neg (by decide), h.bitPhase] at hp
  rw [h.lineStateQ, hi.dpair] at hq
  exact ⟨hq, hd ▸ lineStateD_ok _ _ h.diffStateQ, hp⟩

/-- The samples in `m` cycles from the bit phase `p` on. -/
def samplesIn (p : BitVec 2) (m : ℕ) : ℕ := (p.toNat + m + 2) / 4 - (p.toNat + 2) / 4

theorem samplesIn_succ (p : BitVec 2) (m : ℕ) :
    samplesIn p (m + 1) = samplesIn p m + if p + BitVec.ofNat 2 m = 1 then 1 else 0 := by
  have hone : p + BitVec.ofNat 2 m = 1 ↔ (p.toNat + m) % 4 = 1 := by
    rw [← BitVec.toNat_inj, BitVec.toNat_add, BitVec.toNat_ofNat, Nat.add_mod_mod]
    rfl
  have hlt := p.isLt
  unfold samplesIn
  split_ifs with hc <;> rw [hone] at hc <;> omega

/-- SE0 is sampled every four cycles from whatever the bit phase is. -/
theorem OnSe0.run (h : OnSe0 p s) (his : ∀ i ∈ is, Carries eop .se0 i) :
    OnSe0 (p + BitVec.ofNat 2 is.length) (Clocked.run step s is) ∧
      log step sample s is = List.replicate (samplesIn p is.length) (symbolCode .se0) := by
  induction is using List.reverseRecOn with
  | nil =>
      rw [List.length_nil, samplesIn, Nat.add_zero, Nat.sub_self]
      exact ⟨by simpa using h, rfl⟩
  | append_singleton is i ih =>
      obtain ⟨hc, hlog⟩ := ih fun j hj => his j (by simp [hj])
      have hnext := hc.stay (his i (by simp))
      rw [BitVec.add_assoc, ofNat_succ] at hnext
      rw [run_append, run_cons, run_nil, log_append, hlog, log_cons, log_nil, List.append_nil,
        FsRx.sample_eq hc.bitPhase (hc.lineStateRx_eq i), List.length_append,
        List.length_singleton, samplesIn_succ]
      refine ⟨hnext, ?_⟩
      split_ifs with hp
      · rw [Option.toList_some, List.replicate_succ']
        rfl
      · rw [Option.toList_none, List.append_nil, Nat.add_zero]

/-- The two cycles of the way back to J or K: the transition state still shows SE0. -/
theorem OnSe0.rise (h : OnSe0 p s) (hl : l ≠ .se0) (hi : Carries eop l i) (hj : Carries eop l j) :
    OnLevel l 0 (step (step s i) j) ∧
      log step sample s [i, j] = List.replicate
        ((if p = 1 then 1 else 0) + if p + 1 = 1 then 1 else 0) (symbolCode .se0) := by
  obtain ⟨hq, hqq, hd, hphase⟩ := line_step (s := s) hi.toListens
  rw [h.lineStateRx_eq, if_neg (by decide), h.bitPhase] at hphase
  rw [h.lineStateQ] at hqq
  rw [h.lineStateQ, hi.dpair, show SE0 = symbolState .se0 from rfl, lineStateD_other hl] at hq
  have hrx : lineStateRx (step s i) j = DT := by
    rw [lineStateRx, useSe, hq, hqq]
    split_ifs <;> first | rfl | simp_all
  obtain ⟨hq', -, hd', hphase'⟩ := line_step (s := step s i) hj.toListens
  rw [hrx, if_pos rfl] at hphase'
  rw [hq, hj.dpair, lineStateD_dt] at hq'
  rw [hd, hi.ddiff_eq hl, hj.ddiff_eq hl, lineStateD_twice hl h.diffStateQ] at hd'
  refine ⟨⟨hl, hq', hd', hphase'⟩, ?_⟩
  rw [log_cons, log_cons, log_nil, FsRx.sample_eq h.bitPhase (h.lineStateRx_eq i),
    FsRx.sample_eq hphase hrx]
  split_ifs <;> rfl

/-! ### Runs -/

/-- The samples of some cycles, the last of which takes none. -/
structure Yields (eop : Bool) (s : State) (is : List Input) (xs : List (BitVec 2)) : Prop where
  log : log step sample s is = xs
  rested : core (Clocked.run step s is) = settled eop (Clocked.run step s is)

theorem Yields.append {ys : List (BitVec 2)} {js : List Input} (hlog : Clocked.log step sample s is = xs)
    (h : Yields eop (Clocked.run step s is) js ys) : Yields eop s (is ++ js) (xs ++ ys) where
  log := by rw [log_append, hlog, h.log]
  rested := by
    rw [run_append]
    exact h.rested

/-- After a cycle without a sample nothing is left to latch. -/
theorem rested_of_idle (hi : Listens eop i) (hv : lineStateValid s = false) :
    core (step s i) = settled eop (step s i) := by
  rw [← settled_core, core_step_idle hi hv, settled_settled]

theorem OnLevel.not_valid_step (h : OnLevel l p s) (hp : p ≠ 0) (hi : Listens eop i) :
    lineStateValid (step s i) = false := by
  obtain ⟨-, -, -, hphase⟩ := line_step (s := s) hi
  rw [h.lineStateRx_eq, if_neg (symbolState_ne_dt l), h.bitPhase] at hphase
  rw [lineStateValid, hphase]
  simpa using succ_ne_one hp

/-- The end of a level: the level goes on, turns or falls to SE0. -/
theorem OnLevel.last (h : OnLevel l 0 s) (his : ∀ i ∈ is, Carries eop l i)
    (hlen : RunLength n (is.length + 2)) (hi : Carries eop l' i) (hj : Carries eop l' j) :
    Yields eop s (is ++ [i, j]) (List.replicate n (symbolCode l)) := by
  obtain ⟨hrun, hlog⟩ := h.run his
  obtain ⟨hp, hcount⟩ := replicate_run (symbolCode l) hlen
  have hrested : core (Clocked.run step (Clocked.run step s is) [i, j]) =
      settled eop (Clocked.run step (Clocked.run step s is) [i, j]) :=
    rested_of_idle hj.toListens (hrun.not_valid_step hp hi.toListens)
  rw [← hcount]
  refine .append hlog ⟨?_, hrested⟩
  by_cases hsame : l' = l
  · subst hsame
    have hnext := hrun.not_valid_step hp hi.toListens
    have hnone : sample (step (Clocked.run step s is) i) j = none := by
      rw [sample, hnext]
      rfl
    rw [log_cons, log_cons, log_nil, hrun.sample_eq i, hnone]
    split_ifs <;> rfl
  · by_cases hse0 : l' = .se0
    · subst hse0
      exact (hrun.fall hp hi hj).2
    · exact (hrun.turn hp hse0 hsame hi hj).2

/-- The bit phase at the entry to SE0 decides between two samples and three. -/
theorem samplesIn_se0 {m : ℕ} (hp : p = 0 ∨ p = 1 ∨ p = 3) (hlen : RunLength 2 m) :
    samplesIn p m = 2 ∨ samplesIn p m = 3 := by
  have hzero : (0 : BitVec 2).toNat = 0 := rfl
  have hone : (1 : BitVec 2).toNat = 1 := rfl
  have hthree : (3 : BitVec 2).toNat = 3 := rfl
  obtain ⟨-, hle, hge⟩ := hlen
  unfold samplesIn
  obtain rfl | rfl | rfl := hp <;> omega

theorem RunLength.exists_two {is : List Input} (h : RunLength n is.length) :
    ∃ i j js, is = i :: j :: js := by
  obtain ⟨hn, hle, -⟩ := h
  match is with
  | [] => simp at hle; omega
  | [_] => simp at hle; omega
  | i :: j :: js => exact ⟨i, j, js, rfl⟩

/-- Each run gives its samples; what follows the last one is the first two cycles of a further
run, or the same one going on. -/
theorem Steady.yields {rest : List Input} (h : Steady eop l runs rest)
    (hlast : lastSymbol l runs ≠ .se0) (hi : Carries eop l' i) (hj : Carries eop l' j) :
    (∀ s is n, OnLevel l 0 s → (∀ k ∈ is, Carries eop l k) → RunLength n (is.length + 2) →
      ∃ xs, Sampled ((l, n) :: runs) xs ∧ Yields eop s (is ++ rest ++ [i, j]) xs) ∧
    ∀ s p is, l = .se0 → OnSe0 p s → (∀ k ∈ is, Carries eop .se0 k) →
      ∃ r runs' xs, runs = r :: runs' ∧ r.1 ≠ .se0 ∧ 1 ≤ r.2 ∧ Sampled runs xs ∧
        Yields eop s (is ++ rest ++ [i, j])
          (List.replicate (samplesIn p (is.length + 2)) (symbolCode .se0) ++ xs) := by
  induction h with
  | nil l =>
      refine ⟨fun s is n hs his hlen => ?_, fun s p is hl => absurd hl hlast⟩
      rw [List.append_nil]
      have hsampled := Sampled.level (n := n) hs.level Sampled.nil
      rw [List.append_nil] at hsampled
      exact ⟨_, hsampled, hs.last his hlen hi hj⟩
  | @cons l m n' is' rest runs hne his' hlen' hse0 hrest ih =>
      obtain ⟨a, b, js, rfl⟩ := hlen'.exists_two
      have ha := his' a (by simp)
      have hb := his' b (by simp)
      have hjs : ∀ k ∈ js, Carries eop m k := fun k hk => his' k (by simp [hk])
      obtain ⟨ihlevel, ihse0⟩ := ih hlast
      have hsplit (is : List Input) : is ++ (a :: b :: js ++ rest) ++ [i, j] =
          is ++ ([a, b] ++ (js ++ rest ++ [i, j])) := by simp
      constructor
      · intro s is n hs his hlen
        obtain ⟨hrun, hlog⟩ := hs.run his
        obtain ⟨hp, hcount⟩ := replicate_run (symbolCode l) hlen
        rw [hsplit, ← List.append_assoc]
        by_cases hm : m = .se0
        · subst hm
          obtain rfl := hse0 rfl
          obtain ⟨hfall, hlog'⟩ := hrun.fall hp ha hb
          have hphase : ∀ q : BitVec 2, q ≠ 0 → q + 2 = 0 ∨ q + 2 = 1 ∨ q + 2 = 3 := by decide
          obtain ⟨p, hp', hse0⟩ : ∃ p, (p = 0 ∨ p = 1 ∨ p = 3) ∧
              OnSe0 p (Clocked.run step s (is ++ [a, b])) := by
            rw [run_append]
            obtain hfall | hfall := hfall
            · exact ⟨0, .inl rfl, hfall⟩
            · exact ⟨_, hphase _ hp, hfall⟩
          obtain ⟨r, runs', xs, rfl, hr, hn, hxs, hyields⟩ := ihse0 _ p js rfl hse0 hjs
          refine ⟨_, .level hs.level (.se0 (samplesIn_se0 hp' hlen') hr hn hxs), .append ?_ hyields⟩
          rw [log_append, hlog, hlog', hcount]
        · obtain ⟨hturn, hlog'⟩ := hrun.turn hp hm hne ha hb
          have hlevel : OnLevel m 0 (Clocked.run step s (is ++ [a, b])) := by
            rw [run_append]
            exact hturn
          obtain ⟨xs, hxs, hyields⟩ := ihlevel _ js n' hlevel hjs hlen'
          refine ⟨_, .level hs.level hxs, .append ?_ hyields⟩
          rw [log_append, hlog, hlog', hcount]
      · rintro s p is rfl hs his
        obtain ⟨hrun, hlog⟩ := hs.run his
        obtain ⟨hrise, hlog'⟩ := hrun.rise hne ha hb
        have hlevel : OnLevel m 0 (Clocked.run step s (is ++ [a, b])) := by
          rw [run_append]
          exact hrise
        obtain ⟨xs, hxs, hyields⟩ := ihlevel _ js n' hlevel hjs hlen'
        refine ⟨_, _, xs, rfl, hne, hlen'.1, hxs, ?_⟩
        rw [hsplit, ← List.append_assoc]
        refine .append ?_ hyields
        rw [log_append, hlog, hlog', ← List.replicate_add, samplesIn_succ, samplesIn_succ,
          BitVec.add_assoc, ofNat_succ, Nat.add_assoc]

/-! ### The two modes -/

/-- A line in use: SE0 before the device is attached, then runs that end with J or K, and the
first two cycles of one more run. -/
inductive SteadyWave (eop : Bool) : List Input → Prop
  | intro {pre is : List Input} {i j : Input} {runs : List (Line × ℕ)} {l : Line}
      (hpre : ∀ k ∈ pre, Carries eop .se0 k) (h : Steady eop .se0 runs is)
      (hlast : lastSymbol .se0 runs ≠ .se0) (hi : Carries eop l i) (hj : Carries eop l j) :
      SteadyWave eop (pre ++ is ++ [i, j])

/-- The same cycle with `cfg_use_diff_rcvr_i` set so. -/
def withMode (diff : Bool) (i : Input) : Input := { i with cfgUseDiffRcvr := diff }

theorem Carries.withMode (h : Carries eop l i) (diff : Bool) : Carries eop l (withMode diff i) :=
  ⟨⟨h.linkReset, h.cfgEopSingleBit, h.diffRxOk, h.txEn⟩, h.dpair, h.usbD⟩

theorem Steady.listens (h : Steady eop l runs is) : ∀ i ∈ is, Listens eop i := by
  induction h with
  | nil => simp
  | cons _ his _ _ _ ih =>
      intro k hk
      obtain hk | hk := List.mem_append.1 hk
      · exact (his k hk).toListens
      · exact ih k hk

theorem Steady.withMode (h : Steady eop l runs is) (diff : Bool) :
    Steady eop l runs (is.map (withMode diff)) := by
  induction h with
  | nil l => exact .nil l
  | cons hne his hlen hse0 _ ih =>
      rw [List.map_append]
      refine .cons hne (fun k hk => ?_) (by rwa [List.length_map]) hse0 ih
      obtain ⟨k', hk', rfl⟩ := List.mem_map.1 hk
      exact (his k' hk').withMode diff

/-- What is reported after a reset, in either mode. -/
theorem log_event_reset {pre : List Input} (hpre : ∀ k ∈ pre, Carries eop .se0 k)
    (h : Steady eop .se0 runs is) (hlast : lastSymbol .se0 runs ≠ .se0) (hi : Carries eop l i)
    (hj : Carries eop l j) : log step event State.reset (pre ++ is ++ [i, j]) =
      symbolLog eop event (settled eop State.reset)
        (List.replicate (samplesIn 0 (pre.length + 2)) (symbolCode .se0) ++ symbols runs) := by
  obtain ⟨r, runs', xs, -, -, -, hxs, hyields⟩ :=
    (h.yields hlast hi hj).2 State.reset 0 pre rfl ⟨rfl, .inr rfl, rfl⟩ hpre
  have hlistens : ∀ k ∈ pre ++ is ++ [i, j], Listens eop k := by
    intro k hk
    simp only [List.mem_append, List.mem_cons, List.not_mem_nil, or_false] at hk
    obtain (hk | hk) | rfl | rfl := hk
    · exact (hpre k hk).toListens
    · exact h.listens k hk
    · exact hi.toListens
    · exact hj.toListens
  obtain ⟨hlog, -⟩ := (event_symbolOutput eop).log _ hlistens (s := State.reset) fun hv => by cases hv
  have hstart : event (core State.reset) (listening eop) = none := rfl
  rw [hyields.rested, (event_symbolOutput eop).silent, hyields.log, hstart] at hlog
  simp only [Option.toList_none, List.append_nil, List.nil_append] at hlog
  rw [hlog, symbolLog_append, symbolLog_append,
    hxs.symbolLog_eq (settled_symbolRun (settled_settled _ _) _)]

/-- Whatever `usb_d_i` shows at SE0, the receiver reports the same in either mode: data bytes and
ends of packet, with all their fields, in the same order. -/
theorem diff_reception {cycles : List Input} (h : SteadyWave eop cycles) :
    log step event State.reset (cycles.map (withMode true)) =
      log step event State.reset (cycles.map (withMode false)) := by
  cases h with
  | @intro pre is i j runs l hpre h hlast hi hj =>
      have hmode (diff : Bool) : log step event State.reset
          ((pre ++ is ++ [i, j]).map (withMode diff)) =
            symbolLog eop event (settled eop State.reset)
              (List.replicate (samplesIn 0 (pre.length + 2)) (symbolCode .se0) ++ symbols runs) := by
        rw [List.map_append, List.map_append, ← List.length_map (withMode diff)]
        refine log_event_reset (fun k hk => ?_) (h.withMode diff) hlast (hi.withMode diff)
          (hj.withMode diff)
        obtain ⟨k', hk', rfl⟩ := List.mem_map.1 hk
        exact (hpre k' hk').withMode diff
      rw [hmode true, hmode false]

/-- Four cycles for each bit time, with the differential input at J during SE0. -/
def heldCycles (runs : List (Line × ℕ)) : List Input :=
  runs.flatMap fun r => List.replicate (4 * r.2) { lineInput r.1 with usbD := r.1 != .k }

theorem carries_held (l : Line) : Carries false l { lineInput l with usbD := l != .k } :=
  ⟨⟨rfl, rfl, rfl, rfl⟩, by cases l <;> rfl, by cases l <;> decide⟩

theorem steady_heldCycles (hne : (l :: runs.map Prod.fst).IsChain (· ≠ ·))
    (hlen : ∀ r ∈ runs, 1 ≤ r.2 ∧ (r.1 = .se0 → r.2 = 2)) :
    Steady false l runs (heldCycles runs) := by
  induction runs generalizing l with
  | nil => exact .nil l
  | cons r runs ih =>
      obtain ⟨hr, hse0⟩ := hlen r (by simp)
      rw [List.map_cons, List.isChain_cons_cons] at hne
      refine .cons hne.1.symm (fun i hi => ?_) ?_ hse0
        (ih hne.2 fun r' hr' => hlen r' (by simp [hr']))
      · rw [List.eq_of_mem_replicate hi]
        exact carries_held r.1
      · rw [List.length_replicate]
        exact ⟨hr, by omega, by omega⟩

/-- An ACK packet from idle to idle. -/
def ackRuns : List (Line × ℕ) :=
  [(.j, 2), (.k, 1), (.j, 1), (.k, 1), (.j, 1), (.k, 1), (.j, 1), (.k, 2), (.j, 2), (.k, 1), (.j, 2),
    (.k, 3), (.se0, 2), (.j, 2)]

/-- The end of the packet is reported, as in single-ended mode. -/
theorem diff_reception_ackRuns :
    (log step event State.reset (([] ++ heldCycles ackRuns ++ [lineInput .j, lineInput .j]).map
      (withMode true))).length = 1 := by
  have hruns : Steady false .se0 ackRuns (heldCycles ackRuns) :=
    steady_heldCycles (by decide) (by decide)
  have hj : Carries false .j (lineInput .j) := ⟨⟨rfl, rfl, rfl, rfl⟩, rfl, fun _ => rfl⟩
  have hpre : ∀ k ∈ ([] : List Input), Carries false .se0 k := by simp
  have hwave := SteadyWave.intro hpre hruns (by decide) hj hj
  rw [diff_reception hwave]
  decide +kernel

end UsbDev.FsRx
