import UsbDev.RxSymbols

/-!
# Clock recovery

At four cycles per symbol on the single-ended inputs the receiver takes exactly
one sample of each symbol, in its fourth cycle, once a change of the line has
aligned the bit phase.
-/
namespace UsbDev.FsRx

open LineCode Clocked

/-- The input drives the line state in single-ended mode while the device is silent. -/
structure Drives (flip : Bool) (l : Line) (i : Input) : Prop where
  linkReset : i.linkReset = false
  cfgUseDiffRcvr : i.cfgUseDiffRcvr = false
  cfgPinflip : i.cfgPinflip = flip
  diffRxOk : i.diffRxOk = true
  txEn : i.txEn = false
  usbDp : i.usbDp = if flip then l == .k else l == .j
  usbDn : i.usbDn = if flip then l == .j else l == .k

/-- Each symbol is on the line for four cycles. -/
inductive Waveform (flip : Bool) : List Line → List Input → Prop
  | nil : Waveform flip [] []
  | cons {l : Line} {ls : List Line} {i₀ i₁ i₂ i₃ : Input} {is : List Input}
      (h₀ : Drives flip l i₀) (h₁ : Drives flip l i₁) (h₂ : Drives flip l i₂)
      (h₃ : Drives flip l i₃) (hs : Waveform flip ls is) :
      Waveform flip (l :: ls) (i₀ :: i₁ :: i₂ :: i₃ :: is)

variable {flip : Bool} {l l' : Line} {s : State} {i : Input} {ls : List Line} {is : List Input}

theorem Waveform.split {as bs : List Line} (h : Waveform flip (as ++ bs) is) :
    ∃ is₁ is₂, is = is₁ ++ is₂ ∧ Waveform flip as is₁ ∧ Waveform flip bs is₂ := by
  induction as generalizing is with
  | nil => exact ⟨[], is, rfl, .nil, h⟩
  | cons a as ih =>
      cases h with
      | cons h₀ h₁ h₂ h₃ hs =>
          obtain ⟨is₁, is₂, rfl, hfirst, hrest⟩ := ih hs
          exact ⟨_ :: _ :: _ :: _ :: is₁, is₂, rfl, .cons h₀ h₁ h₂ h₃ hfirst, hrest⟩

theorem Waveform.drives (h : Waveform flip ls is) : ∀ i ∈ is, ∃ l, Drives flip l i := by
  induction h with
  | nil => simp
  | cons h₀ h₁ h₂ h₃ _ ih =>
      intro i hi
      simp only [List.mem_cons] at hi
      obtain rfl | rfl | rfl | rfl | hi := hi
      · exact ⟨_, h₀⟩
      · exact ⟨_, h₁⟩
      · exact ⟨_, h₂⟩
      · exact ⟨_, h₃⟩
      · exact ih i hi

theorem Waveform.linkReset (h : Waveform flip ls is) : ∀ i ∈ is, i.linkReset = false := by
  intro i hi
  obtain ⟨l, hl⟩ := h.drives i hi
  exact hl.linkReset

theorem Waveform.diffRxOk (h : Waveform flip ls is) : ∀ i ∈ is, i.diffRxOk = true := by
  intro i hi
  obtain ⟨l, hl⟩ := h.drives i hi
  exact hl.diffRxOk

/-- A cycle that shows a symbol on the single-ended inputs. -/
def lineInput (l : Line) : Input where
  linkReset := false
  cfgEopSingleBit := false
  cfgUseDiffRcvr := false
  cfgPinflip := false
  diffRxOk := true
  usbD := l == .j
  usbDp := l == .j
  usbDn := l == .k
  txEn := false

/-- Four cycles for each symbol. -/
def lineCycles (ls : List Line) : List Input := ls.flatMap fun l => List.replicate 4 (lineInput l)

theorem drives_lineInput (l : Line) : Drives false l (lineInput l) :=
  ⟨rfl, rfl, rfl, rfl, rfl, rfl, rfl⟩

theorem waveform_lineCycles (ls : List Line) : Waveform false ls (lineCycles ls) := by
  induction ls with
  | nil => exact .nil
  | cons l ls ih =>
      have h := drives_lineInput l
      exact .cons h h h h ih

theorem Drives.dpair_eq (h : Drives flip l i) : dpair i = symbolCode l := by
  rw [dpair, h.txEn, h.cfgPinflip, h.usbDp, h.usbDn]
  cases flip <;> cases l <;> decide

/-! ### One symbol -/

/-- Line state recovery and bit phase in one cycle. -/
def clock (c : BitVec 3 × BitVec 2) (pair : BitVec 2) : BitVec 3 × BitVec 2 :=
  (lineStateD c.1 pair, if c.1 = DT then 0 else c.2 + 1)

/-- The registers of the clock recovery. -/
def clockOf (s : State) : BitVec 3 × BitVec 2 := (s.lineStateQ, s.bitPhase)

theorem Drives.lineStateRx_eq (h : Drives flip l i) : lineStateRx s i = s.lineStateQ := by
  rw [lineStateRx, h.cfgUseDiffRcvr, if_neg (by decide)]

theorem Drives.clockOf_step (h : Drives flip l i) :
    clockOf (step s i) = clock (clockOf s) (symbolCode l) := by
  simp only [clockOf, clock, step, h.linkReset, Bool.false_eq_true, if_false, h.dpair_eq,
    bitPhaseD, h.lineStateRx_eq]
  rfl

/-- The line state of a symbol. -/
def symbolState (l : Line) : BitVec 3 := 0#1 ++ symbolCode l

/-- The last cycle of the symbol `l` is over. -/
def Aligned (l : Line) (s : State) : Prop := clockOf s = (symbolState l, 2)

/-- The four cycles of a symbol after another one: the sample falls into the last of them. -/
theorem clock_symbol (l l' : Line) :
    let c₁ := clock (symbolState l, 2) (symbolCode l')
    let c₂ := clock c₁ (symbolCode l')
    c₁.2 = 3 ∧ c₂.2 = 0 ∧ clock c₂ (symbolCode l') = (symbolState l', 1) ∧
      clock (symbolState l', 1) (symbolCode l') = (symbolState l', 2) := by
  cases l <;> cases l' <;> decide

/-- SYNC begins after an idle line: whatever the bit phase was, it is aligned then. -/
theorem clock_first : ∀ p : BitVec 2,
    clock (clock (clock (DJ, p) (symbolCode .k)) (symbolCode .k)) (symbolCode .k) =
      (symbolState .k, 1) := by decide

theorem sample_of_phase (h : s.bitPhase ≠ 1) : sample s i = none := by
  have hvalid : lineStateValid s = false := by
    rw [lineStateValid, beq_eq_false_iff_ne]
    exact h
  rw [sample, hvalid, if_neg (by decide)]

theorem sample_of_valid (h : Drives flip l' i) (hc : clockOf s = (symbolState l, 1)) :
    sample s i = some (symbolCode l) := by
  have hstate : s.lineStateQ = symbolState l := congrArg Prod.fst hc
  have hphase : s.bitPhase = 1 := congrArg Prod.snd hc
  rw [sample, lineStateValid, hphase, h.lineStateRx_eq, hstate]
  cases l <;> decide

/-- The first three cycles of a symbol. -/
theorem three_cycles {i₀ i₁ i₂ : Input} (ha : Aligned l s) (h₀ : Drives flip l' i₀)
    (h₁ : Drives flip l' i₁) (h₂ : Drives flip l' i₂) :
    log step sample s [i₀, i₁, i₂] = [] ∧
      clockOf (Clocked.run step s [i₀, i₁, i₂]) = (symbolState l', 1) := by
  obtain ⟨hp₁, hp₂, hc₃, -⟩ := clock_symbol l l'
  have hc : clockOf s = (symbolState l, 2) := ha
  have hs₁ := h₀.clockOf_step (s := s)
  rw [hc] at hs₁
  have hs₂ := h₁.clockOf_step (s := step s i₀)
  rw [hs₁] at hs₂
  have hs₃ := h₂.clockOf_step (s := step (step s i₀) i₁)
  rw [hs₂, hc₃] at hs₃
  have hn₀ : sample s i₀ = none :=
    sample_of_phase (by rw [show s.bitPhase = 2 from congrArg Prod.snd hc]; decide)
  have hn₁ : sample (step s i₀) i₁ = none :=
    sample_of_phase (by
      rw [show (step s i₀).bitPhase = 3 from (congrArg Prod.snd hs₁).trans hp₁]; decide)
  have hn₂ : sample (step (step s i₀) i₁) i₂ = none :=
    sample_of_phase (by
      rw [show (step (step s i₀) i₁).bitPhase = 0 from (congrArg Prod.snd hs₂).trans hp₂]; decide)
  refine ⟨?_, hs₃⟩
  rw [log_cons, log_cons, log_cons, hn₀, hn₁, hn₂]
  rfl

/-- The fourth cycle. -/
theorem fourth_cycle {i₃ : Input} (hc : clockOf s = (symbolState l, 1)) (h₃ : Drives flip l i₃) :
    sample s i₃ = some (symbolCode l) ∧ Aligned l (step s i₃) := by
  refine ⟨sample_of_valid h₃ hc, ?_⟩
  rw [Aligned, h₃.clockOf_step, hc]
  exact (clock_symbol l l).2.2.2

/-- One sample for each symbol. -/
theorem log_sample (ha : Aligned l s) (h : Waveform flip ls is) :
    log step sample s is = ls.map symbolCode ∧ ∃ l', Aligned l' (Clocked.run step s is) := by
  induction h generalizing s l with
  | nil => exact ⟨rfl, l, ha⟩
  | @cons l' ls i₀ i₁ i₂ i₃ is h₀ h₁ h₂ h₃ _ ih =>
      obtain ⟨hnone, hc⟩ := three_cycles ha h₀ h₁ h₂
      obtain ⟨hsome, ha'⟩ := fourth_cycle hc h₃
      obtain ⟨hrest, hlast⟩ := ih ha'
      refine ⟨?_, hlast⟩
      change log step sample s ([i₀, i₁, i₂] ++ i₃ :: is) = _
      rw [log_append, hnone, log_cons, hsome]
      exact congrArg (symbolCode l' :: ·) hrest

/-- The first K of SYNC after J: a sample may fall into the transition before, and shows J or
neither of the two. -/
theorem first_symbol {i₀ i₁ i₂ i₃ : Input} (hj : s.lineStateQ = DJ) (h₀ : Drives flip .k i₀)
    (h₁ : Drives flip .k i₁) (h₂ : Drives flip .k i₂) (h₃ : Drives flip .k i₃) :
    Aligned .k (Clocked.run step s [i₀, i₁, i₂, i₃]) ∧
      ∃ pre ∈ [[], [symbolCode .j], [symbolCode .se0]],
        log step sample s [i₀, i₁, i₂, i₃] = pre ++ [symbolCode .k] := by
  have hs₁ := h₀.clockOf_step (s := s)
  have hs₂ := h₁.clockOf_step (s := step s i₀)
  have hs₃ := h₂.clockOf_step (s := step (step s i₀) i₁)
  have hs₄ := h₃.clockOf_step (s := step (step (step s i₀) i₁) i₂)
  rw [show clockOf s = (DJ, s.bitPhase) by rw [clockOf, hj]] at hs₁
  rw [hs₁] at hs₂
  rw [hs₂, clock_first] at hs₃
  rw [hs₃, (clock_symbol .k .k).2.2.2] at hs₄
  refine ⟨hs₄, ?_⟩
  have hphase₁ : (step s i₀).bitPhase = s.bitPhase + 1 := by
    rw [show (step s i₀).bitPhase = (clockOf (step s i₀)).2 from rfl, hs₁]
    rfl
  have hstate₁ : (step s i₀).lineStateQ = DT := by
    rw [show (step s i₀).lineStateQ = (clockOf (step s i₀)).1 from rfl, hs₁]
    rfl
  have hphase₂ : (step (step s i₀) i₁).bitPhase ≠ 1 := by
    rw [show (step (step s i₀) i₁).bitPhase = (clockOf (step (step s i₀) i₁)).2 from rfl, hs₂]
    exact show ((0 : BitVec 2)) ≠ 1 by decide
  rw [log_cons, log_cons, log_cons, log_cons, sample_of_phase hphase₂, sample_of_valid h₃ hs₃]
  have hcases : ∀ p : BitVec 2, p = 0 ∨ p = 1 ∨ p ≠ 1 ∧ p + 1 ≠ 1 := by decide
  obtain hp | hp | ⟨hp, hp'⟩ := hcases s.bitPhase
  · have hn₀ : sample s i₀ = none := sample_of_phase (by rw [hp]; decide)
    have hn₁ : sample (step s i₀) i₁ = some (symbolCode .se0) := by
      rw [sample, lineStateValid, hphase₁, hp, h₁.lineStateRx_eq, hstate₁]
      decide
    exact ⟨[symbolCode .se0], by simp, by rw [hn₀, hn₁]; rfl⟩
  · have hn₀ : sample s i₀ = some (symbolCode .j) := by
      rw [sample, lineStateValid, hp, h₀.lineStateRx_eq, hj]
      decide
    have hn₁ : sample (step s i₀) i₁ = none :=
      sample_of_phase (by rw [hphase₁, hp]; decide)
    exact ⟨[symbolCode .j], by simp, by rw [hn₀, hn₁]; rfl⟩
  · have hn₀ : sample s i₀ = none := sample_of_phase hp
    have hn₁ : sample (step s i₀) i₁ = none := sample_of_phase (by rw [hphase₁]; exact hp')
    exact ⟨[], by simp, by rw [hn₀, hn₁]; rfl⟩

end UsbDev.FsRx
