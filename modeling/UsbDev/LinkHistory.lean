import UsbDev.LinkEvents

/-!
# How a link became active

The link state machine reaches the states beyond `LinkPowered` only through the
end of a bus reset or a resume by software, and `LinkActive` only through an SOF.
Each of these facts is one about the last entry into a group of states.
-/
namespace UsbDev.LinkState

open Clocked

variable {s : State} {i : Input}

/-- The states that the link has only after a bus reset or a resume by software. -/
def Live (s : State) : Prop :=
  s.linkState = .linkActiveNoSOF ∨ s.linkState = .linkActive ∨ s.linkState = .linkSuspended ∨
    s.linkState = .linkResuming

/-- `link_resume_o`. -/
def linkResume (s : State) (i : Input) : Bool := (linkFsm s i).2

theorem linkState_step (s : State) (i : Input) : (step s i).linkState = (linkFsm s i).1 := rfl

/-! ### The step into a state -/

/-- Without VBUS or without pull-up the link is disconnected. -/
theorem attached_previous (h : (step s i).linkState ≠ .linkDisconnected) :
    seePwrSense s = true ∧ i.usbPullupEn = true := by
  rw [linkState_step] at h
  by_contra hno
  have hoff : (!seePwrSense s || !i.usbPullupEn) = true := by
    cases hp : seePwrSense s <;> cases hu : i.usbPullupEn <;> simp_all
  simp [linkFsm, hoff] at h

/-- A live link was live before, or was reset or resumed in a powered state. -/
theorem live_previous (h : Live (step s i)) :
    (s.linkState = .linkPowered ∨ s.linkState = .linkPoweredSuspended) ∧
        (evReset s = true ∨ i.resumeLinkActive = true) ∨ Live s := by
  unfold Live at h ⊢
  rw [linkState_step] at h
  unfold linkFsm at h
  cases hs : s.linkState <;> simp only [hs] at h <;> split_ifs at h <;> simp_all

/-- A link becomes active by an SOF, and stays so while it is neither reset nor resumed. -/
theorem active_previous (h : (step s i).linkState = .linkActive) :
    s.linkState = .linkActiveNoSOF ∧ i.sofDetected = true ∨
      s.linkState = .linkActive ∧ evReset s = false ∧ linkResume s i = false := by
  rw [linkState_step] at h
  unfold linkResume
  unfold linkFsm at h ⊢
  cases hs : s.linkState <;> simp only [hs] at h ⊢ <;> split_ifs at h ⊢ <;> simp_all

/-! ### Along a run -/

variable {inp : ℕ → Input} {t : ℕ}

/-- A link that is attached in cycle `t` was disconnected last in cycle `d`. -/
structure AttachedSince (inp : ℕ → Input) (d t : ℕ) : Prop where
  lt : d < t
  disconnected : (stateAt inp d).linkState = .linkDisconnected
  attached : ∀ u, d < u → u ≤ t → (stateAt inp u).linkState ≠ .linkDisconnected
  sense : ∀ u, d ≤ u → u < t → seePwrSense (stateAt inp u) = true
  pullup : ∀ u, d ≤ u → u < t → (inp u).usbPullupEn = true

theorem exists_attachedSince (h : (stateAt inp t).linkState ≠ .linkDisconnected) :
    ∃ d, AttachedSince inp d t := by
  obtain ⟨d, hd, hdisc, hgood, hkeep⟩ := exists_entry
    (fun u => (stateAt inp u).linkState ≠ .linkDisconnected)
    (fun u => seePwrSense (stateAt inp u) = true ∧ (inp u).usbPullupEn = true)
    (fun u => (stateAt inp u).linkState = .linkDisconnected) (fun _ => True)
    (by simp [stateAt, State.reset])
    (fun u hu => ⟨attached_previous hu, by
      rw [and_true]
      exact em _⟩) h
  refine ⟨d, hd, hdisc, fun u hu hut => ?_, fun u hu hut => (hgood u hu hut).1,
    fun u hu hut => (hgood u hu hut).2⟩
  obtain hlt | rfl : u < t ∨ u = t := by omega
  · exact (hkeep u hu hlt).1
  · exact h

/-- An SOF was detected in cycle `v`, and since then the link is active, without a reset or a
resume. -/
structure ActiveSince (inp : ℕ → Input) (v t : ℕ) : Prop where
  lt : v < t
  sof : (inp v).sofDetected = true
  active : ∀ u, v < u → u ≤ t → (stateAt inp u).linkState = .linkActive
  noReset : ∀ u, v < u → u < t → evReset (stateAt inp u) = false
  noResume : ∀ u, v < u → u < t → linkResume (stateAt inp u) (inp u) = false

theorem exists_activeSince (h : (stateAt inp t).linkState = .linkActive) :
    ∃ v, ActiveSince inp v t := by
  obtain ⟨v, hv, hsof, -, hkeep⟩ := exists_entry
    (fun u => (stateAt inp u).linkState = .linkActive) (fun _ => True) _ _
    (by simp [stateAt, State.reset]) (fun u hu => ⟨trivial, active_previous hu⟩) h
  refine ⟨v, hv, hsof.2, fun u hu hut => ?_, fun u hu hut => (hkeep u hu hut).2.1,
    fun u hu hut => (hkeep u hu hut).2.2⟩
  obtain hlt | rfl : u < t ∨ u = t := by omega
  · exact (hkeep u hu hlt).1
  · exact h

/-- A live link was reset or resumed by software since it was last disconnected, and in
`LinkActive` it has seen an SOF since the last reset, resume or leaving of that state. -/
theorem live_history (inp : ℕ → Input) (t : ℕ) :
    (Live (stateAt inp t) → ∃ d, AttachedSince inp d t ∧
        ∃ m, d < m ∧ m < t ∧
          (evReset (stateAt inp m) = true ∨ (inp m).resumeLinkActive = true)) ∧
      ((stateAt inp t).linkState = .linkActive → ∃ v, ActiveSince inp v t) := by
  refine ⟨fun h => ?_, exists_activeSince⟩
  have hne : (stateAt inp t).linkState ≠ .linkDisconnected := by
    obtain h | h | h | h := h <;> simp [h]
  obtain ⟨d, hd⟩ := exists_attachedSince hne
  obtain ⟨m, hm, ⟨hpowered, hevent⟩, -, hkeep⟩ := exists_entry
    (fun u => Live (stateAt inp u)) (fun _ => True) _ (fun _ => True)
    (by simp [Live, stateAt, State.reset])
    (fun u hu => ⟨trivial, (live_previous hu).imp_right fun h => ⟨h, trivial⟩⟩) h
  refine ⟨d, hd, m, ?_, hm, hevent⟩
  -- from `m` on the link is powered or live, so it was disconnected before
  by_contra hle
  obtain rfl | hlt : m = d ∨ m < d := by omega
  · obtain hp | hp := hpowered <;> exact absurd (hp.symm.trans hd.disconnected) (by decide)
  · have hlive := (hkeep d hlt hd.lt).1
    rw [Live, hd.disconnected] at hlive
    simp at hlive

/-- A powered bus at J, a resume by software in cycle 10 and an SOF in cycle 20. -/
def resumedBus (t : ℕ) : Input where
  usTick := t % 48 == 0
  usbSense := true
  usbDp := true
  usbDn := false
  usbOe := false
  usbPullupEn := true
  rxIdleDet := true
  rxJDet := true
  sofDetected := t == 20
  resumeLinkActive := t == 10

theorem live_history_resumedBus :
    (∃ d, AttachedSince resumedBus d 30 ∧ ∃ m, d < m ∧ m < 30 ∧
        (evReset (stateAt resumedBus m) = true ∨ (resumedBus m).resumeLinkActive = true)) ∧
      ∃ v, ActiveSince resumedBus v 30 := by
  have hactive : (stateAt resumedBus 30).linkState = .linkActive := by decide +kernel
  obtain ⟨hlive, hsof⟩ := live_history resumedBus 30
  exact ⟨hlive (by simp [Live, hactive]), hsof hactive⟩

end UsbDev.LinkState
