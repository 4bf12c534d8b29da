import UsbDev.Traffic

/-!
# Retraction of an IN packet

Software arms an endpoint by setting `rdy` in its `configin` register and takes
the packet back by clearing it. The capture of a packet raises `sending` one
cycle later, so a packet whose `sending` bit reads zero after the retraction was
either sent, and has raised `in_sent`, or will never be started.
-/
namespace UsbDev.Device

open Clocked UsbIf

variable {N : ℕ} [NeZero N]

/-- Software writes `configin[e]` with `rdy` set. -/
def Arms (e : Fin N) (i : Input N) : Prop := ∃ wd, configinWd i e = some wd ∧ wd.rdy = true

/-- A DATA packet of endpoint `e` starts that carries a captured packet. -/
structure DataStart (e : Fin N) (s : State N) (i : Input N) : Prop where
  rcvdIn : s.inp.pe.inXactState = .rcvdIn
  current : s.inp.pe.inEpCurrent = e
  hasData : s.inp.pe.hasData = true
  data : inTx s i = some usbPidData0 ∨ inTx s i = some usbPidData1

/-- In this cycle `e` sees no link reset, accepts no SETUP packet and completes no IN
transaction. -/
structure Uninterrupted (e : Fin N) (s : State N) (i : Input N) : Prop where
  linkReset : i.linkReset = false
  noSetup : ¬ (setupReceived s i = true ∧ s.out.pe.outEpCurrent = e)
  notSent : setSentbit s i e = false

variable {s : State N} {i : Input N} {e : Fin N}

theorem updatePend_eq_false (h : Uninterrupted e s i) : updatePend s i e = false := by
  have hsetup := h.noSetup
  simp only [updatePend, eventLinkReset, h.linkReset, Bool.false_and, Bool.false_or]
  by_contra hne
  simp only [Bool.not_eq_false, Bool.and_eq_true, beq_iff_eq] at hne
  exact hsetup ⟨hne.1, hne.2.symm⟩

/-- The engine answers an IN token in the cycle after it was received. -/
theorem token_of_rcvdIn (h : (step s i).inp.pe.inXactState = .rcvdIn) :
    inXactStarting s i = true ∧ (step s i).inp.pe.inEpCurrent = i.rx.epCurrentD ∧
      (step s i).inp.pe.hasData = (s.configin i.rx.epCurrentD).rdy := by
  let pin := inPeInput s.inp (inInput s i)
  have hnext : (step s i).inp.pe = InPe.step s.inp.pe pin := rfl
  have hstart : inXactStarting s i = InPe.inXactStarting s.inp.pe pin := rfl
  have htoken : pin.inTokenReceived = true ∧ InPe.inXactStarting s.inp.pe pin = true := by
    have hn : (InPe.comb s.inp.pe pin).stateNext = .rcvdIn := by
      rw [hnext] at h
      simp only [InPe.step] at h
      split_ifs at h
      exact h
    unfold InPe.comb at hn
    simp only [InPe.inXactStarting, InPe.inStarting]
    cases hs : s.inp.pe.inXactState <;> simp only [hs] at hn <;> split_ifs at hn <;> simp_all
  rw [hstart, hnext]
  refine ⟨htoken.2, ?_, ?_⟩
  · simp only [InPe.step, htoken.1, if_true]
    rfl
  · simp only [InPe.step, htoken.1, if_true]
    rfl

/-- Only software sets `rdy`. -/
theorem rdy_step (h : (s.configin e).rdy = false) (hi : ¬ Arms e i) :
    ((step s i).configin e).rdy = false := by
  have hstep : ((step s i).configin e).rdy = (configinD s i e).rdy := rfl
  rw [hstep]
  cases hw : configinWd i e with
  | none => simp [configinD, subregRW, hw, h]
  | some wd =>
      have hrdy : wd.rdy = false := by
        by_contra hne
        exact hi ⟨wd, hw, by simpa using hne⟩
      simp [configinD, subregRW, hw, hrdy]

/-- A captured packet raises `sending`, unless software clears the bit in that cycle. -/
theorem sending_capture (h : inXactStarting s i = true) (hcur : i.rx.epCurrentD = e)
    (hu : Uninterrupted e s i) (hw : ∀ wd, configinWd i e = some wd → wd.sending = false) :
    ((step s i).configin e).sending = true := by
  have hstep : ((step s i).configin e).sending = (configinD s i e).sending := rfl
  have hset : setSending s i e = true := by simp [setSending, h, hcur]
  rw [hstep]
  cases hwd : configinWd i e with
  | none => simp [configinD, subregW1C, hwd, hset, hu.notSent, updatePend_eq_false hu]
  | some wd =>
      simp [configinD, subregW1C, hwd, hset, hu.notSent, updatePend_eq_false hu, hw wd hwd]

theorem sending_step (h : (s.configin e).sending = true) (hu : Uninterrupted e s i)
    (hw : ∀ wd, configinWd i e = some wd → wd.sending = false) :
    ((step s i).configin e).sending = true := by
  have hstep : ((step s i).configin e).sending = (configinD s i e).sending := rfl
  rw [hstep]
  cases hwd : configinWd i e with
  | none => simp [configinD, subregW1C, hwd, h, hu.notSent, updatePend_eq_false hu]
  | some wd =>
      simp [configinD, subregW1C, hwd, h, hu.notSent, updatePend_eq_false hu, hw wd hwd]

/-! ### Along a run -/

/-- Software arms `e` in cycle `armed`, takes the packet back in cycle `cleared` without
touching `sending`, and reads `sending[e]` as zero in cycle `seen`; since arming there was no
link reset, no SETUP packet for `e` and no IN packet of `e` sent. -/
structure Retracted (s₀ : State N) (inp : ℕ → Input N) (e : Fin N) (armed cleared seen : ℕ) :
    Prop where
  notArmed : ((traj step s₀ inp armed).configin e).rdy = false
  arms : Arms e (inp armed)
  armed_cleared : armed < cleared
  clears : ∃ wd, configinWd (inp cleared) e = some wd ∧ wd.rdy = false ∧ wd.sending = false
  cleared_seen : cleared < seen
  uninterrupted : ∀ t, armed ≤ t → t < seen → Uninterrupted e (traj step s₀ inp t) (inp t)
  notSending : ((traj step s₀ inp seen).configin e).sending = false

/-- No DATA packet from the configuration armed in cycle `armed` is ever started, up to the
next time that software arms `e`. -/
def NeverStarted (s₀ : State N) (inp : ℕ → Input N) (e : Fin N) (armed cleared : ℕ) : Prop :=
  ∀ t, armed < t → (∀ u, cleared < u → u < t → ¬ Arms e (inp u)) →
    ¬ DataStart e (traj step s₀ inp t) (inp t)

/-- Between arming and retraction software writes no one to `sending[e]`. -/
def NoSendingWrite (inp : ℕ → Input N) (e : Fin N) (armed seen : ℕ) : Prop :=
  ∀ t, armed < t → t < seen → ∀ wd, configinWd (inp t) e = some wd → wd.sending = false

variable {s₀ : State N} {inp : ℕ → Input N} {armed cleared seen : ℕ}

/-- A started DATA packet was captured in the cycle before, when its endpoint was armed. -/
theorem capture_of_dataStart {t : ℕ} (h : DataStart e (traj step s₀ inp (t + 1)) (inp (t + 1))) :
    inXactStarting (traj step s₀ inp t) (inp t) = true ∧ (inp t).rx.epCurrentD = e ∧
      ((traj step s₀ inp t).configin e).rdy = true := by
  have hrcvd : (step (traj step s₀ inp t) (inp t)).inp.pe.inXactState = .rcvdIn := h.rcvdIn
  obtain ⟨hstart, hcur, hdata⟩ := token_of_rcvdIn hrcvd
  have hep : (inp t).rx.epCurrentD = e := hcur.symm.trans h.current
  refine ⟨hstart, hep, ?_⟩
  have hset : (step (traj step s₀ inp t) (inp t)).inp.pe.hasData = true := h.hasData
  rw [hdata, hep] at hset
  exact hset

/-- After the retraction the endpoint is not armed until software arms it again. -/
theorem Retracted.rdy_eq_false (h : Retracted s₀ inp e armed cleared seen) {t : ℕ}
    (ht : cleared < t) (hno : ∀ u, cleared < u → u < t → ¬ Arms e (inp u)) :
    ((traj step s₀ inp t).configin e).rdy = false := by
  refine traj_persists (fun s : State N => (s.configin e).rdy = false) (m := cleared + 1) ht ?_ ?_
  · obtain ⟨wd, hwd, hrdy, -⟩ := h.clears
    change (configinD _ (inp cleared) e).rdy = false
    simp [configinD, subregRW, hwd, hrdy]
  · intro u hu hut hrdy
    exact rdy_step hrdy (hno u hu hut)

/-- A packet retracted safely: when `sending` reads zero, no DATA packet of the retracted
configuration was started and none will be. -/
theorem neverStarted_of_retracted (h : Retracted s₀ inp e armed cleared seen)
    (hw : NoSendingWrite inp e armed seen) : NeverStarted s₀ inp e armed cleared := by
  intro y hy hno hdata
  obtain ⟨t, rfl⟩ : ∃ t, y = t + 1 := ⟨y - 1, by omega⟩
  obtain ⟨hstart, hep, hrdy⟩ := capture_of_dataStart hdata
  -- in the arming cycle itself the endpoint is not armed yet
  have hlater : armed < t := by
    rcases Nat.lt_or_ge armed t with hlt | hge
    · exact hlt
    · have heq : t = armed := by omega
      rw [heq, h.notArmed] at hrdy
      cases hrdy
  by_cases hseen : t < seen
  · -- captured before `seen`: `sending` is raised and nothing lowers it
    have hcapture : ((traj step s₀ inp (t + 1)).configin e).sending = true :=
      sending_capture hstart hep (h.uninterrupted t hlater.le hseen) (hw t hlater hseen)
    have hend : ((traj step s₀ inp seen).configin e).sending = true := by
      refine traj_persists (fun s : State N => (s.configin e).sending = true) (m := t + 1) hseen hcapture ?_
      intro u hu hus hsend
      exact sending_step hsend (h.uninterrupted u (by omega) hus) (hw u (by omega) hus)
    rw [h.notSending] at hend
    cases hend
  · have hcs := h.cleared_seen
    have hfalse := h.rdy_eq_false (t := t) (by omega) fun u hu hut => hno u hu (by omega)
    rw [hrdy] at hfalse
    cases hfalse

/-- A write to `configin[1]` about two bytes in buffer 3. -/
def configure (rdy sending : Bool) : Sw 12 :=
  { configin := some (1, { buffer := 3, size := 2, sending := sending, pend := false, rdy := rdy }) }

/-- Software arms endpoint 1 and retracts the packet before the host asks for it. -/
def retractedEarly : List (Input 12) :=
  [cycle (rxQuiet 1) (configure true false), cycle (rxQuiet 1) (configure false false),
    cycle (rxEnd usbPidIn 1)]

theorem neverStarted_retractedEarly :
    NeverStarted clearedDevice (cyclesOf retractedEarly) 1 0 1 := by
  have hquiet : ∀ t < 2, (cyclesOf retractedEarly t).linkReset = false ∧
      ¬ (setupReceived (traj step clearedDevice (cyclesOf retractedEarly) t)
          (cyclesOf retractedEarly t) = true ∧
        (traj step clearedDevice (cyclesOf retractedEarly) t).out.pe.outEpCurrent = 1) ∧
      setSentbit (traj step clearedDevice (cyclesOf retractedEarly) t)
        (cyclesOf retractedEarly t) 1 = false := by decide
  have hretracted : Retracted clearedDevice (cyclesOf retractedEarly) 1 0 1 2 :=
    { notArmed := by decide
      arms := ⟨_, rfl, rfl⟩
      armed_cleared := by decide
      clears := ⟨_, rfl, rfl, rfl⟩
      cleared_seen := by decide
      uninterrupted := fun t _ ht =>
        ⟨(hquiet t ht).1, (hquiet t ht).2.1, (hquiet t ht).2.2⟩
      notSending := by decide }
  refine neverStarted_of_retracted hretracted ?_
  intro t ht hts wd hwd
  have hone : t = 1 := by omega
  subst hone
  cases hwd
  rfl

/-- Software arms endpoint 1, the host collects the packet, software retracts it while the
DATA packet starts, and a second write clears `sending`. -/
def sendingCleared : List (Input 12) :=
  [cycle (rxQuiet 1) (configure true false), cycle (rxEnd usbPidIn 1),
    cycle (rxQuiet 1) (configure false false), cycle (rxQuiet 1) (configure false true)]

/-- If software may write a one to `sending`, the bit no longer tells whether the packet was
started. -/
theorem not_neverStarted_of_retracted :
    ¬ ∀ (inp : ℕ → Input 12) (e : Fin 12) (armed cleared seen : ℕ),
      Retracted clearedDevice inp e armed cleared seen →
        NeverStarted clearedDevice inp e armed cleared := by
  intro h
  have hquiet : ∀ t < 4, (cyclesOf sendingCleared t).linkReset = false ∧
      ¬ (setupReceived (traj step clearedDevice (cyclesOf sendingCleared) t)
          (cyclesOf sendingCleared t) = true ∧
        (traj step clearedDevice (cyclesOf sendingCleared) t).out.pe.outEpCurrent = 1) ∧
      setSentbit (traj step clearedDevice (cyclesOf sendingCleared) t)
        (cyclesOf sendingCleared t) 1 = false := by decide
  have hretracted : Retracted clearedDevice (cyclesOf sendingCleared) 1 0 2 4 :=
    { notArmed := by decide
      arms := ⟨_, rfl, rfl⟩
      armed_cleared := by decide
      clears := ⟨_, rfl, rfl, rfl⟩
      cleared_seen := by decide
      uninterrupted := fun t _ ht =>
        ⟨(hquiet t ht).1, (hquiet t ht).2.1, (hquiet t ht).2.2⟩
      notSending := by decide }
  have hnever := h _ 1 0 2 4 hretracted 2 (by decide) fun u hu hut => absurd hut (by omega)
  exact hnever ⟨by decide, by decide, by decide, by decide⟩

end UsbDev.Device
