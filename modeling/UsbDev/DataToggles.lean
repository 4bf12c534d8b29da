import UsbDev.Solicited
import UsbDev.Usbdev

/-!
# Data toggles

One register holds the data toggles of all endpoints of a direction. In one
cycle a token, a packet that ends and a write by software may each change it,
through indices of their own. The toggle of an endpoint follows the events of
that endpoint alone: the one cycle in which the OUT engine accepts a packet is
the cycle after its end, in which no token can end.
-/
namespace UsbDev.NbPe

open Clocked

/-- What happens to the data toggle of an endpoint. -/
inductive ToggleEvent
  | setupToken
  | flip
  | write (status : Bool)
  | linkReset
  deriving DecidableEq, Repr

/-- A data toggle after an event; a SETUP token sets it to `setup`. -/
def ToggleEvent.apply (setup toggle : Bool) : ToggleEvent → Bool
  | .setupToken => setup
  | .flip => !toggle
  | .write status => status
  | .linkReset => false

section
variable {N : ℕ}

/-- The write of a masked register, for one endpoint. -/
def writeEvents (datatog : Option ((Fin N → Bool) × (Fin N → Bool))) (e : Fin N) :
    List ToggleEvent :=
  match datatog with
  | none => []
  | some (status, mask) => if mask e then [.write (status e)] else []

/-- The events of one endpoint in one cycle, in order. -/
def endpointEvents (setupToken flip linkReset : Bool)
    (datatog : Option ((Fin N → Bool) × (Fin N → Bool))) (e : Fin N) : List ToggleEvent :=
  (if setupToken then [.setupToken] else []) ++ (if flip then [.flip] else []) ++
    writeEvents datatog e ++ if linkReset then [.linkReset] else []

variable [NeZero N]

/-- A SETUP token for the endpoint `e`, which is enabled. -/
def setupTokenFor (s : State N) (i : Input N) (enabled : Fin N → Bool) (e : Fin N) : Bool :=
  (rxSignals s i).tokenReceived i.devAddr && (rxSignals s i).pid == usbPidSetup &&
    decide ((rxSignals s i).endp.toNat = e) && enabled e

/-- The OUT engine accepts a packet for the endpoint `e`. -/
def acceptsFor (s : State N) (i : Input N) (e : Fin N) : Bool :=
  (outComb s i).acked && e == s.out.outEpCurrent

/-- The host acknowledges the packet of the endpoint `e`. -/
def ackFor (s : State N) (i : Input N) (e : Fin N) : Bool :=
  s.inp.inXactState == .waitAck && (inInput s i).ackReceived && e == s.inp.inEpCurrent

def outEvents (s : State N) (i : Input N) (e : Fin N) : List ToggleEvent :=
  endpointEvents (setupTokenFor s i i.outEpEnabled e) (acceptsFor s i e) i.linkReset i.outDatatog e

def inEvents (s : State N) (i : Input N) (e : Fin N) : List ToggleEvent :=
  endpointEvents (setupTokenFor s i i.inEpEnabled e) (ackFor s i e) i.linkReset i.inDatatog e

end

/-! ### One cycle -/

section
variable {N : ℕ} [NeZero N] {s : State N} {i : Input N} {e : Fin N}

omit [NeZero N] in
/-- The selective write after the events of the bus. -/
theorem foldl_writeEvents (setup : Bool) (busy : Fin N → Bool)
    (datatog : Option ((Fin N → Bool) × (Fin N → Bool))) (e : Fin N) :
    (writeEvents datatog e).foldl (ToggleEvent.apply setup) (busy e) =
      (match datatog with
        | none => busy
        | some (status, mask) => fun e => (busy e && !mask e) || (status e && mask e)) e := by
  cases datatog with
  | none => rfl
  | some w =>
      obtain ⟨status, mask⟩ := w
      simp only [writeEvents]
      cases mask e <;> simp [ToggleEvent.apply]

omit [NeZero N] in
/-- A register of data toggles, in the way both engines compute it: the token takes precedence
over the packet, which may be of another endpoint. -/
theorem foldl_endpointEvents (setup : Bool) (toggle : Fin N → Bool) {token flip : Bool}
    {f g : Fin N} (hne : token = true → flip = false) (linkReset : Bool)
    (datatog : Option ((Fin N → Bool) × (Fin N → Bool))) (e : Fin N) :
    (if linkReset then fun _ => false else
      let busy :=
        if token then Function.update toggle f setup
        else if flip then Function.update toggle g (!toggle g)
        else toggle
      match datatog with
      | none => busy
      | some (status, mask) => fun e => (busy e && !mask e) || (status e && mask e)) e =
    (endpointEvents (token && decide (e = f)) (flip && e == g) linkReset datatog e).foldl
      (ToggleEvent.apply setup) (toggle e) := by
  rw [endpointEvents, List.foldl_append, List.foldl_append, List.foldl_append]
  cases linkReset with
  | true => rfl
  | false =>
      simp only [Bool.false_eq_true, if_false, List.foldl_nil]
      rw [← foldl_writeEvents setup]
      congr 1
      cases token with
      | true =>
          rw [hne rfl]
          by_cases he : e = f
          · subst he
            simp [ToggleEvent.apply]
          · simp [he]
      | false =>
          cases flip with
          | true =>
              by_cases he : e = g
              · subst he
                simp [ToggleEvent.apply]
              · simp [he]
          | false => simp

/-- The engines take a token for an endpoint that is not implemented for one of endpoint 0, and
look at its number. -/
theorem setupTokenFor_eq (s : State N) (i : Input N) (enabled : Fin N → Bool) (e : Fin N) :
    setupTokenFor s i enabled e =
      ((rxSignals s i).tokenReceived i.devAddr && (rxSignals s i).pid == usbPidSetup &&
        (enabled (rxSignals s i).epCurrentD && (rxSignals s i).epInHw N) &&
        decide (e = (rxSignals s i).epCurrentD)) := by
  rw [setupTokenFor]
  by_cases he : (rxSignals s i).endp.toNat = e.val
  · rw [RxSignals.epCurrentD_eq he, RxSignals.epInHw_of_eq he]
    simp [he]
  · have hne : ¬ (e = (rxSignals s i).epCurrentD ∧ (rxSignals s i).epInHw N = true) := by
      rintro ⟨rfl, hin⟩
      rw [RxSignals.epInHw_iff] at hin
      exact he (by rw [RxSignals.epCurrentD_of_lt _ hin])
    by_cases hin : (rxSignals s i).epInHw N = true
    · have hne' : ¬ e = (rxSignals s i).epCurrentD := fun h => hne ⟨h, hin⟩
      simp [he, hne']
    · simp [he, hin]

/-- The receiver is between packets where the OUT engine accepts one. -/
def DataEnds (s : State N) : Prop :=
  s.out.outXactState = .rcvdDataEnd ∨ s.out.outXactState = .rcvdIsoDataEnd →
    s.rx.packetValid = false

theorem dataEnds_stateAt (inp : ℕ → Input N) (t : ℕ) : DataEnds (stateAt inp t) := by
  refine traj_invariant DataEnds ?_ (fun u _ => dataEnd_step) t
  rintro (hs | hs) <;> exact absurd hs (by simp [State.reset, OutPe.State.reset])

theorem DataEnds.not_acked (h : DataEnds s)
    (ht : (rxSignals s i).tokenReceived i.devAddr = true) : (outComb s i).acked = false := by
  refine OutPe.acked_eq_false _ ⟨fun hs => ?_, fun hs => ?_⟩
  all_goals
    have hend := RxSignals.pktEnd_of_tokenReceived ht
    have hpacket :=
      (FsRx.packetEnd_cases (show FsRx.packetEnd s.rx (rxInput s i) = true from hend)).2.1
    rw [h (by first | exact .inl hs | exact .inr hs)] at hpacket
    exact absurd hpacket (by decide)

theorem outToggle_step (h : DataEnds s) (i : Input N) (e : Fin N) :
    (step s i).out.dataToggle e =
      (outEvents s i e).foldl (ToggleEvent.apply false) (s.out.dataToggle e) := by
  have hne : ((outInput s i).setupTokenReceived && (outInput s i).epActive) = true →
      (outComb s i).acked = false := by
    intro ht
    simp only [OutPe.Input.setupTokenReceived, Bool.and_eq_true] at ht
    exact h.not_acked ht.1.1
  have hfold := foldl_endpointEvents false s.out.dataToggle (f := (rxSignals s i).epCurrentD)
    (g := s.out.outEpCurrent) hne i.linkReset i.outDatatog e
  rw [outEvents, setupTokenFor_eq, acceptsFor]
  refine Eq.trans ?_ hfold
  change (if i.linkReset then fun _ => false else OutPe.dataToggleD s.out (outInput s i)) e = _
  rw [OutPe.dataToggleD, OutPe.newPktEnd_eq_acked]
  rfl

theorem inToggle_step (s : State N) (i : Input N) (e : Fin N) :
    (step s i).inp.dataToggle e =
      (inEvents s i e).foldl (ToggleEvent.apply true) (s.inp.dataToggle e) := by
  have hne : ((inInput s i).setupTokenReceived && (inInput s i).epActive) = true →
      (s.inp.inXactState == .waitAck && (inInput s i).ackReceived) = false := by
    intro ht
    simp only [InPe.Input.setupTokenReceived, Bool.and_eq_true, beq_iff_eq] at ht
    have hack : (inInput s i).ackReceived = false := by
      simp [InPe.Input.ackReceived, ht.1.2, usbPidSetup, usbPidAck]
    rw [hack, Bool.and_false]
  have hfold := foldl_endpointEvents true s.inp.dataToggle (f := (rxSignals s i).epCurrentD)
    (g := s.inp.inEpCurrent) hne i.linkReset i.inDatatog e
  rw [inEvents, setupTokenFor_eq, ackFor]
  exact hfold

theorem DataEnds.not_setupToken (h : DataEnds s) (hacc : acceptsFor s i e = true)
    (enabled : Fin N → Bool) : setupTokenFor s i enabled e = false := by
  simp only [acceptsFor, Bool.and_eq_true] at hacc
  rw [setupTokenFor, ← Bool.not_eq_true]
  intro htoken
  simp only [Bool.and_eq_true] at htoken
  rw [h.not_acked htoken.1.1.1] at hacc
  exact absurd hacc.1 (by decide)

omit [NeZero N] in
theorem not_setupToken_of_ack (hack : ackFor s i e = true) (enabled : Fin N → Bool) :
    setupTokenFor s i enabled e = false := by
  simp only [ackFor, InPe.Input.ackReceived, Bool.and_eq_true, beq_iff_eq] at hack
  have hpid : (rxSignals s i).pid = usbPidAck := hack.1.2.2
  simp [setupTokenFor, hpid, usbPidAck, usbPidSetup]

/-! ### Runs -/

/-- The events of an endpoint before cycle `t`. -/
def eventsBefore (events : State N → Input N → Fin N → List ToggleEvent) (inp : ℕ → Input N)
    (e : Fin N) (t : ℕ) : List ToggleEvent :=
  (List.range t).flatMap fun u => events (stateAt inp u) (inp u) e

variable (inp : ℕ → Input N) (e : Fin N) (t : ℕ)

theorem outToggle_eq_fold : (stateAt inp t).out.dataToggle e =
    (eventsBefore outEvents inp e t).foldl (ToggleEvent.apply false) false :=
  traj_fold (fun s => s.out.dataToggle e) _ (fun s i => outEvents s i e)
    (fun u => outToggle_step (dataEnds_stateAt inp u) (inp u) e) t

theorem inToggle_eq_fold : (stateAt inp t).inp.dataToggle e =
    (eventsBefore inEvents inp e t).foldl (ToggleEvent.apply true) false :=
  traj_fold (fun s => s.inp.dataToggle e) _ (fun s i => inEvents s i e)
    (fun u => inToggle_step (stateAt inp u) (inp u) e) t

/-- A flip reaches its toggle, whatever software writes to others. -/
theorem outToggle_flip (hacc : acceptsFor (stateAt inp t) (inp t) e = true)
    (hw : writeEvents (inp t).outDatatog e = []) (hl : (inp t).linkReset = false) :
    (stateAt inp (t + 1)).out.dataToggle e = !(stateAt inp t).out.dataToggle e := by
  have hends := dataEnds_stateAt inp t
  have hstep := outToggle_step hends (inp t) e
  rw [outEvents, endpointEvents, hends.not_setupToken hacc, hacc, hw, hl] at hstep
  exact hstep

theorem inToggle_flip (hack : ackFor (stateAt inp t) (inp t) e = true)
    (hw : writeEvents (inp t).inDatatog e = []) (hl : (inp t).linkReset = false) :
    (stateAt inp (t + 1)).inp.dataToggle e = !(stateAt inp t).inp.dataToggle e := by
  have hstep := inToggle_step (stateAt inp t) (inp t) e
  rw [inEvents, endpointEvents, not_setupToken_of_ack hack, hack, hw, hl] at hstep
  exact hstep

/-- In every run each data toggle is the fold of the events of its own endpoint; a flip without a
write to this toggle and without a link reset takes place, and without an event of its own a
toggle stays. -/
theorem dataToggles :
    ((stateAt inp t).out.dataToggle e =
        (eventsBefore outEvents inp e t).foldl (ToggleEvent.apply false) false ∧
      (stateAt inp t).inp.dataToggle e =
        (eventsBefore inEvents inp e t).foldl (ToggleEvent.apply true) false) ∧
    (writeEvents (inp t).outDatatog e = [] → (inp t).linkReset = false →
      acceptsFor (stateAt inp t) (inp t) e = true →
        (stateAt inp (t + 1)).out.dataToggle e = !(stateAt inp t).out.dataToggle e) ∧
    (writeEvents (inp t).inDatatog e = [] → (inp t).linkReset = false →
      ackFor (stateAt inp t) (inp t) e = true →
        (stateAt inp (t + 1)).inp.dataToggle e = !(stateAt inp t).inp.dataToggle e) ∧
    (outEvents (stateAt inp t) (inp t) e = [] →
      (stateAt inp (t + 1)).out.dataToggle e = (stateAt inp t).out.dataToggle e) ∧
    (inEvents (stateAt inp t) (inp t) e = [] →
      (stateAt inp (t + 1)).inp.dataToggle e = (stateAt inp t).inp.dataToggle e) := by
  refine ⟨⟨outToggle_eq_fold inp e t, inToggle_eq_fold inp e t⟩,
    fun hw hl hacc => outToggle_flip inp e t hacc hw hl,
    fun hw hl hack => inToggle_flip inp e t hack hw hl, fun hnone => ?_, fun hnone => ?_⟩
  · have hstep := outToggle_step (dataEnds_stateAt inp t) (inp t) e
    rwa [hnone] at hstep
  · have hstep := inToggle_step (stateAt inp t) (inp t) e
    rwa [hnone] at hstep

end

/-- A SETUP token for endpoint 0, while software writes the toggle of endpoint 1 in each cycle. -/
def setupWrites : List (Input 2) :=
  (hostCycles 2 (hostPacket (hostToken usbPidSetup))).map fun i =>
    { i with inDatatog := some (fun _ => false, fun e => e.val == 1) }

theorem dataToggles_setupWrites :
    (eventsBefore inEvents (fun t => setupWrites.getD t (hostInput 2 .j)) 0
      setupWrites.length).foldl (ToggleEvent.apply true) false = true := by
  have hfold := (dataToggles (fun t => setupWrites.getD t (hostInput 2 .j)) 0
    setupWrites.length).1.2
  rw [← hfold, stateAt, traj_getD _ _ _ _ le_rfl, List.take_length]
  decide +kernel

end UsbDev.NbPe

namespace UsbDev.Usbdev

open Clocked

variable {N R : ℕ} [NeZero N]

/-- The protocol engine in a run of the device. -/
theorem nb_traj {dev : Device.State N} (hdev : Fresh dev) (inp : ℕ → Input N) (t : ℕ) :
    nb (traj step (State.reset R dev) inp t) =
      NbPe.stateAt (fun u => nbInput (traj step (State.reset R dev) inp u) (inp u)) t := by
  obtain ⟨avsetup, avout, rx, mem, rdata, rfl⟩ := hdev
  exact traj_part nb nbInput nb_step _ inp t

/-- The data toggles that software reads. -/
theorem dataToggle_eq_fold {dev : Device.State N} (hdev : Fresh dev) (inp : ℕ → Input N)
    (e : Fin N) (t : ℕ) :
    let pe := fun u => nbInput (traj step (State.reset R dev) inp u) (inp u)
    (traj step (State.reset R dev) inp t).dev.out.pe.dataToggle e =
        (NbPe.eventsBefore NbPe.outEvents pe e t).foldl (NbPe.ToggleEvent.apply false) false ∧
      (traj step (State.reset R dev) inp t).dev.inp.pe.dataToggle e =
        (NbPe.eventsBefore NbPe.inEvents pe e t).foldl (NbPe.ToggleEvent.apply true) false := by
  intro pe
  have hnb := nb_traj (R := R) hdev inp t
  have hout := NbPe.outToggle_eq_fold pe e t
  have hin := NbPe.inToggle_eq_fold pe e t
  rw [← hnb] at hout hin
  exact ⟨hout, hin⟩

end UsbDev.Usbdev
