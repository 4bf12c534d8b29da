import UsbDev.MemoryPort

/-!
# Answers and the active link

The IN engine is held at rest while the link is not active; the OUT engine is
not. A run transmits only over an active link exactly if every packet that the
engines answer ends over one and the link does not change at that moment.
-/
namespace UsbDev.InPe

variable {N : ℕ} [NeZero N] {s : State N} {i : Input N}

/-- The engine prepares an answer exactly after a token that opens a transaction. -/
theorem stateNext_rcvdIn_iff : (comb s i).stateNext = .rcvdIn ↔ inXactStarting s i = true := by
  have hack : i.inTokenReceived = true → i.ackReceived = false := by
    intro htoken
    simp only [Input.inTokenReceived, Bool.and_eq_true, beq_iff_eq] at htoken
    simp [Input.ackReceived, htoken.2, usbPidIn, usbPidAck]
  unfold comb inXactStarting inStarting
  cases hs : s.inXactState <;> cases htoken : i.inTokenReceived <;> cases hactive : i.epActive <;>
    dsimp only <;> split_ifs <;> simp_all

end UsbDev.InPe

namespace UsbDev.OutPe

variable {N : ℕ} [NeZero N]

/-- An isochronous DATA packet, which is never answered. -/
def isoPacket (s : State N) (i : Input N) : Bool :=
  !i.epIsControl && i.iso s.outEpCurrent && i.rx.dataPacketReceived

/-- A DATA packet that the engine takes for a repetition, and acknowledges as it ends. -/
def repeatsData (s : State N) (i : Input N) : Bool :=
  s.outXactState == .rcvdDataStart && !isoPacket s i && badDataToggle s i && !i.stall s.outEpCurrent

/-- A DATA packet that the engine answers in the next cycle. -/
def takesData (s : State N) (i : Input N) : Bool :=
  s.outXactState == .rcvdDataStart && !isoPacket s i && i.rx.dataPacketReceived &&
    !(badDataToggle s i && !i.stall s.outEpCurrent)

/-- A SETUP packet that cannot be stored is not answered after all. -/
def dropsSetup (s : State N) (i : Input N) : Bool :=
  s.currentXactSetup && (s.nakOutTransaction || i.full s.outEpCurrent)

variable {s : State N} {i : Input N}

omit [NeZero N] in
theorem not_rejected_of_data (h : i.rx.dataPacketReceived = true) :
    (i.invalidPacketReceived || i.nonDataPacketReceived) = false := by
  simp only [RxSignals.dataPacketReceived, Bool.and_eq_true] at h
  simp [Input.invalidPacketReceived, Input.nonDataPacketReceived, h.1.2, h.2]

theorem stateNext_rcvdDataEnd_iff :
    (comb s i).stateNext = .rcvdDataEnd ↔ takesData s i = true := by
  unfold comb takesData isoPacket
  cases hs : s.outXactState with
  | rcvdDataStart =>
      cases hdata : i.rx.dataPacketReceived with
      | false =>
          dsimp only
          split_ifs <;> simp_all
      | true =>
          have hvalid := not_rejected_of_data hdata
          cases hiso : !i.epIsControl && i.iso s.outEpCurrent <;>
            cases hbad : badDataToggle s i && !i.stall s.outEpCurrent <;> simp [hvalid]
  | _ => dsimp only; split_ifs <;> simp_all

theorem txPktStart_iff : (comb s i).txPktStart = true ↔
    repeatsData s i = true ∨ s.outXactState = .rcvdDataEnd ∧ dropsSetup s i = false := by
  unfold comb repeatsData dropsSetup isoPacket
  cases hs : s.outXactState with
  | rcvdDataStart =>
      cases hiso : !i.epIsControl && i.iso s.outEpCurrent && i.rx.dataPacketReceived <;>
        dsimp only <;> split_ifs <;> simp_all
  | rcvdDataEnd =>
      cases hfull : s.nakOutTransaction || i.full s.outEpCurrent <;>
        dsimp only <;> split_ifs <;> simp_all
  | _ => dsimp only; split_ifs <;> simp_all

end UsbDev.OutPe

namespace UsbDev.Interface

open Clocked

variable {N : ℕ} [NeZero N]

/-- `link_active_o`. -/
def linkActive (s : State N) : Bool := LinkState.linkActive s.link

/-- `tx_pkt_start` into `usb_fs_tx`. -/
def txPktStart (s : State N) (i : Input N) : Bool := NbPe.txPktStart (nb s) (nbInput s i)

def outPeInput (s : State N) (i : Input N) : OutPe.Input N := UsbIf.outPeInput s.out (outInput s i)

def inPeInput (s : State N) (i : Input N) : InPe.Input N := UsbIf.inPeInput s.inp (inInput s i)

theorem txPktStart_iff (s : State N) (i : Input N) : txPktStart s i = true ↔
    s.inp.pe.inXactState = .rcvdIn ∨ OutPe.repeatsData s.out.pe (outPeInput s i) = true ∨
      s.out.pe.outXactState = .rcvdDataEnd ∧ OutPe.dropsSetup s.out.pe (outPeInput s i) = false := by
  rw [txPktStart, NbPe.txPktStart, Bool.or_eq_true, NbPe.in_txPktStart_iff]
  exact or_congr Iff.rfl OutPe.txPktStart_iff

theorem rcvdIn_step_iff (s : State N) (i : Input N) :
    (step s i).inp.pe.inXactState = .rcvdIn ↔ LinkState.linkReset s.link = false ∧
      linkActive s = true ∧ InPe.inXactStarting s.inp.pe (inPeInput s i) = true := by
  have hstep : (step s i).inp.pe.inXactState =
      if LinkState.linkReset s.link || !linkActive s then .idle
      else (InPe.comb s.inp.pe (inPeInput s i)).stateNext := rfl
  rw [hstep, ← InPe.stateNext_rcvdIn_iff]
  cases LinkState.linkReset s.link <;> cases linkActive s <;> simp

theorem rcvdDataEnd_step_iff (s : State N) (i : Input N) :
    (step s i).out.pe.outXactState = .rcvdDataEnd ↔ LinkState.linkReset s.link = false ∧
      OutPe.takesData s.out.pe (outPeInput s i) = true := by
  have hstep : (step s i).out.pe.outXactState =
      if LinkState.linkReset s.link then .idle
      else (OutPe.comb s.out.pe (outPeInput s i)).stateNext := rfl
  rw [hstep, ← OutPe.stateNext_rcvdDataEnd_iff]
  cases LinkState.linkReset s.link <;> simp

variable (inp : ℕ → Input N)

/-- No packet that the engines answer ends while the link is inactive, nor in its last active
cycle. -/
structure AnsweredActive : Prop where
  repeated : ∀ t, linkActive (stateAt inp t) = false →
    OutPe.repeatsData (stateAt inp t).out.pe (outPeInput (stateAt inp t) (inp t)) = false
  token : ∀ t, linkActive (stateAt inp (t + 1)) = false → linkActive (stateAt inp t) = true →
    LinkState.linkReset (stateAt inp t).link = false →
    InPe.inXactStarting (stateAt inp t).inp.pe (inPeInput (stateAt inp t) (inp t)) = false
  data : ∀ t, linkActive (stateAt inp (t + 1)) = false →
    LinkState.linkReset (stateAt inp t).link = false →
    OutPe.takesData (stateAt inp t).out.pe (outPeInput (stateAt inp t) (inp t)) = true →
    OutPe.dropsSetup (stateAt inp (t + 1)).out.pe
      (outPeInput (stateAt inp (t + 1)) (inp (t + 1))) = true

theorem linkActive_of_txPktStart_iff :
    (∀ t, txPktStart (stateAt inp t) (inp t) = true → linkActive (stateAt inp t) = true) ↔
      AnsweredActive inp := by
  constructor
  · intro hall
    have hquiet : ∀ t, linkActive (stateAt inp t) = false →
        ¬ txPktStart (stateAt inp t) (inp t) = true := by
      intro t hl hs
      rw [hall t hs] at hl
      exact absurd hl (by decide)
    refine ⟨fun t hl => ?_, fun t hl hnow hr => ?_, fun t hl hr htakes => ?_⟩
    · rw [← Bool.not_eq_true]
      exact fun hrep => hquiet t hl ((txPktStart_iff _ _).2 (.inr (.inl hrep)))
    · rw [← Bool.not_eq_true]
      intro hstart
      have hrcvd := (rcvdIn_step_iff (stateAt inp t) (inp t)).2 ⟨hr, hnow, hstart⟩
      exact hquiet (t + 1) hl ((txPktStart_iff _ _).2 (.inl hrcvd))
    · rw [← Bool.not_eq_false]
      intro hdrops
      have hend := (rcvdDataEnd_step_iff (stateAt inp t) (inp t)).2 ⟨hr, htakes⟩
      exact hquiet (t + 1) hl ((txPktStart_iff _ _).2 (.inr (.inr ⟨hend, hdrops⟩)))
  · intro h t hs
    by_contra hl
    have hl : linkActive (stateAt inp t) = false := by simpa using hl
    obtain hrcvd | hrep | ⟨hend, hdrops⟩ := (txPktStart_iff _ _).1 hs
    · cases t with
      | zero => exact absurd hrcvd (by simp [stateAt, State.reset, UsbIf.InState.reset, InPe.State.reset])
      | succ t =>
          obtain ⟨hr, hnow, hstart⟩ := (rcvdIn_step_iff (stateAt inp t) (inp t)).1 hrcvd
          rw [h.token t hl hnow hr] at hstart
          exact absurd hstart (by decide)
    · rw [h.repeated t hl] at hrep
      exact absurd hrep (by decide)
    · cases t with
      | zero => exact absurd hend (by simp [stateAt, State.reset, UsbIf.OutState.reset, OutPe.State.reset])
      | succ t =>
          obtain ⟨hr, htakes⟩ := (rcvdDataEnd_step_iff (stateAt inp t) (inp t)).1 hend
          rw [h.data t hl hr htakes] at hdrops
          exact absurd hdrops (by decide)

/-- A host that completes no packet outside of an active link gets no answer outside of one. -/
theorem AnsweredActive.of_pktEnd
    (h : ∀ t, (rxSignals (stateAt inp t) (inp t)).pktEnd = true →
      linkActive (stateAt inp t) = true ∧ linkActive (stateAt inp (t + 1)) = true) :
    AnsweredActive inp := by
  have hend : ∀ t, (linkActive (stateAt inp t) = false ∨ linkActive (stateAt inp (t + 1)) = false) →
      (rxSignals (stateAt inp t) (inp t)).pktEnd = false := by
    intro t hl
    rw [← Bool.not_eq_true]
    intro he
    obtain ⟨hnow, hnext⟩ := h t he
    simp [hnow, hnext] at hl
  have hdata : ∀ t, (linkActive (stateAt inp t) = false ∨ linkActive (stateAt inp (t + 1)) = false) →
      (outPeInput (stateAt inp t) (inp t)).rx.dataPacketReceived = false := by
    intro t hl
    rw [RxSignals.dataPacketReceived, show (outPeInput (stateAt inp t) (inp t)).rx.pktEnd = false
      from hend t hl]
    rfl
  refine ⟨fun t hl => ?_, fun t hl _ _ => ?_, fun t hl _ htakes => ?_⟩
  · simp [OutPe.repeatsData, OutPe.badDataToggle, hdata t (.inl hl)]
  · have he : (inPeInput (stateAt inp t) (inp t)).rx.pktEnd = false := hend t (.inr hl)
    simp [InPe.inXactStarting, InPe.inStarting, InPe.Input.inTokenReceived,
      RxSignals.tokenReceived, he]
  · simp [OutPe.takesData, hdata t (.inr hl)] at htakes

/-! ### A host on the line -/

open LineCode NbPe

/-- An OUT token and an empty DATA0 packet for a device that has been attached, but not reset. -/
def poweredInputs : List (Input 1) :=
  let data := hostPacket (FsRx.pidBits usbPidData0 ++ List.replicate 16 false)
  (quickCycles .j ([.j, .j] ++ hostPacket (hostToken usbPidOut) ++ .j :: data ++
    [.j, .j])).map fun l => { busInput l with resumeLinkActive := false }

/-- The DATA packet is acknowledged in `LinkPowered`. -/
theorem answer_poweredInputs :
    let s := Clocked.run step (State.reset 1) (poweredInputs.take 220)
    let i := poweredInputs.getD 220 (busInput .j)
    txPktStart s i = true ∧ s.link.linkState = .linkPowered := by
  decide +kernel

def poweredRun (t : ℕ) : Input 1 := poweredInputs.getD t (busInput .j)

theorem answer_poweredRun : txPktStart (stateAt poweredRun 220) (poweredRun 220) = true ∧
    linkActive (stateAt poweredRun 220) = false := by
  have hstate : stateAt poweredRun 220 =
      Clocked.run step (State.reset 1) (poweredInputs.take 220) :=
    traj_getD _ _ _ _ (by decide +kernel)
  obtain ⟨hstart, hpowered⟩ := answer_poweredInputs
  refine ⟨by rw [hstate]; exact hstart, ?_⟩
  rw [linkActive, LinkState.linkActive, hstate, hpowered]
  rfl

theorem not_answeredActive_poweredRun : ¬ AnsweredActive poweredRun := by
  intro h
  have hactive := (linkActive_of_txPktStart_iff poweredRun).2 h 220 answer_poweredRun.1
  rw [answer_poweredRun.2] at hactive
  exact absurd hactive (by decide)

theorem not_forall_linkActive :
    ¬ ∀ (inp : ℕ → Input 1) (t : ℕ), txPktStart (stateAt inp t) (inp t) = true →
      linkActive (stateAt inp t) = true := by
  intro hall
  have hactive := hall poweredRun 220 answer_poweredRun.1
  rw [answer_poweredRun.2] at hactive
  exact absurd hactive (by decide)

end UsbDev.Interface
