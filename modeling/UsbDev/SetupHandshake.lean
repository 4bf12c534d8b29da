import UsbDev.Traffic

/-!
# The answer to a SETUP transaction

A SETUP transaction is the token, the packet after it and one more cycle; the
engine may start in any state. The only answer it gives is ACK, and with one
exception it acknowledges exactly what it posts with the setup flag. The
exception is the branch for a repeated DATA packet, which is taken before the
machine asks whether the transaction is a SETUP.
-/
namespace UsbDev.Device

open Clocked UsbIf
open OutPe (XactState)

variable {N : ℕ} [NeZero N]

/-- A SETUP token for the enabled control endpoint `ep`, and the packet that follows it.
The receiver shows the endpoint of the last token during a DATA packet. -/
structure SetupTransaction (N : ℕ) [NeZero N] where
  ep : Fin N
  token : Packet N
  gap : List (Input N)
  data : Packet N
  after : Input N
  token_valid : token.last.rx.tokenReceived token.last.cfg.devAddr = true
  token_pid : token.last.rx.pid = usbPidSetup
  token_endp : token.last.rx.endp.toNat = ep.val
  token_enabled : token.last.cfg.epOutEnable ep = true
  token_control : token.last.cfg.rxenableSetup ep = true
  gap_noEvent : ∀ i ∈ gap, NoEvent i
  data_endp : data.last.rx.dataPacketReceived = true → data.last.rx.endp.toNat = ep.val

namespace SetupTransaction

/-- The cycles in which the transaction can be answered. -/
def window (x : SetupTransaction N) : List (Input N) :=
  x.gap ++ (x.data.front ++ [x.data.last, x.after])

/-- The state in which the packet after the token ends. -/
def atEnd (x : SetupTransaction N) (s : State N) : State N :=
  run step (run step (run step s x.token.cycles) x.gap) x.data.front

/-- A cycle answers with ACK or not at all, and with ACK only when it stores a setup entry
for the endpoint. -/
def GoodAnswer (ep : Fin N) (answer : Option (BitVec 4) × Option (RxEntry N)) : Prop :=
  ∀ pid, answer.1 = some pid →
    pid = usbPidAck ∧ ∃ entry, answer.2 = some entry ∧ entry.setup = true ∧ entry.ep = ep

/-- Every answer to the transaction is good. -/
def Sound (x : SetupTransaction N) (s : State N) : Prop :=
  ∀ answer ∈ outs step (fun s i => (outTx s i, rxPush s i)) (run step s x.token.cycles) x.window,
    GoodAnswer x.ep answer

/-- The engine takes the packet for a repeated one: it is receiving data, the packet is a
valid DATA packet whose identifier disagrees with the toggle of the endpoint, and the
endpoint is neither stalled nor by now isochronous. -/
def TakenForRepeat (x : SetupTransaction N) (s : State N) : Prop :=
  phase (x.atEnd s) = .rcvdDataStart ∧ x.data.last.rx.dataPacketReceived = true ∧
    x.data.last.cfg.epOutEnable x.ep = true ∧
    x.data.last.rx.pid.getLsbD 3 ≠ (x.atEnd s).out.pe.dataToggle x.ep ∧
    (x.atEnd s).outStall x.ep = false ∧
    ¬(x.data.last.cfg.rxenableSetup x.ep = false ∧ x.data.last.cfg.outIso x.ep = true)

end SetupTransaction

/-- The engine is not in a transaction, or in a SETUP transaction of `e` before the end of
its data. -/
def AwaitsSetup (e : Fin N) (s : State N) : Prop :=
  phase s = .idle ∨
    (phase s = .rcvdOut ∨ phase s = .rcvdDataStart) ∧ s.out.pe.outEpCurrent = e ∧
      s.out.pe.currentXactSetup = true ∧ s.out.pe.outEpSetup e = true

theorem awaitsSetup_step {e : Fin N} {s : State N} {i : Input N} (h : AwaitsSetup e s)
    (he : i.rx.pktEnd = false) : AwaitsSetup e (step s i) := by
  obtain ⟨hsetup, hcur, hx⟩ := OutPe.step_of_not_end (i := peInput s i) he s.out.pe
  rcases h with hs | ⟨hs | hs, hc, hxs, hes⟩
  · exact .inl (phase_step_idle hs he)
  · have hn := phase_step_rcvdOut hs (i := i)
    rw [AwaitsSetup, hn, step_pe, hsetup, hcur, hx]
    split_ifs <;> simp [hc, hxs, hes]
  · have hn := phase_step_dataStart hs he
    rw [AwaitsSetup, hn, step_pe, hsetup, hcur, hx]
    split_ifs <;> simp [hc, hxs, hes]

/-- Before the end of its data a transaction is not answered. -/
theorem outTx_of_awaitsSetup {e : Fin N} {s : State N} {i : Input N} (h : AwaitsSetup e s)
    (he : i.rx.pktEnd = false) : outTx s i = none := by
  rcases h with hs | ⟨hs | hs, -⟩
  · exact outTx_eq_none (.inl hs)
  · exact outTx_eq_none (.inr (.inl hs))
  · exact outTx_dataStart_of_not_end hs he

/-- At the end of the data of a SETUP transaction the answer is ACK with the setup entry
stored, or there is none. -/
theorem goodAnswer_dataEnd {e : Fin N} {s : State N} (i : Input N)
    (hs : phase s = .rcvdDataEnd) (hc : s.out.pe.outEpCurrent = e)
    (hx : s.out.pe.currentXactSetup = true) (he : s.out.pe.outEpSetup e = true) :
    SetupTransaction.GoodAnswer e (outTx s i, rxPush s i) := by
  intro pid hpid
  have hs' : s.out.pe.outXactState = .rcvdDataEnd := hs
  by_cases hfull : s.out.pe.nakOutTransaction || (peInput s i).full s.out.pe.outEpCurrent
  · simp [outTx, outComb_eq, OutPe.comb, hs', hx, hfull] at hpid
  · have hcomb : OutPe.comb s.out.pe (peInput s i) =
        { stateNext := .idle, txPktStart := true, txPid := usbPidAck, newPktEnd := true,
          acked := true } := by
      simp only [OutPe.comb, hs', hx, hfull, if_true]
      rfl
    have hsetup : currentSetup s.out = true := by simp [currentSetup, hc, he]
    have hready : s.rxFifo.wready = true := by
      simp only [peInput, outPeInput, outEpFull, allOutBlocked, rxWready, hsetup, outInput,
        Bool.or_eq_true, not_or, Bool.not_eq_true, Bool.not_eq_false', if_true] at hfull
      exact hfull.2.1.1
    refine ⟨?_, rxWdata s i, ?_, hsetup, hc⟩
    · simpa [outTx, outComb_eq, hcomb] using hpid.symm
    · simp [rxPush, rxWvalid_eq, hcomb, hready]

namespace SetupTransaction

/-- The SETUP token opens the transaction unless the engine had taken the token for the
DATA packet of an earlier one. -/
theorem awaitsSetup_token (x : SetupTransaction N) (s : State N) :
    AwaitsSetup x.ep (run step s x.token.cycles) := by
  rw [Packet.cycles, run_append, run_cons, run_nil]
  generalize hs' : run step s x.token.front = s'
  have hfront := phase_front s x.token
  rw [hs'] at hfront
  have hcur := RxSignals.epCurrentD_eq x.token_endp
  have hhw := RxSignals.epInHw_of_eq x.token_endp
  have hsetup : (peInput s' x.token.last).setupTokenReceived = true := by
    simp only [OutPe.Input.setupTokenReceived, Bool.and_eq_true, beq_iff_eq]
    exact ⟨x.token_valid, x.token_pid⟩
  have hactive : (peInput s' x.token.last).epActive = true := by
    simp only [OutPe.Input.epActive, peInput_rx, hcur, hhw, Bool.and_true]
    exact x.token_enabled
  have hcontrol : (peInput s' x.token.last).epIsControl = true := by
    simp only [OutPe.Input.epIsControl, peInput_rx, hcur]
    exact x.token_control
  rcases hfront with hs | hs
  · have hs' : s'.out.pe.outXactState = .idle := hs
    have hcomb : OutPe.comb s'.out.pe (peInput s' x.token.last) =
        { stateNext := .rcvdOut, xactStart := true } := by
      simp [OutPe.comb, hs', hsetup, hactive, hcontrol]
    have hn := phase_step s' x.token.last
    rw [hcomb] at hn
    rw [AwaitsSetup, hn, step_pe]
    cases x.token.last.linkReset <;>
      simp [OutPe.step, hcomb, hsetup, hactive, hcur]
  · exact .inl (phase_step_dataStart_token hs x.token_valid)

theorem awaitsSetup_atEnd (x : SetupTransaction N) (s : State N) :
    AwaitsSetup x.ep (x.atEnd s) := by
  have hgap : AwaitsSetup x.ep (run step (run step s x.token.cycles) x.gap) :=
    run_invariant (AwaitsSetup x.ep) NoEvent (fun _ _ hi h => awaitsSetup_step h hi.2)
      (x.awaitsSetup_token s) x.gap x.gap_noEvent
  exact run_invariant (AwaitsSetup x.ep) (fun i => i.rx.pktEnd = false)
    (fun _ _ hi h => awaitsSetup_step h hi) hgap x.data.front
    x.data.front_pktEnd

/-- What the packet after the token leads to while the engine receives it as data. -/
theorem comb_last (x : SetupTransaction N) (s : State N)
    (hs : phase (x.atEnd s) = .rcvdDataStart) :
    OutPe.comb (x.atEnd s).out.pe (peInput (x.atEnd s) x.data.last) =
        { stateNext := .idle, rollback := true } ∧ ¬x.TakenForRepeat s ∨
      x.data.last.rx.dataPacketReceived = true ∧
        (OutPe.comb (x.atEnd s).out.pe (peInput (x.atEnd s) x.data.last) =
            { stateNext := .rcvdIsoDataEnd } ∧ ¬x.TakenForRepeat s ∨
          OutPe.comb (x.atEnd s).out.pe (peInput (x.atEnd s) x.data.last) =
            { stateNext := .idle, rollback := true, txPktStart := true, txPid := usbPidAck } ∧
              x.TakenForRepeat s ∨
          OutPe.comb (x.atEnd s).out.pe (peInput (x.atEnd s) x.data.last) =
            { stateNext := .rcvdDataEnd } ∧ ¬x.TakenForRepeat s) := by
  have hawait := x.awaitsSetup_atEnd s
  have hend := x.data.last_pktEnd
  have hendp := x.data_endp
  unfold TakenForRepeat
  generalize x.atEnd s = a at *
  have hs' : a.out.pe.outXactState = .rcvdDataStart := hs
  obtain hidle | ⟨-, hcur, -⟩ := hawait
  · simp [hs] at hidle
  cases hd : x.data.last.rx.dataPacketReceived with
  | false =>
      left
      have hbad : (peInput a x.data.last).invalidPacketReceived = true ∨
          (peInput a x.data.last).nonDataPacketReceived = true := by
        simp only [RxSignals.dataPacketReceived, hend, Bool.true_and] at hd
        simp only [OutPe.Input.invalidPacketReceived, OutPe.Input.nonDataPacketReceived,
          peInput_rx, hend, Bool.true_and]
        cases hv : x.data.last.rx.pktValid <;> simp_all
      rcases hbad with hbad | hbad <;> simp [OutPe.comb, hs', OutPe.badDataToggle, hd, hbad]
  | true =>
      right
      have hep := RxSignals.epCurrentD_eq (hendp hd)
      have hhw := RxSignals.epInHw_of_eq (hendp hd)
      have hv := hd
      simp only [RxSignals.dataPacketReceived, Bool.and_eq_true] at hv
      have hinv : (peInput a x.data.last).invalidPacketReceived = false := by
        simp [OutPe.Input.invalidPacketReceived, hv.1.2]
      have hnon : (peInput a x.data.last).nonDataPacketReceived = false := by
        simp [OutPe.Input.nonDataPacketReceived, hv.2]
      have hctl : (peInput a x.data.last).epIsControl = x.data.last.cfg.rxenableSetup x.ep := by
        rw [OutPe.Input.epIsControl, peInput_rx, hep]
        rfl
      have hiso : (peInput a x.data.last).iso a.out.pe.outEpCurrent =
          x.data.last.cfg.outIso x.ep := by rw [hcur]; rfl
      have hstall : (peInput a x.data.last).stall a.out.pe.outEpCurrent = a.outStall x.ep := by
        rw [hcur]; rfl
      have htog : OutPe.badDataToggle a.out.pe (peInput a x.data.last) =
          (x.data.last.cfg.epOutEnable x.ep &&
            (x.data.last.rx.pid.getLsbD 3 != a.out.pe.dataToggle x.ep)) := by
        simp only [OutPe.badDataToggle, OutPe.Input.epActive, peInput_rx, hd, hep, hhw,
          Bool.true_and, Bool.and_true]
        rfl
      refine ⟨rfl, ?_⟩
      simp only [OutPe.comb, hs', hinv, hnon, hctl, hiso, hstall, htog, peInput_rx, hd]
      cases x.data.last.cfg.rxenableSetup x.ep <;> cases x.data.last.cfg.outIso x.ep <;>
        cases a.outStall x.ep <;> cases x.data.last.cfg.epOutEnable x.ep <;>
        cases x.data.last.rx.pid.getLsbD 3 <;> cases a.out.pe.dataToggle x.ep <;>
        simp [hs]

omit [NeZero N] in
theorem goodAnswer_none (e : Fin N) (push : Option (RxEntry N)) : GoodAnswer e (none, push) := by
  intro pid hpid
  cases hpid

/-- When the packet after the token is not taken for a repeat, it is answered in the next
cycle or not at all. -/
theorem answers_of_not_repeat (x : SetupTransaction N) (s : State N) (h : ¬x.TakenForRepeat s) :
    outTx (x.atEnd s) x.data.last = none ∧
      GoodAnswer x.ep (outTx (step (x.atEnd s) x.data.last) x.after,
        rxPush (step (x.atEnd s) x.data.last) x.after) := by
  have hfront : phase (x.atEnd s) = .idle ∨ phase (x.atEnd s) = .rcvdDataStart := phase_front _ _
  rcases hfront with hs | hs
  · refine ⟨outTx_eq_none (.inl hs), ?_⟩
    have hn : phase (step (x.atEnd s) x.data.last) = .idle ∨
        phase (step (x.atEnd s) x.data.last) = .rcvdOut :=
      (phase_step_idle_end hs).imp_right And.left
    rw [outTx_eq_none (by tauto)]
    exact goodAnswer_none _ _
  · have hsilent : ∀ c : OutPe.Comb,
        OutPe.comb (x.atEnd s).out.pe (peInput (x.atEnd s) x.data.last) = c →
          c.txPktStart = false → outTx (x.atEnd s) x.data.last = none := by
      intro c hc hp
      simp [outTx, outComb_eq, hc, hp]
    have hquiet : phase (step (x.atEnd s) x.data.last) = .idle ∨
        phase (step (x.atEnd s) x.data.last) = .rcvdIsoDataEnd →
          GoodAnswer x.ep (outTx (step (x.atEnd s) x.data.last) x.after,
            rxPush (step (x.atEnd s) x.data.last) x.after) := by
      intro hn
      rw [outTx_eq_none (by tauto)]
      exact goodAnswer_none _ _
    have hn := phase_step (x.atEnd s) x.data.last
    rcases x.comb_last s hs with ⟨hc, -⟩ | ⟨hd, ⟨hc, -⟩ | ⟨-, hr⟩ | ⟨hc, -⟩⟩
    · refine ⟨hsilent _ hc rfl, hquiet (.inl ?_)⟩
      simp [hn, hc]
    · refine ⟨hsilent _ hc rfl, hquiet ?_⟩
      rw [hn, hc]
      cases x.data.last.linkReset <;> simp
    · exact absurd hr h
    · refine ⟨hsilent _ hc rfl, ?_⟩
      cases hl : x.data.last.linkReset with
      | true =>
          refine hquiet (.inl ?_)
          simp [hn, hl]
      | false =>
          obtain hidle | ⟨-, hcur, hx, he⟩ := x.awaitsSetup_atEnd s
          · simp [hs] at hidle
          have hpid := hd
          simp only [RxSignals.dataPacketReceived, Bool.and_eq_true, Bool.or_eq_true,
            beq_iff_eq] at hpid
          have htok : ∀ d, x.data.last.rx.tokenReceived d = false := by
            intro d
            by_contra ht
            have := RxSignals.dataPacketReceived_of_tokenReceived (by simpa using ht)
            rw [hd] at this
            exact Bool.noConfusion this
          apply goodAnswer_dataEnd
          · simp [hn, hc, hl]
          all_goals
            simp [step_pe, OutPe.step, hc, OutPe.Input.setupTokenReceived,
              OutPe.Input.outTokenReceived, htok, hcur, hx, he]

/-- When it is taken for a repeat, it is acknowledged and nothing is stored. -/
theorem not_sound_of_repeat (x : SetupTransaction N) (s : State N) (h : x.TakenForRepeat s) :
    ¬x.Sound s := by
  intro hsound
  have hcomb : OutPe.comb (x.atEnd s).out.pe (peInput (x.atEnd s) x.data.last) =
      { stateNext := .idle, rollback := true, txPktStart := true, txPid := usbPidAck } := by
    rcases x.comb_last s h.1 with ⟨-, hr⟩ | ⟨-, ⟨-, hr⟩ | ⟨hc, -⟩ | ⟨-, hr⟩⟩
    · exact absurd h hr
    · exact absurd h hr
    · exact hc
    · exact absurd h hr
  have hgood := hsound (outTx (x.atEnd s) x.data.last, rxPush (x.atEnd s) x.data.last)
    (by simp [window, outs_append, atEnd])
  obtain ⟨-, entry, hentry, -⟩ := hgood usbPidAck (by simp [outTx, outComb_eq, hcomb])
  simp [rxPush, rxWvalid_eq, hcomb] at hentry

theorem sound_of_not_repeat (x : SetupTransaction N) (s : State N) (h : ¬x.TakenForRepeat s) :
    x.Sound s := by
  obtain ⟨hlast, hafter⟩ := x.answers_of_not_repeat s h
  have hawait := x.awaitsSetup_token s
  have hgap : ∀ answer ∈ outs step (fun s i => (outTx s i, rxPush s i))
      (run step s x.token.cycles) x.gap, GoodAnswer x.ep answer :=
    forall_outs (AwaitsSetup x.ep) NoEvent _ (fun _ _ hi h => awaitsSetup_step h hi.2)
      (fun _ _ hi h => by rw [outTx_of_awaitsSetup h hi.2]; exact goodAnswer_none _ _)
      hawait x.gap x.gap_noEvent
  have hfront : ∀ answer ∈ outs step (fun s i => (outTx s i, rxPush s i))
      (run step (run step s x.token.cycles) x.gap) x.data.front, GoodAnswer x.ep answer :=
    forall_outs (AwaitsSetup x.ep) (fun i => i.rx.pktEnd = false) _
      (fun _ _ hi h => awaitsSetup_step h hi)
      (fun _ _ hi h => by rw [outTx_of_awaitsSetup h hi]; exact goodAnswer_none _ _)
      (run_invariant (AwaitsSetup x.ep) NoEvent (fun _ _ hi h => awaitsSetup_step h hi.2) hawait
        x.gap x.gap_noEvent)
      x.data.front x.data.front_pktEnd
  intro answer ha
  simp only [window, outs_append, outs_cons, outs_nil, List.mem_append, List.mem_cons,
    List.not_mem_nil, or_false] at ha
  rcases ha with ha | ha | ha | ha
  · exact hgap _ ha
  · exact hfront _ ha
  · have : answer = (outTx (x.atEnd s) x.data.last, rxPush (x.atEnd s) x.data.last) := ha
    rw [this, hlast]
    exact goodAnswer_none _ _
  · have : answer = (outTx (step (x.atEnd s) x.data.last) x.after,
        rxPush (step (x.atEnd s) x.data.last) x.after) := ha
    rw [this]
    exact hafter

/-- Every answer to a SETUP transaction is ACK with the setup entry stored, exactly when the
packet after the token is not taken for a repeated DATA packet. -/
theorem sound_iff (x : SetupTransaction N) (s : State N) : x.Sound s ↔ ¬x.TakenForRepeat s :=
  ⟨fun hs hr => x.not_sound_of_repeat s hr hs, x.sound_of_not_repeat s⟩

/-- A SETUP token for endpoint 0 whose DATA packet is DATA1. -/
def withData1 : SetupTransaction 12 where
  ep := 0
  token := tokenPacket usbPidSetup 0
  gap := [cycle (rxQuiet 0)]
  data := dataPacket usbPidData1 0 [0x00#8, 0x00#8]
  after := cycle (rxQuiet 0)
  token_valid := by decide
  token_pid := rfl
  token_endp := rfl
  token_enabled := rfl
  token_control := rfl
  gap_noEvent := by simp [NoEvent, cycle, rxQuiet]
  data_endp := fun _ => rfl

theorem takenForRepeat_withData1 : withData1.TakenForRepeat clearedDevice := by
  refine ⟨by decide, by decide, by decide, by decide, by decide, by decide⟩

theorem sound_iff_withData1 : ¬withData1.Sound clearedDevice := fun h =>
  (sound_iff withData1 clearedDevice).1 h takenForRepeat_withData1

/-- Out of reset, without a single buffer, the device acknowledges a SETUP transaction with
DATA1 that it stores nowhere. -/
theorem not_forall_sound :
    ¬∀ s : State 12, Reachable step RxAllowed clearedDevice s →
      ∀ x : SetupTransaction 12, x.Sound s :=
  fun h => not_sound_of_repeat _ _ takenForRepeat_withData1 (h _ .init _)

end SetupTransaction

end UsbDev.Device
