import UsbDev.DataToggles
import UsbDev.InDataPath
import UsbDev.OutViews
import UsbDev.Retraction

/-!
# The endpoint after a SETUP

An accepted SETUP transaction takes its endpoint to one state, whatever was left
there before. The token sets both toggles; the acceptance clears the stall bits
and withdraws the armed packet, and the OUT toggle flips. In between no token
ends and no handshake completes, so that these are the only effects on the
registers of the endpoint, and on those of the others there is none.
-/
namespace UsbDev.FsRx

variable {s : State} {i i' : Input}

/-- The identifier of a valid packet is not that of a preamble. -/
theorem seePreamble_of_validPacket (h : validPacket s = true) : seePreamble s = false := by
  rw [← Bool.not_eq_true]
  intro hpre
  simp only [seePreamble, Bool.and_eq_true, beq_iff_eq] at hpre
  have htype : s.fullPid.extractLsb' 1 2 = 0b00#2 := by
    rw [← pid_type, show pid s = usbPidPre from hpre.2]
    rfl
  simp [validPacket, pktIsHandshake, pktIsData, pktIsToken, htype] at h

/-- The end of a valid packet shows no start of packet. -/
theorem seeSop_of_validPacket (hend : packetEnd (step s i) i' = true)
    (hvalid : validPacket (step s i) = true) (htx : i'.txEn = i.txEn) :
    seeSop (step s i) i' = false := by
  obtain ⟨hl, hphase⟩ := bitPhase_of_valid_step (valid_of_packetEnd hend)
  have hsample : lineStateValid s = false := lineStateValid_of_ne (by rw [hphase]; decide)
  have hbit : dvalid s = false := by simp [dvalid, dvalidRaw, hsample]
  have hraw : dvalidRaw s = false := by simp [dvalidRaw, hsample]
  have hstart : packetStart s i = false := by
    rw [packetStart, packetValidD_of_not_valid (by rw [hphase]; decide)]
    cases s.packetValid <;> rfl
  have hhistory : (step s i).lineHistory = s.lineHistory := by
    simp [step, hl, lineHistoryD, hsample]
  have hpid : (step s i).fullPid = s.fullPid := (tokenRegs_of_hold hl hbit hstart).2
  have hpacket : (step s i).packetValid = s.packetValid := by
    rw [packetValid_step hl, packetValidD_of_not_valid (by rw [hphase]; decide)]
  have hpre : seePreamble s = false := by
    have hpre := seePreamble_of_validPacket hvalid
    rwa [seePreamble, pidValid, pidComplete, hpacket, hpid] at hpre
  have herror : s.bitstuffError = false := by
    have herror : (step s i).bitstuffError = false := by
      simp only [validPacket, Bool.and_eq_true, Bool.not_eq_true'] at hvalid
      exact hvalid.1.2
    rw [step_bitstuffError, bitstuffErrorD, hstart, hraw, Bool.and_false] at herror
    simpa using herror
  by_contra hsop
  simp only [seeSop, hhistory, htx, Bool.not_eq_false, Bool.and_eq_true, beq_iff_eq,
    Bool.not_eq_true'] at hsop
  obtain ⟨⟨hedge, hquiet⟩, hin⟩ := hsop
  -- the edge was there a cycle earlier, and has been taken
  have hlow : s.lineHistory.extractLsb' 0 2 = 0b01#2 := by
    have hsub : s.lineHistory.extractLsb' 0 2 = (s.lineHistory.extractLsb' 0 4).extractLsb' 0 2 := by
      rw [BitVec.extractLsb'_extractLsb'_of_le (by decide)]
    rw [hsub, hedge]
    rfl
  have heop : seeEop s i = false := by
    simp [seeEop, hedge, hlow, herror, hpre]
  have hnext : (step s i).inPacket = true := by
    have hstep : (step s i).inPacket = inPacketD s i := by simp [step, hl]
    rw [hstep, inPacketD, heop]
    cases hp : s.inPacket <;> simp [seeSop, hedge, hquiet, hp]
  rw [hnext] at hin
  exact absurd hin (by decide)

end UsbDev.FsRx

namespace UsbDev.NbPe

open Clocked

section
variable {N : ℕ} [NeZero N] {s : State N} {i : Input N}

theorem idle_step (hs : s.out.outXactState = .idle) (hx : (outComb s i).xactStart = false) :
    (step s i).out.outXactState = .idle := by
  by_contra hne
  apply hne
  rw [(outXactState_step hne).2]
  revert hx
  simp only [outComb, OutPe.comb, hs]
  split_ifs <;> simp

/-- The end of a valid packet is no start. -/
theorem pktStart_of_valid_step {j : Input N} (hend : (rxSignals (step s i) j).pktEnd = true)
    (hvalid : (rxSignals (step s i) j).pktValid = true) :
    (rxSignals (step s i) j).pktStart = false := by
  have hend' : FsRx.packetEnd (FsRx.step s.rx (rxInput s i)) (rxInput (step s i) j) = true := hend
  obtain ⟨hl, hphase⟩ := FsRx.bitPhase_of_valid_step (FsRx.valid_of_packetEnd hend')
  have htx : (step s i).tx.oe = s.tx.oe := oe_step hl (by rw [FsRx.bitStrobe, hphase]; rfl)
  exact FsRx.seeSop_of_validPacket hend' hvalid htx

end

variable {N : ℕ} [NeZero N] {inp : ℕ → Input N}

theorem not_pktStart_of_valid {t : ℕ} (hend : (rxSignals (stateAt inp t) (inp t)).pktEnd = true)
    (hvalid : (rxSignals (stateAt inp t) (inp t)).pktValid = true) :
    (rxSignals (stateAt inp t) (inp t)).pktStart = false := by
  cases t with
  | zero =>
      have hsample : FsRx.lineStateValid (State.reset N).rx = true :=
        FsRx.valid_of_packetEnd (i := rxInput (State.reset N) (inp 0)) hend
      exact absurd hsample (by simp [State.reset, FsRx.State.reset, FsRx.lineStateValid])
  | succ t => exact pktStart_of_valid_step hend hvalid

theorem turnaround_before {t : ℕ} (ho : ∀ u < t, (inp u).txOscTestMode = false) :
    Turnaround (stateAt inp t) := by
  induction t with
  | zero => exact turnaround_reset
  | succ t ih => exact (ih fun u hu => ho u (by omega)).step (ho t (by omega))

variable (inp) in
/-- The OUT engine accepts in cycle `t` the packet of the transaction that the token of cycle `k`
opened. -/
structure Accepts (k t : ℕ) : Prop where
  opened : OpenedBy inp k t
  acked : (outComb (stateAt inp t) (inp t)).acked = true

namespace Accepts

variable {k t : ℕ}

theorem dataEnd (h : Accepts inp k t) : (stateAt inp t).out.outXactState = .rcvdDataEnd ∨
    (stateAt inp t).out.outXactState = .rcvdIsoDataEnd :=
  (OutPe.acked_cases h.acked).1

theorem tokenReceived (h : Accepts inp k t) :
    (rxSignals (stateAt inp k) (inp k)).tokenReceived (inp k).devAddr = true :=
  OutPe.tokenReceived_of_xactStart h.opened.token

/-- The engine does not leave the transaction. -/
theorem not_idle (h : Accepts inp k t) {u : ℕ} (hk : k < u) (hu : u ≤ t) :
    (stateAt inp u).out.outXactState ≠ .idle := by
  intro hs
  have hidle : (stateAt inp t).out.outXactState = .idle := by
    refine traj_persists (fun s : State N => s.out.outXactState = .idle) hu hs ?_
    intro v hv hvt hidle
    exact idle_step hidle (h.opened.last v (by omega) hvt)
  obtain hs | hs := h.dataEnd <;> simp [hidle] at hs

/-- Until the acceptance the engine waits for the packet or receives it. -/
theorem receiving (h : Accepts inp k t) {u : ℕ} (hk : k < u) (hu : u < t) :
    (stateAt inp u).out.outXactState = .rcvdOut ∨
      (stateAt inp u).out.outXactState = .rcvdDataStart := by
  have hnext : ∀ x, (stateAt inp u).out.outXactState = x →
      ¬ (x = .rcvdDataEnd ∨ x = .rcvdIsoDataEnd) := by
    rintro x rfl hx
    have hne := h.not_idle (u := u + 1) (by omega) (by omega)
    apply hne
    rw [stateAt_succ] at hne ⊢
    rw [(outXactState_step hne).2]
    exact OutPe.stateNext_dataEnd hx
  cases hs : (stateAt inp u).out.outXactState with
  | idle => exact absurd hs (h.not_idle hk hu.le)
  | rcvdOut => exact .inl rfl
  | rcvdDataStart => exact .inr rfl
  | rcvdDataEnd => exact absurd (.inl rfl) (hnext _ hs)
  | rcvdIsoDataEnd => exact absurd (.inr rfl) (hnext _ hs)

/-- No token ends from the token on. -/
theorem not_token (h : Accepts inp k t) {u : ℕ} (hk : k < u) (hu : u ≤ t) (d : BitVec 7) :
    (rxSignals (stateAt inp u) (inp u)).tokenReceived d = false := by
  have hwaits := outWaits_stateAt inp u
  obtain hlt | rfl := hu.lt_or_eq
  · exact hwaits.not_token (h.opened.last u hk hlt)
      (h.not_idle (u := u + 1) (by omega) (by omega)) d
  · exact RxSignals.tokenReceived_of_not_end _ _ (hwaits.not_packetEnd h.dataEnd)

/-- A handshake that the IN engine awaits has not begun before the DATA packet. -/
theorem not_waitAck (h : Accepts inp k t) {u : ℕ} (hk : k < u) (hu : u ≤ t)
    (hs : (stateAt inp u).inp.inXactState = .waitAck) :
    (stateAt inp u).out.outXactState ≠ .rcvdOut := by
  induction u, (hk : k + 1 ≤ u) using Nat.le_induction with
  | base =>
      exfalso
      have htoken := h.tokenReceived
      have hend := RxSignals.pktEnd_of_tokenReceived htoken
      simp only [RxSignals.tokenReceived, Bool.and_eq_true] at htoken
      rw [stateAt_succ] at hs
      obtain ⟨-, hnext⟩ := inXactState_step (s := stateAt inp k) (i := inp k) (by simp [hs])
      obtain ⟨-, hstart⟩ | ⟨-, hnone⟩ := InPe.waitAck_cases (hnext.symm.trans hs)
      · have hnot := not_pktStart_of_valid hend htoken.1.1.2
        rw [show (rxSignals (stateAt inp k) (inp k)).pktStart = true from hstart] at hnot
        exact absurd hnot (by decide)
      · rw [show (rxSignals (stateAt inp k) (inp k)).pktEnd = false from hnone] at hend
        exact absurd hend (by decide)
  | succ u hku ih =>
      intro hout
      rw [stateAt_succ] at hs hout
      obtain ⟨-, hnext⟩ := inXactState_step (s := stateAt inp u) (i := inp u) (by simp [hs])
      obtain ⟨-, ⟨hidle, -⟩ | ⟨hwait, hsop⟩⟩ := rcvdOut_step hout
      · exact h.not_idle hku (by omega) hidle
      · obtain ⟨-, hstart⟩ | ⟨hack, -⟩ := InPe.waitAck_cases (hnext.symm.trans hs)
        · rw [show (rxSignals (stateAt inp u) (inp u)).pktStart = true from hstart] at hsop
          exact absurd hsop (by decide)
        · exact ih (by omega) hack hwait

/-- The IN engine completes no transaction by a handshake. -/
theorem not_ack (h : Accepts inp k t) {u : ℕ} (hk : k ≤ u) (hu : u ≤ t)
    (hs : (stateAt inp u).inp.inXactState = .waitAck) :
    (inInput (stateAt inp u) (inp u)).ackReceived = false := by
  rw [← Bool.not_eq_true]
  intro hack
  simp only [InPe.Input.ackReceived, Bool.and_eq_true, beq_iff_eq] at hack
  obtain ⟨⟨hend, hvalid⟩, hpid⟩ := hack
  obtain hlt | rfl := hk.lt_or_eq
  · obtain hut | rfl := hu.lt_or_eq
    · obtain hout | hout := h.receiving hlt hut
      · exact h.not_waitAck hlt hu hs hout
      · -- a handshake ends the reception
        have hne := h.not_idle (u := u + 1) (by omega) (by omega)
        rw [stateAt_succ] at hne
        obtain ⟨-, hnext⟩ := outXactState_step hne
        apply hne
        have hdata : (outInput (stateAt inp u) (inp u)).rx.dataPacketReceived = false := by
          have hpid' : (outInput (stateAt inp u) (inp u)).rx.pid = usbPidAck := hpid
          simp [RxSignals.dataPacketReceived, hpid', usbPidAck, usbPidData0, usbPidData1]
        have hother : (outInput (stateAt inp u) (inp u)).nonDataPacketReceived = true := by
          have hend' : (outInput (stateAt inp u) (inp u)).rx.pktEnd = true := hend
          have hvalid' : (outInput (stateAt inp u) (inp u)).rx.pktValid = true := hvalid
          simpa [OutPe.Input.nonDataPacketReceived, RxSignals.dataPacketReceived, hend', hvalid']
            using hdata
        rw [hnext]
        simp [outComb, OutPe.comb, hout, OutPe.badDataToggle, hdata, hother]
    · have hnone := (outWaits_stateAt inp u).not_packetEnd (i := inp u) h.dataEnd
      rw [show (rxSignals (stateAt inp u) (inp u)).pktEnd = true from hend] at hnone
      exact absurd hnone (by decide)
  · have htoken := h.tokenReceived
    simp only [RxSignals.tokenReceived, Bool.and_eq_true, beq_iff_eq] at htoken
    have htype := htoken.1.2
    rw [show (rxSignals (stateAt inp k) (inp k)).pid = usbPidAck from hpid] at htype
    exact absurd htype (by decide)

theorem not_acked (h : Accepts inp k t) {u : ℕ} (hk : k ≤ u) (hu : u < t) :
    (outComb (stateAt inp u) (inp u)).acked = false := by
  apply OutPe.acked_eq_false
  obtain hlt | rfl := hk.lt_or_eq
  · obtain hs | hs := h.receiving hlt hu <;> simp [hs]
  · simp [OutPe.idle_of_xactStart h.opened.token]

/-- The endpoint of the transaction. -/
theorem current (h : Accepts inp k t) {u : ℕ} (hk : k < u) (hu : u ≤ t) :
    (stateAt inp u).out.outEpCurrent = (rxSignals (stateAt inp k) (inp k)).epCurrentD := by
  induction u, (hk : k + 1 ≤ u) using Nat.le_induction with
  | base => exact (OutPe.step_of_xactStart h.opened.token).2.1
  | succ u hku ih =>
      rw [outEpCurrent_next (h.not_idle hku (by omega)), ih (by omega)]

end Accepts

variable (inp) in
/-- The OUT engine accepts in cycle `t` the packet of a SETUP transaction of the endpoint `e`, whose
token ended in cycle `k`. -/
structure AcceptsSetup (e : Fin N) (k t : ℕ) : Prop extends Accepts inp k t where
  pid : (rxSignals (stateAt inp k) (inp k)).pid = usbPidSetup
  endp : (rxSignals (stateAt inp k) (inp k)).endp.toNat = e.val

namespace AcceptsSetup

variable {e f : Fin N} {k t u : ℕ}

theorem current_eq (h : AcceptsSetup inp e k t) (hk : k < u) (hu : u ≤ t) :
    (stateAt inp u).out.outEpCurrent = e := by
  rw [h.current hk hu, RxSignals.epCurrentD_eq h.endp]

/-- The engine remembers that the transaction is a SETUP transaction. -/
theorem outEpSetup (h : AcceptsSetup inp e k t) (hk : k < u) (hu : u ≤ t) :
    (stateAt inp u).out.outEpSetup e = true := by
  induction u, (hk : k + 1 ≤ u) using Nat.le_induction with
  | base =>
      obtain ⟨-, -, hsetup⟩ := OutPe.step_of_xactStart h.opened.token
      have hep : (outInput (stateAt inp k) (inp k)).rx.epCurrentD = e :=
        RxSignals.epCurrentD_eq h.endp
      have hpid : (outInput (stateAt inp k) (inp k)).rx.pid = usbPidSetup := h.pid
      rw [hep, hpid] at hsetup
      exact hsetup
  | succ u hku ih =>
      have hnone : (outInput (stateAt inp u) (inp u)).rx.tokenReceived
          (outInput (stateAt inp u) (inp u)).devAddr = false := h.not_token hku (by omega) _
      have hkeep : (stateAt inp (u + 1)).out.outEpSetup = (stateAt inp u).out.outEpSetup := by
        rw [stateAt_succ]
        simp [step, OutPe.step, OutPe.Input.setupTokenReceived, OutPe.Input.outTokenReceived, hnone]
      rw [hkeep, ih (by omega)]

/-- The one SETUP token. -/
theorem setupTokenFor_eq (h : AcceptsSetup inp e k t) (hk : k ≤ u) (hu : u ≤ t)
    (enabled : Fin N → Bool) (f : Fin N) :
    setupTokenFor (stateAt inp u) (inp u) enabled f = (decide (u = k ∧ f = e) && enabled f) := by
  obtain hlt | rfl := hk.lt_or_eq
  · simp [setupTokenFor, h.not_token hlt hu, show ¬ u = k by omega]
  · rw [setupTokenFor, h.tokenReceived, h.pid, h.endp]
    by_cases hf : f = e
    · subst hf
      simp
    · have hne : ¬ e.val = f.val := fun he => hf (Fin.ext he.symm)
      simp [hf, hne]

/-- The one acceptance. -/
theorem acceptsFor_eq (h : AcceptsSetup inp e k t) (hk : k ≤ u) (hu : u ≤ t) (f : Fin N) :
    acceptsFor (stateAt inp u) (inp u) f = decide (u = t ∧ f = e) := by
  obtain hlt | rfl := hu.lt_or_eq
  · simp [acceptsFor, h.not_acked hk hlt, show ¬ u = t by omega]
  · rw [acceptsFor, h.acked, h.current_eq h.opened.before le_rfl]
    by_cases hf : f = e <;> simp [hf]

theorem ackFor_eq (h : AcceptsSetup inp e k t) (hk : k ≤ u) (hu : u ≤ t) (f : Fin N) :
    ackFor (stateAt inp u) (inp u) f = false := by
  rw [ackFor]
  by_cases hs : (stateAt inp u).inp.inXactState = .waitAck
  · simp [h.not_ack hk hu hs]
  · simp [hs]

theorem not_inToken (h : AcceptsSetup inp e k t) (hk : k ≤ u) (hu : u ≤ t) :
    (inInput (stateAt inp u) (inp u)).inTokenReceived = false := by
  obtain hlt | rfl := hk.lt_or_eq
  · rw [InPe.Input.inTokenReceived, show (inInput (stateAt inp u) (inp u)).rx.tokenReceived _ = false
      from h.not_token hlt hu _]
    rfl
  · rw [InPe.Input.inTokenReceived, show (inInput (stateAt inp k) (inp k)).rx.pid = usbPidSetup
      from h.pid, show (usbPidSetup == usbPidIn) = false from rfl, Bool.and_false]

/-- What happens to the OUT toggles from the token to the acceptance. -/
theorem outEvents_eq (h : AcceptsSetup inp e k t) (hk : k ≤ u) (hu : u ≤ t)
    (hl : (inp u).linkReset = false) (f : Fin N) :
    outEvents (stateAt inp u) (inp u) f =
      (if u = k ∧ f = e then [.setupToken] else []) ++ (if u = t ∧ f = e then [.flip] else []) ++
        writeEvents (inp u).outDatatog f := by
  have hen : (inp k).outEpEnabled e = true := by
    have hactive := (OutPe.step_of_xactStart h.opened.token).1
    simp only [OutPe.Input.epActive, Bool.and_eq_true] at hactive
    have hep : (outInput (stateAt inp k) (inp k)).rx.epCurrentD = e :=
      RxSignals.epCurrentD_eq h.endp
    rw [hep] at hactive
    exact hactive.1
  rw [outEvents, endpointEvents, h.setupTokenFor_eq hk hu, h.acceptsFor_eq hk hu, hl]
  by_cases hke : u = k ∧ f = e
  · obtain ⟨rfl, rfl⟩ := hke
    simp [hen]
  · simp [hke]

/-- What happens to the IN toggles. -/
theorem inEvents_eq (h : AcceptsSetup inp e k t) (hk : k ≤ u) (hu : u ≤ t)
    (hl : (inp u).linkReset = false) (hen : (inp k).inEpEnabled e = true) (f : Fin N) :
    inEvents (stateAt inp u) (inp u) f =
      (if u = k ∧ f = e then [.setupToken] else []) ++ writeEvents (inp u).inDatatog f := by
  rw [inEvents, endpointEvents, h.setupTokenFor_eq hk hu, h.ackFor_eq hk hu, hl]
  by_cases hke : u = k ∧ f = e
  · obtain ⟨rfl, rfl⟩ := hke
    simp [hen]
  · simp [hke]

/-- The OUT toggle after the acceptance. -/
theorem outToggle (h : AcceptsSetup inp e k t)
    (hl : ∀ u, k ≤ u → u ≤ t → (inp u).linkReset = false)
    (hw : ∀ u, k ≤ u → u ≤ t → writeEvents (inp u).outDatatog e = []) :
    (stateAt inp (t + 1)).out.dataToggle e = true := by
  have hkt := h.opened.before
  have hfold : ∀ u, k ≤ u → u ≤ t → (stateAt inp (u + 1)).out.dataToggle e =
      ((if u = k then [ToggleEvent.setupToken] else []) ++
        if u = t then [ToggleEvent.flip] else []).foldl (ToggleEvent.apply false)
          ((stateAt inp u).out.dataToggle e) := by
    intro u hk hu
    have hstep := outToggle_step (dataEnds_stateAt inp u) (inp u) e
    rw [h.outEvents_eq hk hu (hl u hk hu), hw u hk hu, List.append_nil] at hstep
    simp only [and_true] at hstep
    exact hstep
  have hzero : (stateAt inp t).out.dataToggle e = false := by
    refine traj_persists (fun s : State N => s.out.dataToggle e = false) (m := k + 1) hkt ?_ ?_
    · have hstep := hfold k le_rfl hkt.le
      rw [if_pos rfl, if_neg (by omega)] at hstep
      exact hstep
    · intro u hku hut hu
      have hstep := hfold u (by omega) hut.le
      rw [if_neg (by omega), if_neg (by omega)] at hstep
      exact hstep.trans hu
  have hstep := hfold t hkt.le le_rfl
  rw [if_neg (by omega), if_pos rfl] at hstep
  rw [hstep, hzero]
  rfl

/-- The IN toggle from the token on. -/
theorem inToggle (h : AcceptsSetup inp e k t)
    (hl : ∀ u, k ≤ u → u ≤ t → (inp u).linkReset = false)
    (hen : (inp k).inEpEnabled e = true)
    (hw : ∀ u, k ≤ u → u ≤ t → writeEvents (inp u).inDatatog e = []) :
    (stateAt inp (t + 1)).inp.dataToggle e = true := by
  have hkt := h.opened.before
  have hfold : ∀ u, k ≤ u → u ≤ t → (stateAt inp (u + 1)).inp.dataToggle e =
      (if u = k then [ToggleEvent.setupToken] else []).foldl (ToggleEvent.apply true)
        ((stateAt inp u).inp.dataToggle e) := by
    intro u hk hu
    have hstep := inToggle_step (stateAt inp u) (inp u) e
    rw [h.inEvents_eq hk hu (hl u hk hu) hen, hw u hk hu, List.append_nil] at hstep
    simp only [and_true] at hstep
    exact hstep
  refine traj_persists (fun s : State N => s.inp.dataToggle e = true) (m := k + 1) (by omega) ?_ ?_
  · have hstep := hfold k le_rfl hkt.le
    rw [if_pos rfl] at hstep
    exact hstep
  · intro u hku hut hu
    have hstep := hfold u (by omega) (by omega)
    rw [if_neg (by omega)] at hstep
    exact hstep.trans hu

/-- The toggles of another endpoint change only under software. -/
theorem toggles_other (h : AcceptsSetup inp e k t) (hk : k ≤ u) (hu : u ≤ t)
    (hl : (inp u).linkReset = false) (hen : (inp k).inEpEnabled e = true) (hf : f ≠ e) :
    (stateAt inp (u + 1)).out.dataToggle f =
        (writeEvents (inp u).outDatatog f).foldl (ToggleEvent.apply false)
          ((stateAt inp u).out.dataToggle f) ∧
      (stateAt inp (u + 1)).inp.dataToggle f =
        (writeEvents (inp u).inDatatog f).foldl (ToggleEvent.apply true)
          ((stateAt inp u).inp.dataToggle f) := by
  have hout := outToggle_step (dataEnds_stateAt inp u) (inp u) f
  have hin := inToggle_step (stateAt inp u) (inp u) f
  rw [h.outEvents_eq hk hu hl] at hout
  rw [h.inEvents_eq hk hu hl hen] at hin
  simp only [hf, and_false, if_false, List.nil_append] at hout hin
  exact ⟨hout, hin⟩

/-- With the oscillator test off nothing is sent. -/
theorem not_sendData (h : AcceptsSetup inp e k t) (ho : ∀ u < k, (inp u).txOscTestMode = false)
    (hk : k ≤ u) (hu : u ≤ t) : (stateAt inp u).inp.inXactState ≠ .sendData := by
  have hboth : (stateAt inp u).inp.inXactState ≠ .rcvdIn ∧
      (stateAt inp u).inp.inXactState ≠ .sendData := by
    refine traj_persists (fun s : State N =>
      s.inp.inXactState ≠ .rcvdIn ∧ s.inp.inXactState ≠ .sendData) hk ?_ ?_
    · obtain ⟨hs | hs, -⟩ := (turnaround_before ho).of_token h.tokenReceived <;>
        rw [stateAt] at hs <;> simp [hs]
    · rintro v hv hvu ⟨hrcvd, hsend⟩
      constructor
      · intro hs
        have hnone := h.not_inToken hv (by omega)
        rw [show (inInput (stateAt inp v) (inp v)).inTokenReceived = true from (rcvdIn_step hs).1]
          at hnone
        exact absurd hnone (by decide)
      · intro hs
        change (step (stateAt inp v) (inp v)).inp.inXactState = _ at hs
        obtain ⟨-, hnext⟩ := inXactState_step (s := stateAt inp v) (i := inp v) (by simp [hs])
        obtain ⟨hs', -, -⟩ | ⟨hs', -⟩ := InPe.sendData_cases (hnext.symm.trans hs)
        · exact hrcvd hs'
        · exact hsend hs'
  exact hboth.2

end AcceptsSetup

end UsbDev.NbPe

namespace UsbDev.Device

variable {N : ℕ} [NeZero N] {s : State N} {i : Input N} {e f : Fin N}

/-! ### The registers of an endpoint in one cycle -/

/-- A `configin` register after an access by software alone. -/
def ConfigIn.access (q : ConfigIn) : Option ConfigIn → ConfigIn
  | none => q
  | some wd =>
      { buffer := wd.buffer, size := wd.size, sending := q.sending && !wd.sending
        pend := q.pend && !wd.pend, rdy := wd.rdy }

/-- Hardware leaves the `configin` register of `f` to software. -/
theorem configin_step_access (hset : setSending s i f = false) (hsent : setSentbit s i f = false)
    (hpend : updatePend s i f = false) (hclear : clearRdybit s i f = false) :
    (step s i).configin f = (s.configin f).access (configinWd i f) := by
  change configinD s i f = _
  cases hw : configinWd i f <;>
    simp [configinD, ConfigIn.access, subregRW, subregW1C, hw, hset, hsent, hpend, hclear]

/-- Software leaves the registers of `e` alone, and `e` stays a control endpoint. -/
structure LeavesAlone (e : Fin N) (i : Input N) : Prop where
  configin : configinWd i e = none
  inStall : i.sw.inStall = none
  outStall : i.sw.outStall = none
  inDatatog : NbPe.writeEvents i.sw.inDatatog e = []
  outDatatog : NbPe.writeEvents i.sw.outDatatog e = []
  control : i.cfg.rxenableSetup e = true

/-- The endpoint after an accepted SETUP; `q` is its `configin` register before. -/
structure Canonical (e : Fin N) (q : ConfigIn) (s : State N) : Prop where
  inStall : s.inStall e = false
  outStall : s.outStall e = false
  rdy : (s.configin e).rdy = false
  sending : (s.configin e).sending = false
  pend : (s.configin e).pend = (q.rdy || q.pend)
  inToggle : s.inp.pe.dataToggle e = true
  outToggle : s.out.pe.dataToggle e = true

/-- In this cycle the registers of `f` change only by accesses of software, unless a packet of
`f` completes. -/
structure OnlySoftware (f : Fin N) (s : State N) (i : Input N) : Prop where
  inStall : (step s i).inStall f = (i.sw.inStall.getD s.inStall) f
  outStall : (step s i).outStall f = (i.sw.outStall.getD s.outStall) f
  configin : setSentbit s i f = false →
    (step s i).configin f = (s.configin f).access (configinWd i f)
  inToggle : (step s i).inp.pe.dataToggle f =
    (NbPe.writeEvents i.sw.inDatatog f).foldl (NbPe.ToggleEvent.apply true)
      (s.inp.pe.dataToggle f)
  outToggle : (step s i).out.pe.dataToggle f =
    (NbPe.writeEvents i.sw.outDatatog f).foldl (NbPe.ToggleEvent.apply false)
      (s.out.pe.dataToggle f)

theorem stalls_step (h : (setupReceived s i && f == s.out.pe.outEpCurrent) = false) :
    (step s i).inStall f = (i.sw.inStall.getD s.inStall) f ∧
      (step s i).outStall f = (i.sw.outStall.getD s.outStall) f := by
  constructor
  · change subregRW _ _ _ _ _ = _
    rw [h]
    cases i.sw.inStall <;> rfl
  · change subregRW _ _ _ _ _ = _
    rw [h]
    cases i.sw.outStall <;> rfl

/-- What the engines do in a cycle from the token of a SETUP transaction of `e` to its
acceptance. -/
structure InSetup (e : Fin N) (accepts : Prop) (s : State N) (i : Input N) : Prop where
  linkReset : i.linkReset = false
  noStart : inXactStarting s i = false
  accepted : rxWvalid s i = true ↔ accepts
  setup : accepts → s.out.pe.outEpCurrent = e ∧ UsbIf.currentSetup s.out = true
  notAck : s.inp.pe.inXactState = .waitAck → (inInputPe s i).ackReceived = false

variable {accepts : Prop}

/-- No packet of the control endpoint completes. -/
theorem InSetup.setSentbit_eq (h : InSetup e accepts s i) (hc : i.cfg.rxenableSetup e = true) :
    setSentbit s i e = false := by
  rw [← Bool.not_eq_true]
  intro hsent
  simp only [setSentbit, Bool.and_eq_true, beq_iff_eq] at hsent
  obtain ⟨hend, rfl⟩ := hsent
  have hend' : (InPe.comb s.inp.pe (inInputPe s i)).xactEnd = true := hend
  obtain ⟨-, hiso⟩ | ⟨hs, hack⟩ := InPe.xactEnd_cases hend'
  · simp [inInputPe, UsbIf.inPeInput, inInput, hc] at hiso
  · rw [h.notAck hs] at hack
    exact absurd hack (by decide)

theorem InSetup.setupReceived_eq (h : InSetup e accepts s i) (hf : f ≠ e ∨ ¬ accepts) :
    (setupReceived s i && f == s.out.pe.outEpCurrent) = false := by
  rw [← Bool.not_eq_true]
  intro hr
  simp only [setupReceived, UsbIf.setupReceived, Bool.and_eq_true, beq_iff_eq] at hr
  have hacc := h.accepted.1 hr.1.2
  obtain hf | hf := hf
  · exact hf (hr.2.trans (h.setup hacc).1)
  · exact hf hacc

/-- Hardware leaves the other endpoints alone, and `e` itself before the acceptance. -/
theorem InSetup.configin_step (h : InSetup e accepts s i) (hf : f ≠ e ∨ ¬ accepts)
    (hsent : setSentbit s i f = false) :
    (step s i).configin f = (s.configin f).access (configinWd i f) := by
  have hreceived := h.setupReceived_eq hf
  refine configin_step_access ?_ hsent ?_ ?_
  · rw [setSending, h.noStart, Bool.false_and]
  · rw [updatePend, eventLinkReset, h.linkReset, hreceived]
    rfl
  · rw [clearRdybit, eventLinkReset, h.linkReset]
    rw [setSentbit] at hsent
    cases hr : setupReceived s i with
    | false => simpa using hsent
    | true =>
        rw [hr, Bool.true_and] at hreceived
        simpa using hreceived

/-- The accepting cycle itself. -/
theorem registers_of_setupReceived (hr : setupReceived s i = true)
    (hcur : s.out.pe.outEpCurrent = e) (hl : i.linkReset = false) (hw : LeavesAlone e i) :
    (step s i).inStall e = false ∧ (step s i).outStall e = false ∧
      ((step s i).configin e).rdy = false ∧ ((step s i).configin e).sending = false ∧
      ((step s i).configin e).pend = ((s.configin e).rdy || (s.configin e).pend) := by
  have hpend : updatePend s i e = true := by simp [updatePend, hr, hcur]
  have hclear : clearRdybit s i e = true := by simp [clearRdybit, eventLinkReset, hl, hr, hcur]
  have hq : (step s i).configin e = configinD s i e := rfl
  refine ⟨?_, ?_, ?_, ?_, ?_⟩
  · change subregRW _ _ _ _ _ = _
    simp [subregRW, hw.inStall, hr, hcur]
  · change subregRW _ _ _ _ _ = _
    simp [subregRW, hw.outStall, hr, hcur]
  all_goals
    rw [hq]
    simp [configinD, subregRW, subregW1C, hw.configin, hpend, hclear]

end UsbDev.Device

namespace UsbDev.Usbdev

open Clocked Device

section
variable {N R : ℕ} [NeZero N]

/-- The inputs that `usb_fs_nb_pe` has in a run. -/
def nbInputs (s : State N R) (inp : ℕ → Input N) (t : ℕ) : NbPe.Input N :=
  nbInput (traj step s inp t) (inp t)

variable {dev : Device.State N} {inp : ℕ → Input N} {e f : Fin N} {k t u : ℕ}

theorem nb_at (hdev : Fresh dev) (inp : ℕ → Input N) (u : ℕ) : nb (traj step (State.reset R dev) inp u) =
    NbPe.stateAt (nbInputs (State.reset R dev) inp) u :=
  nb_traj hdev inp u

theorem inSetup_traj (hdev : Fresh dev)
    (h : NbPe.AcceptsSetup (nbInputs (State.reset R dev) inp) e k t) (hk : k ≤ u) (hu : u ≤ t)
    (hl : LinkState.linkReset (traj step (State.reset R dev) inp u).link = false) :
    InSetup e (u = t) (traj step (State.reset R dev) inp u).dev
      (devInputs (State.reset R dev) inp u) := by
  have hnb := nb_at (R := R) hdev inp u
  constructor
  case linkReset => exact hl
  case noStart =>
    have hnone := h.not_inToken hk hu
    rw [← hnb] at hnone
    have hnone' : (inInputPe (traj step (State.reset R dev) inp u).dev
        (devInputs (State.reset R dev) inp u)).inTokenReceived = false := hnone
    rw [Device.inXactStarting, InPe.inXactStarting, InPe.inStarting]
    change (_ && (inInputPe _ _).inTokenReceived && _) = false
    rw [hnone', Bool.and_false, Bool.false_and]
  case accepted =>
    constructor
    · intro hacc
      by_contra hne
      have hnot := h.not_acked hk (by omega)
      rw [← hnb] at hnot
      exact absurd (hacc.symm.trans hnot) (by decide)
    · rintro rfl
      have hacc := h.acked
      rw [← hnb] at hacc
      exact hacc
  case setup =>
    rintro rfl
    have hcur := h.current_eq h.opened.before le_rfl
    have hsetup := h.outEpSetup h.opened.before le_rfl
    rw [← hnb] at hcur hsetup
    have hcur' : (traj step (State.reset R dev) inp u).dev.out.pe.outEpCurrent = e := hcur
    exact ⟨hcur', by rw [UsbIf.currentSetup, hcur']; exact hsetup⟩
  case notAck =>
    intro hs
    have hnot := h.not_ack hk hu
    rw [← hnb] at hnot
    exact hnot hs

variable (R dev inp e k t) in
/-- In a run from reset the device accepts a SETUP transaction of `e` in cycle `t`, whose token
ended in cycle `k`. Meanwhile software leaves `e` alone and the link is not reset. -/
structure SetupRun : Prop where
  accepts : NbPe.AcceptsSetup (nbInputs (State.reset R dev) inp) e k t
  inEnabled : (inp k).cfg.epInEnable e = true
  linkReset : ∀ u, k ≤ u → u ≤ t →
    LinkState.linkReset (traj step (State.reset R dev) inp u).link = false
  software : ∀ u, k ≤ u → u ≤ t → LeavesAlone e (devInputs (State.reset R dev) inp u)

variable (R dev inp) in
/-- The registers below the line in a run from reset. -/
def devAt (u : ℕ) : Device.State N := (traj step (State.reset R dev) inp u).dev

namespace SetupRun

variable (hdev : Fresh dev) (h : SetupRun R dev inp e k t)
include hdev h

theorem inSetup (hk : k ≤ u) (hu : u ≤ t) :
    InSetup e (u = t) (devAt R dev inp u) (devInputs (State.reset R dev) inp u) :=
  inSetup_traj hdev h.accepts hk hu (h.linkReset u hk hu)

/-- Up to the acceptance the `configin` register stays. -/
theorem configin_eq : (devAt R dev inp t).configin e = (devAt R dev inp k).configin e := by
  refine traj_persists (fun s : State N R => s.dev.configin e = (devAt R dev inp k).configin e)
    h.accepts.opened.before.le rfl ?_
  intro u hk hu hsame
  have hcycle := h.inSetup hdev hk hu.le
  have hw := h.software u hk hu.le
  have hstep := hcycle.configin_step (f := e) (.inr (by omega)) (hcycle.setSentbit_eq hw.control)
  rw [hw.configin] at hstep
  exact hstep.trans hsame

theorem canonical :
    Canonical e ((devAt R dev inp k).configin e) (devAt R dev inp (t + 1)) := by
  have hkt := h.accepts.opened.before.le
  have hcycle := h.inSetup hdev hkt le_rfl
  obtain ⟨hcur, hsetup⟩ := hcycle.setup rfl
  have hreceived : setupReceived (devAt R dev inp t) (devInputs (State.reset R dev) inp t) = true := by
    rw [setupReceived, UsbIf.setupReceived, hsetup]
    exact hcycle.accepted.2 rfl
  have hregs := registers_of_setupReceived hreceived hcur hcycle.linkReset (h.software t hkt le_rfl)
  obtain ⟨hin, hout, hrdy, hsending, hpend⟩ := hregs
  rw [h.configin_eq hdev] at hpend
  have hnb := nb_at (R := R) hdev inp (t + 1)
  refine ⟨hin, hout, hrdy, hsending, hpend, ?_, ?_⟩
  · have htoggle := h.accepts.inToggle h.linkReset h.inEnabled fun u hk hu =>
      (h.software u hk hu).inDatatog
    exact (congrArg (fun s : NbPe.State N => s.inp.dataToggle e) hnb).trans htoggle
  · have htoggle := h.accepts.outToggle h.linkReset fun u hk hu => (h.software u hk hu).outDatatog
    exact (congrArg (fun s : NbPe.State N => s.out.dataToggle e) hnb).trans htoggle

/-- A packet of `e` that starts later was armed by software after the acceptance. -/
theorem rearmed {y : ℕ} (hy : t < y)
    (hdata : DataStart e (devAt R dev inp y) (devInputs (State.reset R dev) inp y)) :
    ∃ u, t < u ∧ u < y ∧ Arms e (devInputs (State.reset R dev) inp u) := by
  obtain ⟨v, rfl⟩ : ∃ v, y = v + 1 := ⟨y - 1, by omega⟩
  have htraj := dev_traj (State.reset R dev) inp
  rw [devAt, htraj] at hdata
  obtain ⟨hstart, -, hrdy⟩ := capture_of_dataStart hdata
  rw [← htraj] at hstart hrdy
  have htv : t < v := by
    obtain hlt | rfl : t < v ∨ t = v := by omega
    · exact hlt
    · have hnone := (h.inSetup hdev h.accepts.opened.before.le le_rfl).noStart
      exact absurd (hstart.symm.trans hnone) (by decide)
  by_contra hno
  have hrdy' : ((devAt R dev inp v).configin e).rdy = false := by
    refine traj_persists (fun s : State N R => (s.dev.configin e).rdy = false) (m := t + 1) htv
      (h.canonical hdev).rdy ?_
    intro u htu huv hrdy
    exact rdy_step hrdy fun harms => hno ⟨u, htu, by omega, harms⟩
  exact absurd (hrdy.symm.trans hrdy') (by decide)

theorem onlySoftware (hf : f ≠ e) (hk : k ≤ u) (hu : u ≤ t) :
    OnlySoftware f (devAt R dev inp u) (devInputs (State.reset R dev) inp u) := by
  have hcycle := h.inSetup hdev hk hu
  obtain ⟨hin, hout⟩ := stalls_step (hcycle.setupReceived_eq (.inl hf))
  obtain ⟨htout, htin⟩ := h.accepts.toggles_other hk hu hcycle.linkReset h.inEnabled hf
  rw [← nb_at hdev, ← nb_at hdev] at htout htin
  exact ⟨hin, hout, hcycle.configin_step (.inl hf), htin, htout⟩

/-- With the oscillator test off no packet completes meanwhile. -/
theorem setSentbit_eq (ho : ∀ u < k, (inp u).txOscTestMode = false) (hk : k ≤ u) (hu : u ≤ t)
    (f : Fin N) :
    setSentbit (devAt R dev inp u) (devInputs (State.reset R dev) inp u) f = false := by
  rw [← Bool.not_eq_true]
  intro hsent
  simp only [setSentbit, Bool.and_eq_true] at hsent
  have hend : (InPe.comb (devAt R dev inp u).inp.pe (inInputPe (devAt R dev inp u)
      (devInputs (State.reset R dev) inp u))).xactEnd = true := hsent.1
  obtain ⟨hs, -⟩ | ⟨hs, hack⟩ := InPe.xactEnd_cases hend
  · have hnot := h.accepts.not_sendData ho hk hu
    rw [← nb_at hdev] at hnot
    exact hnot hs
  · rw [(h.inSetup hdev hk hu).notAck hs] at hack
    exact absurd hack (by decide)

end SetupRun

/-- The signals that make a SETUP transaction, read off the run of the device. -/
theorem acceptsSetup_of_signals (hdev : Fresh dev) (hkt : k < t)
    (hstart : (OutPe.comb (devAt R dev inp k).out.pe
      (peInput (devAt R dev inp k) (devInputs (State.reset R dev) inp k))).xactStart = true)
    (hlast : ∀ u, k < u → u < t → (OutPe.comb (devAt R dev inp u).out.pe
      (peInput (devAt R dev inp u) (devInputs (State.reset R dev) inp u))).xactStart = false)
    (hacc : rxWvalid (devAt R dev inp t) (devInputs (State.reset R dev) inp t) = true)
    (hpid : (rxSignals (traj step (State.reset R dev) inp k) (inp k)).pid = usbPidSetup)
    (hendp : (rxSignals (traj step (State.reset R dev) inp k) (inp k)).endp.toNat = e.val) :
    NbPe.AcceptsSetup (nbInputs (State.reset R dev) inp) e k t := by
  have hnb := nb_at (R := R) hdev inp
  refine { opened := ⟨hkt, ?_, fun u hu hu' => ?_⟩, acked := ?_, pid := ?_, endp := ?_ }
  all_goals rw [← hnb]
  · exact hstart
  · exact hlast u hu hu'
  · exact hacc
  · exact hpid
  · exact hendp

/-- An accepted SETUP transaction leaves its endpoint in the canonical state, and no packet armed
before starts later; the other endpoints are left to software. -/
theorem setup_canonical (hdev : Fresh dev) (h : SetupRun R dev inp e k t) :
    Canonical e ((devAt R dev inp k).configin e) (devAt R dev inp (t + 1)) ∧
      (∀ y, t < y → DataStart e (devAt R dev inp y) (devInputs (State.reset R dev) inp y) →
        ∃ u, t < u ∧ u < y ∧ Arms e (devInputs (State.reset R dev) inp u)) ∧
      (∀ f, f ≠ e → ∀ u, k ≤ u → u ≤ t →
        OnlySoftware f (devAt R dev inp u) (devInputs (State.reset R dev) inp u)) ∧
      ((∀ u < k, (inp u).txOscTestMode = false) → ∀ f u, k ≤ u → u ≤ t →
        setSentbit (devAt R dev inp u) (devInputs (State.reset R dev) inp u) f = false) :=
  ⟨h.canonical hdev, fun _ hy hdata => h.rearmed hdev hy hdata,
    fun _ hf _ hk hu => h.onlySoftware hdev hf hk hu,
    fun ho f _ hk hu => h.setSentbit_eq hdev ho hk hu f⟩

end

/-! ### A SETUP transaction on the line -/

open LineCode

/-- Software supplies a buffer, stalls endpoint 0 in both directions and arms a packet. Then the
host sends a SETUP token. -/
def tokenInputs : List (Input 1) :=
  lineInput 1 .j ::
    { lineInput 1 .j with
      sw := { avsetupbuffer := some 3, inStall := some fun _ => true
              outStall := some fun _ => true
              configin := some (0, ⟨5, 0, false, false, true⟩) } } ::
    lineCycles 1 (tokenLines usbPidSetup 0)

/-- An empty DATA0 packet follows. -/
def dataInputs : List (Input 1) := lineCycles 1 (.j :: emptyDataLines usbPidData0 ++ [.j, .j])

def setupRun (u : ℕ) : Input 1 := (tokenInputs ++ dataInputs).getD u (lineInput 1 .j)

/-- The token, also as a SETUP token of endpoint 0, the acceptance and the link reset. -/
def setupEvents (s : State 1 1) (i : Input 1) : Bool × Bool × Bool × Bool :=
  let token := (OutPe.comb s.dev.out.pe (peInput s.dev (devInput s i))).xactStart
  (token, token && (rxSignals s i).pid == usbPidSetup && (rxSignals s i).endp == 0,
    rxWvalid s.dev (devInput s i), LinkState.linkReset s.link)

/-- The state with the two registers that the token has set written out. -/
def afterToken (s : State 1 1) : State 1 1 :=
  { s with dev := { s.dev with out := { s.dev.out with pe := { s.dev.out.pe with
      dataToggle := fun _ => false, outEpSetup := fun _ => true } } } }

theorem afterToken_eq {s : State 1 1} (htoggle : s.dev.out.pe.dataToggle 0 = false)
    (hsetup : s.dev.out.pe.outEpSetup 0 = true) : afterToken s = s := by
  have h1 : (fun _ => false) = s.dev.out.pe.dataToggle := by
    funext e
    rw [Subsingleton.elim e 0, htoggle]
  have h2 : (fun _ => true) = s.dev.out.pe.outEpSetup := by
    funext e
    rw [Subsingleton.elim e 0, hsetup]
  rw [afterToken, h1, h2]

theorem afterToken_tokenInputs :
    afterToken (run Usbdev.step (State.reset 1 (freshDevice 1)) tokenInputs) =
      run Usbdev.step (State.reset 1 (freshDevice 1)) tokenInputs := by
  have hregs : (run Usbdev.step (State.reset 1 (freshDevice 1)) tokenInputs).dev.out.pe.dataToggle
        0 = false ∧
      (run Usbdev.step (State.reset 1 (freshDevice 1)) tokenInputs).dev.out.pe.outEpSetup 0 =
        true := by
    decide +kernel
  exact afterToken_eq hregs.1 hregs.2

theorem outs_tokenInputs :
    outs Usbdev.step setupEvents (State.reset 1 (freshDevice 1)) tokenInputs =
      (List.range 142).map fun t => (t == 141, t == 141, t == 286, false) := by
  decide +kernel

theorem outs_dataInputs :
    outs Usbdev.step setupEvents
        (afterToken (run Usbdev.step (State.reset 1 (freshDevice 1)) tokenInputs)) dataInputs =
      ((List.range 152).map (142 + ·)).map fun t => (t == 141, t == 141, t == 286, false) := by
  decide +kernel

theorem setupRun_events {t : ℕ} (ht : t < 294) :
    setupEvents (traj Usbdev.step (State.reset 1 (freshDevice 1)) setupRun t) (setupRun t) =
      (t == 141, t == 141, t == 286, false) := by
  have houts : outs Usbdev.step setupEvents (State.reset 1 (freshDevice 1))
      (tokenInputs ++ dataInputs) =
        (List.range 294).map fun t => (t == 141, t == 141, t == 286, false) := by
    rw [outs_append, outs_tokenInputs, ← afterToken_tokenInputs, outs_dataInputs, ← List.map_append,
      ← List.range_add]
  exact out_traj_of_outs houts (lineInput 1 .j) ht

theorem leavesAlone_setupRun {u : ℕ} (hu : 2 ≤ u) :
    LeavesAlone 0 (devInputs (State.reset 1 (freshDevice 1)) setupRun u) := by
  obtain ⟨v, rfl⟩ : ∃ v, u = v + 2 := ⟨u - 2, by omega⟩
  have hline : ∃ l, setupRun (v + 2) = lineInput 1 l := by
    refine getD_of_forall (fun i : Input 1 => ∃ l, i = lineInput 1 l) ?_ ⟨.j, rfl⟩ v
    intro i hi
    obtain hi | hi := List.mem_append.1 hi <;>
    · obtain ⟨l, -, hl⟩ := List.mem_flatMap.1 hi
      exact ⟨l, List.eq_of_mem_replicate hl⟩
  obtain ⟨l, hl⟩ := hline
  have hsw : (devInputs (State.reset 1 (freshDevice 1)) setupRun (v + 2)).sw = {} :=
    (congrArg Input.sw hl).trans rfl
  have hcfg : (devInputs (State.reset 1 (freshDevice 1)) setupRun (v + 2)).cfg =
      (lineInput 1 .j).cfg := (congrArg Input.cfg hl).trans rfl
  constructor
  case control => rw [hcfg]; rfl
  case configin => rw [configinWd, hsw]
  all_goals rw [hsw]
  all_goals rfl

theorem setupRun_setupRun : SetupRun 1 (freshDevice 1) setupRun 0 141 286 := by
  have hevents : ∀ t, t < 294 → _ := fun t ht => setupRun_events (t := t) ht
  simp only [setupEvents, Prod.mk.injEq] at hevents
  have htoken := (hevents 141 (by omega)).2.1
  simp only [beq_self_eq_true, Bool.and_eq_true, beq_iff_eq] at htoken
  obtain ⟨⟨hstart, hpid⟩, hendp⟩ := htoken
  constructor
  case inEnabled => decide +kernel
  case linkReset => exact fun u _ hu => (hevents u (by omega)).2.2.2
  case software => exact fun u hu _ => leavesAlone_setupRun (by omega)
  case accepts =>
    refine acceptsSetup_of_signals (fresh_freshDevice 1) (by omega) hstart ?_ ?_ hpid ?_
    · intro u hu hu'
      have hnone := (hevents u (by omega)).1
      rwa [beq_eq_false_iff_ne.2 (by omega)] at hnone
    · exact (hevents 286 (by omega)).2.2.1
    · rw [hendp]
      rfl

theorem setup_canonical_setupRun :
    Canonical 0 ((devAt 1 (freshDevice 1) setupRun 141).configin 0)
      (devAt 1 (freshDevice 1) setupRun 287) :=
  (setup_canonical (fresh_freshDevice 1) setupRun_setupRun).1

end UsbDev.Usbdev
