import UsbDev.InRetry
import UsbDev.SoftwareRaces
import UsbDev.Usbdev

/-!
# Completion of an IN packet

The IN engine completes a packet with the ACK for it. Its state tells the whole
transaction so far: the DATA packet that was sent, its end, and the start of the
handshake within the timeout. The completion flips the toggle, sets `in_sent` and
clears `rdy` and `sending` in one cycle, from indices in three modules.
-/
namespace UsbDev.Device

open Clocked UsbIf

variable {N : ℕ} [NeZero N] {s : State N} {i : Input N} {e : Fin N}

/-- When the receiver and the transmitter report the end of a packet: a token only to engines
that do not wait for the host, the end of the own packet only after its payload, and no end in
the cycle after a DATA packet. -/
structure Paced (s : State N) (i : Input N) : Prop where
  token : i.rx.tokenReceived i.cfg.devAddr = true →
    (inPhase s = .idle ∨ inPhase s = .waitAck) ∧ (phase s = .idle ∨ phase s = .rcvdDataStart)
  sending : inPhase s = .sendData → i.txPktEnd = false
  dataEnd : phase s = .rcvdDataEnd ∨ phase s = .rcvdIsoDataEnd → i.rx.pktEnd = false

/-- The link is active and not reset. -/
def LinkUp (i : Input N) : Prop := i.linkReset = false ∧ i.linkActive = true

/-- The DATA packet of `e` is being sent. -/
def Transmits (e : Fin N) (s : State N) : Prop :=
  (inPhase s = .sendData ∨ inPhase s = .waitTxEnd) ∧ s.inp.pe.inEpCurrent = e

/-- The packet of `e` is sent, and its handshake has not begun. -/
def AwaitsStart (e : Fin N) (s : State N) : Prop :=
  inPhase s = .waitAckStart ∧ s.inp.pe.inEpCurrent = e

/-- The handshake for the packet of `e` has begun. -/
def AwaitsAck (e : Fin N) (s : State N) : Prop :=
  inPhase s = .waitAck ∧ s.inp.pe.inEpCurrent = e

/-- The DATA packet of an endpoint that is not isochronous carries a captured packet. -/
theorem hasData_of_sendData (hs : inPhase s = .rcvdIn)
    (hiso : i.cfg.inIso s.inp.pe.inEpCurrent = false)
    (h : (InPe.comb s.inp.pe (inInputPe s i)).stateNext = .sendData) :
    s.inp.pe.hasData = true := by
  have hs' : s.inp.pe.inXactState = .rcvdIn := hs
  have hiso' : (inInputPe s i).iso s.inp.pe.inEpCurrent = false := by
    simp [inInputPe, inPeInput, inInput, hiso]
  simp only [InPe.comb, hs', hiso'] at h
  split_ifs at h <;> simp_all

/-- Without link reset and with an active link the engine follows its state machine. -/
theorem inPhase_step_of_ne_idle (h : inPhase (step s i) ≠ .idle) :
    LinkUp i ∧ inPhase (step s i) = (InPe.comb s.inp.pe (inInputPe s i)).stateNext := by
  rw [inPhase_step] at h ⊢
  unfold LinkUp
  cases hl : i.linkReset <;> cases ha : i.linkActive <;> simp_all

theorem inPhase_step_of_linkUp (h : LinkUp i) :
    inPhase (step s i) = (InPe.comb s.inp.pe (inInputPe s i)).stateNext := by
  rw [inPhase_step, h.1, h.2]
  rfl

omit [NeZero N] in
theorem not_inToken_of_phase (hp : Paced s i) (hi : inPhase s ≠ .idle) (hw : inPhase s ≠ .waitAck) :
    ¬ InToken i := by
  rintro ⟨htok, -⟩
  obtain h | h := (hp.token htok).1
  · exact hi h
  · exact hw h

theorem current_step_of_phase (hp : Paced s i) (hi : inPhase s ≠ .idle)
    (hw : inPhase s ≠ .waitAck) : (step s i).inp.pe.inEpCurrent = s.inp.pe.inEpCurrent :=
  (step_of_not_inToken (not_inToken_of_phase hp hi hw)).2.1

/-! ### What leads to a state of the transaction -/

/-- A packet being sent was started, or was being sent before. -/
theorem transmits_previous (hp : Paced s i) (hiso : i.cfg.inIso e = false)
    (h : Transmits e (step s i)) :
    LinkUp i ∧ (DataStart e s i ∨ Transmits e s ∧ i.txPktEnd = false) := by
  obtain ⟨hphase, hcur⟩ := h
  obtain ⟨hup, hnext⟩ := inPhase_step_of_ne_idle (s := s) (i := i)
    (by obtain h | h := hphase <;> simp [h])
  refine ⟨hup, ?_⟩
  rw [hnext] at hphase
  obtain hphase | hphase := hphase
  · obtain ⟨hs, hstart, hpid⟩ | ⟨hs, -⟩ := InPe.sendData_cases hphase
    · have hs' : inPhase s = .rcvdIn := hs
      rw [current_step_of_phase hp (by simp [hs']) (by simp [hs'])] at hcur
      have htx : inTx s i = some (InPe.comb s.inp.pe (inInputPe s i)).txPid := if_pos hstart
      have hdata : s.inp.pe.hasData = true := hasData_of_sendData hs' (by rwa [hcur]) hphase
      refine .inl ⟨hs, hcur, hdata, ?_⟩
      rw [htx]
      exact hpid.imp (congrArg some) (congrArg some)
    · have hs' : inPhase s = .sendData := hs
      rw [current_step_of_phase hp (by simp [hs']) (by simp [hs'])] at hcur
      exact .inr ⟨⟨.inl hs', hcur⟩, hp.sending hs'⟩
  · obtain ⟨hs, hend⟩ := InPe.waitTxEnd_cases hphase
    have hs' : inPhase s = .sendData ∨ inPhase s = .waitTxEnd := hs
    rw [current_step_of_phase hp (by obtain h | h := hs' <;> simp [h])
      (by obtain h | h := hs' <;> simp [h])] at hcur
    exact .inr ⟨⟨hs', hcur⟩, hend⟩

/-- The wait for the handshake begins with the end of the packet. -/
theorem awaitsStart_previous (hp : Paced s i) (h : AwaitsStart e (step s i)) :
    LinkUp i ∧ (Transmits e s ∧ i.txPktEnd = true ∨ AwaitsStart e s ∧ i.rx.pktStart = false) := by
  obtain ⟨hphase, hcur⟩ := h
  obtain ⟨hup, hnext⟩ := inPhase_step_of_ne_idle (s := s) (i := i) (by simp [hphase])
  refine ⟨hup, ?_⟩
  rw [hnext] at hphase
  obtain ⟨hs, hend, -⟩ | ⟨hs, hstart, -⟩ := InPe.waitAckStart_cases hphase
  · have hs' : inPhase s = .sendData ∨ inPhase s = .waitTxEnd := hs
    rw [current_step_of_phase hp (by obtain h | h := hs' <;> simp [h])
      (by obtain h | h := hs' <;> simp [h])] at hcur
    exact .inl ⟨⟨hs', hcur⟩, hend⟩
  · have hs' : inPhase s = .waitAckStart := hs
    rw [current_step_of_phase hp (by simp [hs']) (by simp [hs'])] at hcur
    exact .inr ⟨⟨hs', hcur⟩, hstart⟩

/-- The handshake begins with a start of packet. -/
theorem awaitsAck_previous (hp : Paced s i) (h : AwaitsAck e (step s i)) :
    LinkUp i ∧ (AwaitsStart e s ∧ i.rx.pktStart = true ∨ AwaitsAck e s ∧ i.rx.pktEnd = false) := by
  obtain ⟨hphase, hcur⟩ := h
  obtain ⟨hup, hnext⟩ := inPhase_step_of_ne_idle (s := s) (i := i) (by simp [hphase])
  refine ⟨hup, ?_⟩
  rw [hnext] at hphase
  obtain ⟨hs, hstart⟩ | ⟨hs, hend⟩ := InPe.waitAck_cases hphase
  · have hs' : inPhase s = .waitAckStart := hs
    rw [current_step_of_phase hp (by simp [hs']) (by simp [hs'])] at hcur
    exact .inl ⟨⟨hs', hcur⟩, hstart⟩
  · have hs' : inPhase s = .waitAck := hs
    have htok : ¬ InToken i := by
      rintro ⟨htok, -⟩
      exact absurd ((RxSignals.pktEnd_of_tokenReceived htok).symm.trans hend) (by decide)
    rw [(step_of_not_inToken htok).2.1] at hcur
    exact .inr ⟨⟨hs', hcur⟩, hend⟩

/-- The timeout runs while the handshake does not begin. -/
theorem AwaitsStart.timeout_step (h : AwaitsStart e s) (hup : LinkUp i)
    (hn : AwaitsStart e (step s i)) :
    (step s i).inp.pe.timeoutCntdown.toNat + 1 = s.inp.pe.timeoutCntdown.toNat := by
  have hstep : (step s i).inp.pe.timeoutCntdown =
      (InPe.comb s.inp.pe (inInputPe s i)).timeoutD := rfl
  have hphase := hn.1
  rw [inPhase_step_of_linkUp hup] at hphase
  obtain ⟨hs, -⟩ | ⟨-, -, hne, htime⟩ := InPe.waitAckStart_cases hphase
  · have hs' : s.inp.pe.inXactState = .waitAckStart := h.1
    rw [hs'] at hs
    simp at hs
  · rw [hstep, htime]
    exact Clocked.toNat_pred hne

/-! ### The course of the transaction -/

theorem transmits_of_dataStart (hp : Paced s i) (hup : LinkUp i) (hiso : i.cfg.inIso e = false)
    (h : DataStart e s i) : Transmits e (step s i) := by
  have hphase : inPhase s = .rcvdIn := h.rcvdIn
  constructor
  · have hs' := h.rcvdIn
    have hiso' : (inInputPe s i).iso s.inp.pe.inEpCurrent = false := by
      simp [inInputPe, inPeInput, inInput, h.current, hiso]
    have hdata := h.data
    have htx : inTx s i = if (InPe.comb s.inp.pe (inInputPe s i)).txPktStart then
        some (InPe.comb s.inp.pe (inInputPe s i)).txPid else none := rfl
    rw [htx] at hdata
    rw [inPhase_step_of_linkUp hup]
    simp only [InPe.comb, hs', hiso', h.hasData] at hdata ⊢
    split_ifs at hdata ⊢ <;> simp_all [usbPidStall, usbPidData0, usbPidData1]
  · rw [current_step_of_phase hp (by simp [hphase]) (by simp [hphase]), h.current]

theorem Transmits.current_step (h : Transmits e s) (hp : Paced s i) :
    (step s i).inp.pe.inEpCurrent = e := by
  obtain ⟨hphase, hcur⟩ := h
  rw [current_step_of_phase hp (by obtain h | h := hphase <;> simp [h])
    (by obtain h | h := hphase <;> simp [h]), hcur]

theorem Transmits.next (h : Transmits e s) (hp : Paced s i) (hup : LinkUp i)
    (hiso : i.cfg.inIso e = false) (hend : i.txPktEnd = false) : Transmits e (step s i) := by
  refine ⟨?_, h.current_step hp⟩
  have hiso' : (inInputPe s i).iso s.inp.pe.inEpCurrent = false := by
    simp [inInputPe, inPeInput, inInput, h.2, hiso]
  have hend' : (inInputPe s i).txPktEnd = false := hend
  rw [inPhase_step_of_linkUp hup, InPe.comb]
  obtain hs | hs := h.1
  · have hs' : s.inp.pe.inXactState = .sendData := hs
    simp only [hs', hiso', hend', Bool.false_eq_true, if_false]
    split_ifs <;> simp
  · have hs' : s.inp.pe.inXactState = .waitTxEnd := hs
    simp [hs', hend']

/-- The end of the packet starts the timeout. -/
theorem Transmits.ends (h : Transmits e s) (hp : Paced s i) (hup : LinkUp i)
    (hend : i.txPktEnd = true) : AwaitsStart e (step s i) ∧
      (step s i).inp.pe.timeoutCntdown = InPe.ackTimeoutCnt := by
  have hs : inPhase s = .waitTxEnd := by
    refine h.1.resolve_left fun hs => ?_
    rw [hp.sending hs] at hend
    exact absurd hend (by decide)
  have hnext : inPhase (step s i) = .waitAckStart := by
    have hs' : s.inp.pe.inXactState = .waitTxEnd := hs
    have hend' : (inInputPe s i).txPktEnd = true := hend
    simp [inPhase_step_of_linkUp hup, InPe.comb, hs', hend']
  refine ⟨⟨hnext, h.current_step hp⟩, ?_⟩
  rw [inPhase_step_of_linkUp hup] at hnext
  obtain ⟨-, -, htime⟩ | ⟨hs', -⟩ := InPe.waitAckStart_cases hnext
  · exact htime
  · have hs'' : inPhase s = .waitAckStart := hs'
    rw [hs] at hs''
    cases hs''

theorem AwaitsStart.next (h : AwaitsStart e s) (hp : Paced s i) (hup : LinkUp i)
    (hstart : i.rx.pktStart = false) (htime : s.inp.pe.timeoutCntdown ≠ 0) :
    AwaitsStart e (step s i) := by
  obtain ⟨hs, hcur⟩ := h
  have hs' : s.inp.pe.inXactState = .waitAckStart := hs
  have hstart' : (inInputPe s i).rx.pktStart = false := hstart
  refine ⟨?_, ?_⟩
  · have htime' : ¬ (s.inp.pe.timeoutCntdown == 0) = true := by simpa using htime
    rw [inPhase_step_of_linkUp hup]
    simp only [InPe.comb, hs', hstart', Bool.false_eq_true, if_false, if_neg htime']
  · rw [current_step_of_phase hp (by simp [hs]) (by simp [hs]), hcur]

theorem AwaitsStart.starts (h : AwaitsStart e s) (hp : Paced s i) (hup : LinkUp i)
    (hstart : i.rx.pktStart = true) : AwaitsAck e (step s i) := by
  obtain ⟨hs, hcur⟩ := h
  have hs' : s.inp.pe.inXactState = .waitAckStart := hs
  have hstart' : (inInputPe s i).rx.pktStart = true := hstart
  refine ⟨?_, ?_⟩
  · simp [inPhase_step_of_linkUp hup, InPe.comb, hs', hstart']
  · rw [current_step_of_phase hp (by simp [hs]) (by simp [hs]), hcur]

theorem AwaitsAck.next (h : AwaitsAck e s) (hup : LinkUp i) (hend : i.rx.pktEnd = false) :
    AwaitsAck e (step s i) := by
  obtain ⟨hs, hcur⟩ := h
  have hs' : s.inp.pe.inXactState = .waitAck := hs
  have hrx : (inInputPe s i).rx = i.rx := rfl
  have htok : ¬ InToken i := by
    rintro ⟨htok, -⟩
    exact absurd ((RxSignals.pktEnd_of_tokenReceived htok).symm.trans hend) (by decide)
  refine ⟨?_, ?_⟩
  · simp [inPhase_step_of_linkUp hup, InPe.comb, hs', InPe.Input.ackReceived,
      InPe.Input.inTokenReceived, hrx, hend]
  · rw [(step_of_not_inToken htok).2.1, hcur]

/-- The packet of `e` is completed by an ACK that ends while it is awaited. -/
theorem setSentbit_iff (hiso : i.cfg.inIso e = false) : setSentbit s i e = true ↔
    AwaitsAck e s ∧ i.rx.pktEnd = true ∧ i.rx.pktValid = true ∧ i.rx.pid = usbPidAck := by
  have hend : inEpXactEnd s i = (InPe.comb s.inp.pe (inInputPe s i)).xactEnd := rfl
  have hrx : (inInputPe s i).rx = i.rx := rfl
  have hack : (inInputPe s i).ackReceived = true ↔
      i.rx.pktEnd = true ∧ i.rx.pktValid = true ∧ i.rx.pid = usbPidAck := by
    simp [InPe.Input.ackReceived, hrx, and_assoc]
  rw [← hack, setSentbit, Bool.and_eq_true, beq_iff_eq, eq_comm (a := e), hend]
  constructor
  · rintro ⟨hx, hcur⟩
    have hiso' : (inInputPe s i).iso s.inp.pe.inEpCurrent = false := by
      simp [inInputPe, inPeInput, inInput, hcur, hiso]
    obtain ⟨-, hi⟩ | ⟨hs, ha⟩ := InPe.xactEnd_cases hx
    · rw [hiso'] at hi
      exact absurd hi (by decide)
    · exact ⟨⟨hs, hcur⟩, ha⟩
  · rintro ⟨⟨hs, hcur⟩, ha⟩
    have hs' : s.inp.pe.inXactState = .waitAck := hs
    exact ⟨by simp [InPe.comb, hs', ha], hcur⟩

/-! ### Along a run -/

section run
variable (s₀ : State N) (inp : ℕ → Input N) (e : Fin N)

/-- A DATA packet of `e` starts in cycle `first`, and its end is sent in cycle `last`. -/
structure Transmitted (first last : ℕ) : Prop where
  starts : DataStart e (traj step s₀ inp first) (inp first)
  lt : first < last
  sending : ∀ u, first < u → u < last → (inp u).txPktEnd = false
  ends : (inp last).txPktEnd = true

/-- In cycle `t` ends the ACK for a DATA packet of `e`: the first packet to end after the first
start of packet, which came in cycle `start`, before the timeout. -/
structure Acknowledged (first last start t : ℕ) : Prop where
  transmitted : Transmitted s₀ inp e first last
  linkUp : ∀ u, first ≤ u → u < t → LinkUp (inp u)
  last_start : last < start
  inTime : start ≤ last + (InPe.ackTimeoutCnt.toNat + 1)
  notBefore : ∀ u, last < u → u < start → (inp u).rx.pktStart = false
  starts : (inp start).rx.pktStart = true
  start_lt : start < t
  noneEnds : ∀ u, start < u → u < t → (inp u).rx.pktEnd = false
  ends : (inp t).rx.pktEnd = true
  valid : (inp t).rx.pktValid = true
  ack : (inp t).rx.pid = usbPidAck

variable {s₀ inp e}

/-- The timeout that has been left since the end of the packet. -/
theorem timeout_run {last m : ℕ} (hlt : last < m) (hup : ∀ u, last < u → u < m → LinkUp (inp u))
    (h : (traj step s₀ inp (last + 1)).inp.pe.timeoutCntdown = InPe.ackTimeoutCnt)
    (hwait : ∀ u, last < u → u ≤ m → AwaitsStart e (traj step s₀ inp u)) :
    (traj step s₀ inp m).inp.pe.timeoutCntdown.toNat + m =
      last + (InPe.ackTimeoutCnt.toNat + 1) := by
  induction m, (show last + 1 ≤ m from hlt) using Nat.le_induction with
  | base =>
      rw [h]
      omega
  | succ m hm ih =>
      have hcount := ih hm (fun u hu hum => hup u hu (by omega))
        (fun u hu hum => hwait u hu (by omega))
      have hpred := (hwait m hm (by omega)).timeout_step (hup m hm (by omega))
        (hwait (m + 1) (by omega) le_rfl)
      rw [traj_succ]
      omega

/-- From the end of its packet the engine waits as long as nothing starts. -/
theorem awaitsStart_run (hpaced : ∀ t, Paced (traj step s₀ inp t) (inp t)) {last start : ℕ}
    (hup : ∀ u, last < u → u < start → LinkUp (inp u))
    (h : AwaitsStart e (traj step s₀ inp (last + 1)) ∧
      (traj step s₀ inp (last + 1)).inp.pe.timeoutCntdown = InPe.ackTimeoutCnt)
    (hno : ∀ u, last < u → u < start → (inp u).rx.pktStart = false)
    (htime : start ≤ last + (InPe.ackTimeoutCnt.toNat + 1)) :
    ∀ m, last < m → m ≤ start → AwaitsStart e (traj step s₀ inp m) := by
  intro m
  induction m using Nat.strong_induction_on with
  | _ m ih =>
      intro hm hms
      obtain rfl | hlt : m = last + 1 ∨ last + 1 < m := by omega
      · exact h.1
      · obtain ⟨k, rfl⟩ : ∃ k, m = k + 1 := ⟨m - 1, by omega⟩
        have hcount := timeout_run (m := k) (by omega) (fun u hu huk => hup u hu (by omega)) h.2
          (fun u hu huk => ih u (by omega) hu (by omega))
        refine (ih k (by omega) (by omega) (by omega)).next (hpaced k) (hup k (by omega) (by omega))
          (hno k (by omega) (by omega)) fun hzero => ?_
        rw [hzero] at hcount
        have h0 : (0 : BitVec 7).toNat = 0 := rfl
        omega

/-- A packet acknowledged in cycle `t` finds the engine waiting for the end of the handshake. -/
theorem Acknowledged.awaitsAck {first last start t : ℕ}
    (h : Acknowledged s₀ inp e first last start t)
    (hpaced : ∀ t, Paced (traj step s₀ inp t) (inp t)) (hiso : ∀ t, (inp t).cfg.inIso e = false) :
    AwaitsAck e (traj step s₀ inp t) := by
  have hfl := h.transmitted.lt
  have hls := h.last_start
  have hst := h.start_lt
  have hsends : Transmits e (traj step s₀ inp last) := by
    refine traj_persists (Transmits e) (m := first + 1) hfl ?_ ?_
    · exact transmits_of_dataStart (hpaced first) (h.linkUp first le_rfl (by omega)) (hiso first)
        h.transmitted.starts
    · intro u hu hul hsend
      exact hsend.next (hpaced u) (h.linkUp u (by omega) (by omega)) (hiso u)
        (h.transmitted.sending u hu hul)
  have hend := hsends.ends (hpaced last) (h.linkUp last (by omega) (by omega)) h.transmitted.ends
  have hwait := awaitsStart_run hpaced (fun u hu hus => h.linkUp u (by omega) (by omega)) hend
    h.notBefore h.inTime start hls le_rfl
  refine traj_persists (AwaitsAck e) (m := start + 1) hst ?_ ?_
  · exact hwait.starts (hpaced start) (h.linkUp start (by omega) (by omega)) h.starts
  · intro u hu hut hack
    exact hack.next (h.linkUp u (by omega) hut) (h.noneEnds u hu hut)

/-- An engine that waits for the end of the handshake has sent a packet and seen a start in
time. -/
theorem exists_of_awaitsAck (h₀ : inPhase s₀ = .idle)
    (hpaced : ∀ t, Paced (traj step s₀ inp t) (inp t)) (hiso : ∀ t, (inp t).cfg.inIso e = false)
    {t : ℕ} (h : AwaitsAck e (traj step s₀ inp t)) (hend : (inp t).rx.pktEnd = true)
    (hvalid : (inp t).rx.pktValid = true) (hack : (inp t).rx.pid = usbPidAck) :
    ∃ first last start, Acknowledged s₀ inp e first last start t := by
  obtain ⟨start, hst, ⟨hwait, hstart⟩, hup₃, hkeep₃⟩ :=
    exists_entry (fun u => AwaitsAck e (traj step s₀ inp u)) _ _ _
      (by simp [AwaitsAck, h₀]) (fun u => awaitsAck_previous (hpaced u)) h
  obtain ⟨last, hls, ⟨hsends, hsent⟩, hup₂, hkeep₂⟩ :=
    exists_entry (fun u => AwaitsStart e (traj step s₀ inp u)) _ _ _
      (by simp [AwaitsStart, h₀]) (fun u => awaitsStart_previous (hpaced u)) hwait
  obtain ⟨first, hfl, hdata, hup₁, hkeep₁⟩ :=
    exists_entry (fun u => Transmits e (traj step s₀ inp u)) _ _ _
      (by simp [Transmits, h₀]) (fun u => transmits_previous (hpaced u) (hiso u)) hsends
  have hup : ∀ u, first ≤ u → u < t → LinkUp (inp u) := by
    intro u hu hut
    obtain h | h | h : u < last ∨ last ≤ u ∧ u < start ∨ start ≤ u := by omega
    · exact hup₁ u hu h
    · exact hup₂ u h.1 h.2
    · exact hup₃ u h hut
  have hended := hsends.ends (hpaced last) (hup last (by omega) (by omega)) hsent
  have htime : start ≤ last + (InPe.ackTimeoutCnt.toNat + 1) := by
    have hcount := timeout_run hls (fun u hu hus => hup u (by omega) (by omega)) hended.2
      fun u hu hus => by
        obtain hlt | rfl : u < start ∨ u = start := by omega
        · exact (hkeep₂ u hu hlt).1
        · exact hwait
    omega
  exact ⟨first, last, start, ⟨hdata, hfl, fun u hu hul => (hkeep₁ u hu hul).2, hsent⟩, hup, hls,
    htime, fun u hu hus => (hkeep₂ u hu hus).2, hstart, hst, fun u hu hut => (hkeep₃ u hu hut).2,
    hend, hvalid, hack⟩

/-- Exactly the acknowledged packets are completed. -/
theorem setSentbit_iff_acknowledged (h₀ : inPhase s₀ = .idle)
    (hpaced : ∀ t, Paced (traj step s₀ inp t) (inp t)) (hiso : ∀ t, (inp t).cfg.inIso e = false)
    (t : ℕ) : setSentbit (traj step s₀ inp t) (inp t) e = true ↔
      ∃ first last start, Acknowledged s₀ inp e first last start t := by
  rw [setSentbit_iff (hiso t)]
  constructor
  · rintro ⟨hawait, hend, hvalid, hack⟩
    exact exists_of_awaitsAck h₀ hpaced hiso hawait hend hvalid hack
  · rintro ⟨first, last, start, h⟩
    exact ⟨h.awaitsAck hpaced hiso, h.ends, h.valid, h.ack⟩

end run

/-! ### The effects -/

/-- The packet of `e` is completed in this cycle: the toggle flips, or is cleared by a link reset
in the same cycle, `in_sent` is set, `rdy` and `sending` are cleared. -/
structure Completes (e : Fin N) (s : State N) (i : Input N) : Prop where
  toggle : (step s i).inp.pe.dataToggle e =
    if i.linkReset then false else !s.inp.pe.dataToggle e
  inSent : (step s i).inSent e = true
  rdy : ((step s i).configin e).rdy = false
  sending : ((step s i).configin e).sending = false

/-- A SETUP packet for `e` is accepted, or the link is reset. -/
def Withdrawn (e : Fin N) (s : State N) (i : Input N) : Prop :=
  setupReceived s i = true ∧ s.out.pe.outEpCurrent = e ∨ i.linkReset = true

/-- No packet of `e` is completed in this cycle: `in_sent` stays, the toggle changes only by a
SETUP token or a link reset, `rdy` and `sending` are cleared only by an accepted SETUP packet or
a link reset. -/
structure Keeps (e : Fin N) (s : State N) (i : Input N) : Prop where
  toggle : (step s i).inp.pe.dataToggle e ≠ s.inp.pe.dataToggle e →
    SetupToken e i ∨ i.linkReset = true
  inSent : (step s i).inSent e = s.inSent e
  rdy : (s.configin e).rdy = true → ((step s i).configin e).rdy = false → Withdrawn e s i
  sending : (s.configin e).sending = true → ((step s i).configin e).sending = false →
    Withdrawn e s i

/-- No SETUP packet is accepted in a cycle in which a packet ends. -/
theorem setupReceived_of_pktEnd (hp : Paced s i) (hend : i.rx.pktEnd = true) :
    setupReceived s i = false := by
  rw [← Bool.not_eq_true]
  intro h
  simp only [setupReceived, UsbIf.setupReceived, Bool.and_eq_true] at h
  have hphase : phase s = .rcvdDataEnd ∨ phase s = .rcvdIsoDataEnd := (OutPe.acked_cases h.2).1
  rw [hp.dataEnd hphase] at hend
  exact absurd hend (by decide)

/-- The toggle of an acknowledged packet. -/
theorem inToggle_step_of_ack (h : AwaitsAck e s) (hack : (inInputPe s i).ackReceived = true)
    (hw : NoToggleWrite e i) : (step s i).inp.pe.dataToggle e =
      if i.linkReset then false else !s.inp.pe.dataToggle e := by
  have hstep : (step s i).inp.pe.dataToggle e =
      if i.linkReset then false else InPe.dataToggleD s.inp.pe (inInputPe s i) e := by
    change (if i.linkReset then fun _ => false else InPe.dataToggleD s.inp.pe (inInputPe s i)) e = _
    split_ifs <;> rfl
  have hsetup : (inInputPe s i).setupTokenReceived = false := by
    simp only [InPe.Input.ackReceived, Bool.and_eq_true, beq_iff_eq] at hack
    simp [InPe.Input.setupTokenReceived, hack.2, usbPidAck, usbPidSetup]
  have hs : s.inp.pe.inXactState = .waitAck := h.1
  have hbusy : InPe.dataToggleD s.inp.pe (inInputPe s i) e = !s.inp.pe.dataToggle e := by
    simp only [InPe.dataToggleD, hsetup, hs, hack, h.2]
    cases hdt : i.sw.inDatatog with
    | none =>
        rw [show (inInputPe s i).datatog = none from hdt]
        simp
    | some w =>
        rw [show (inInputPe s i).datatog = some w from hdt]
        simp [hw w hdt]
  rw [hstep, hbusy]

theorem completes_of_setSentbit (hp : Paced s i) (hiso : i.cfg.inIso e = false)
    (h : setSentbit s i e = true) (hc : configinWd i e = none) (hsent : ¬ ClearsSent e i)
    (hw : NoToggleWrite e i) : Completes e s i := by
  obtain ⟨hawait, hend, hvalid, hpid⟩ := (setSentbit_iff hiso).1 h
  have hack : (inInputPe s i).ackReceived = true := by
    have hrx : (inInputPe s i).rx = i.rx := rfl
    simp [InPe.Input.ackReceived, hrx, hend, hvalid, hpid]
  have hsetup := setupReceived_of_pktEnd hp hend
  have hdone : (inEpXactEnd s i && e == s.inp.pe.inEpCurrent) = true := h
  constructor
  case toggle => exact inToggle_step_of_ack hawait hack hw
  case inSent => exact (inSent_step s i e).2 ⟨.inl h, hsent⟩
  case rdy =>
    change (configinD s i e).rdy = false
    simp [configinD, hc, subregRW, clearRdybit, hsetup, hdone]
  case sending =>
    change (configinD s i e).sending = false
    simp [configinD, hc, subregW1C, h]

theorem keeps_of_not_setSentbit (h : setSentbit s i e = false) (hc : configinWd i e = none)
    (hsent : ¬ ClearsSent e i) (hw : NoToggleWrite e i) : Keeps e s i := by
  have hgone : ¬ Withdrawn e s i → Uninterrupted e s i := by
    intro hno
    simp only [Withdrawn, not_or, Bool.not_eq_true] at hno
    exact ⟨hno.2, hno.1, h⟩
  constructor
  case toggle =>
    intro hne
    by_contra hno
    rw [not_or, Bool.not_eq_true] at hno
    exact hne (inToggle_step hno.2 hno.1 (not_ack_of_notSent h) hw)
  case inSent =>
    rw [Bool.eq_iff_iff, inSent_step, h]
    simp [hsent]
  case rdy =>
    intro hrdy hnext
    by_contra hno
    rw [(configin_step (hgone hno) hc).2.2, hrdy] at hnext
    exact absurd hnext (by decide)
  case sending =>
    intro hsend hnext
    by_contra hno
    rw [sending_step hsend (hgone hno) (by simp [hc])] at hnext
    exact absurd hnext (by decide)

/-- Software writes neither the toggle nor the sent bit nor the configuration of `e`. -/
structure NoWrite (e : Fin N) (i : Input N) : Prop where
  configin : configinWd i e = none
  inSent : ¬ ClearsSent e i
  toggle : NoToggleWrite e i

end UsbDev.Device

namespace UsbDev.Usbdev

open Clocked Device LineCode

section
variable {N R : ℕ} [NeZero N]

omit [NeZero N] in
theorem paced_of_turnaround {s : State N R} {i : Input N} (h : NbPe.Turnaround (nb s)) :
    Paced s.dev (devInput s i) where
  token := fun htok => h.of_token (i := nbInput s i) htok
  sending := h.not_txPktEnd
  dataEnd := h.outWaits.not_packetEnd (i := nbInput s i)

theorem paced_run {dev : Device.State N} (hdev : Fresh dev) {inp : ℕ → Input N}
    (ho : ∀ t, (inp t).txOscTestMode = false) (t : ℕ) :
    Paced (traj Device.step dev (devInputs (State.reset R dev) inp) t)
      (devInputs (State.reset R dev) inp t) := by
  have hdev' := dev_traj (State.reset R dev) inp t
  change _ = traj Device.step dev _ t at hdev'
  rw [← hdev']
  exact paced_of_turnaround (hdev.turnaround ho t)

/-- In every run from reset with the oscillator test off, and for every endpoint that is not
isochronous: a cycle in which software does not write completes its packet, with all effects, if
the packet is acknowledged there, and otherwise has none of them but for a SETUP and a link
reset. -/
theorem inCompletion (dev : Device.State N) (hdev : Fresh dev) (inp : ℕ → Input N)
    (ho : ∀ t, (inp t).txOscTestMode = false) (e : Fin N)
    (hiso : ∀ t, (inp t).cfg.inIso e = false) (t : ℕ)
    (hw : NoWrite e (devInputs (State.reset R dev) inp t)) :
    let acked := ∃ first last start,
      Acknowledged dev (devInputs (State.reset R dev) inp) e first last start t
    let s := traj step (State.reset R dev) inp t
    (acked → Completes e s.dev (devInput s (inp t))) ∧
      (¬ acked → Keeps e s.dev (devInput s (inp t))) := by
  intro acked s
  have hidle : inPhase dev = .idle := by
    obtain ⟨avsetup, avout, rx, mem, rdata, rfl⟩ := hdev
    rfl
  have hpaced := paced_run (R := R) hdev ho
  have hiff := setSentbit_iff_acknowledged hidle hpaced (e := e) hiso t
  have hstate : s.dev = traj Device.step dev (devInputs (State.reset R dev) inp) t :=
    dev_traj (State.reset R dev) inp t
  rw [← hstate] at hiff
  have hpaced' := hpaced t
  rw [← hstate] at hpaced'
  constructor
  · intro hacked
    exact completes_of_setSentbit hpaced' (hiso t) (hiff.2 hacked) hw.configin hw.inSent hw.toggle
  · intro hnot
    have hsent : setSentbit s.dev (devInput s (inp t)) e = false := by
      rw [← Bool.not_eq_true]
      exact fun h => hnot (hiff.1 h)
    exact keeps_of_not_setSentbit hsent hw.configin hw.inSent hw.toggle

end

/-! ### A glitch after the token, and the oscillator test -/

/-- The host asks for an empty packet of endpoint 0 and then shows a K for one bit. After the DATA
packet it sends a packet that is cut off after SYNC, and the ACK. -/
def glitchInputs : List (Input 1) :=
  armEmpty 1 :: lineCycles 1 (List.replicate 4 .j ++ tokenLines usbPidIn 0 ++ .k ::
    List.replicate 37 .j ++ [.k, .j, .k, .j, .k, .k, .se0, .se0, .j, .j, .j] ++ ackLines)

def glitchRun (t : ℕ) : Input 1 := glitchInputs.getD t (lineInput 1 .j)

/-- The start of an answer to an IN token, the end of a transmission, the end of a packet, the
completion of a packet of endpoint 0, and the link. -/
def glitchEvents (s : State 1 1) (i : Input 1) : Bool × Bool × Bool × Bool × Bool :=
  (inPhase s.dev == .rcvdIn, (devInput s i).txPktEnd, (devInput s i).rx.pktEnd,
    setSentbit s.dev (devInput s i) 0, !(devInput s i).linkReset && (devInput s i).linkActive)

theorem outs_glitchInputs :
    outs step glitchEvents (State.reset 1 (freshDevice 1)) glitchInputs =
      (List.range 429).map fun t =>
        (t == 157, t == 305, t == 156 || t == 344 || t == 428, t == 428, decide (9 ≤ t)) := by
  decide +kernel

/-- The host asks for an empty packet of endpoint 0, and the oscillator test is on while the
packet starts. It then asks for a packet of endpoint 1, sends a packet to endpoint 0 and
acknowledges the handshake for it. -/
def oscInputs : List (Input 2) :=
  armEmpty 2 :: lineCycles 2 (List.replicate 4 .j ++ tokenLines usbPidIn 0) ++
    { lineInput 2 .j with txOscTestMode := true } ::
    lineCycles 2 (.j :: tokenLines usbPidIn 1 ++ tokenLines usbPidOut 0 ++
      emptyDataLines usbPidData1 ++ List.replicate 24 .j ++ ackLines)

def oscRun (t : ℕ) : Input 2 := oscInputs.getD t (lineInput 2 .j)

/-- The start of an answer by endpoint 1, the completion of a packet of endpoint 1, and the
link. -/
def oscEvents (s : State 2 1) (i : Input 2) : Bool × Bool × Bool :=
  (inPhase s.dev == .rcvdIn && s.dev.inp.pe.inEpCurrent == 1,
    setSentbit s.dev (devInput s i) 1, !(devInput s i).linkReset && (devInput s i).linkActive)

theorem outs_oscInputs :
    outs step oscEvents (State.reset 1 (freshDevice 2)) oscInputs =
      (List.range 754).map fun t => (false, t == 753, decide (9 ≤ t)) := by
  decide +kernel

/-- In cycle `t` ends an ACK before which no other packet ended since the DATA packet of `e` was
transmitted, and which started before the timeout. -/
structure AckEndsFirst {N : ℕ} [NeZero N] (s₀ : Device.State N) (inp : ℕ → Device.Input N)
    (e : Fin N) (first last start t : ℕ) : Prop where
  transmitted : Transmitted s₀ inp e first last
  last_start : last < start
  inTime : start ≤ last + (InPe.ackTimeoutCnt.toNat + 1)
  starts : (inp start).rx.pktStart = true
  start_lt : start < t
  noneEnds : ∀ u, last < u → u < t → (inp u).rx.pktEnd = false
  ends : (inp t).rx.pktEnd = true
  valid : (inp t).rx.pktValid = true
  ack : (inp t).rx.pid = usbPidAck

/-- Up to cycle `t` endpoint `e` is not isochronous and the link is active from cycle `m` on;
software does not write in cycle `t`. -/
structure Ordinary {N : ℕ} [NeZero N] (inp : ℕ → Input N) (e : Fin N) (m t : ℕ) : Prop where
  notIso : ∀ u, (inp u).cfg.inIso e = false
  linkUp : ∀ u ≤ t, LinkUp (devInputs (State.reset 1 (freshDevice N)) inp u) ↔ m ≤ u
  noWrite : NoWrite e (devInputs (State.reset 1 (freshDevice N)) inp t)

/-- The packet of `e` is completed in cycle `t` exactly if an ACK ends there first. -/
def CompletesFirst {N : ℕ} [NeZero N] (inp : ℕ → Input N) (e : Fin N) (t : ℕ) : Prop :=
  let run := devInputs (State.reset 1 (freshDevice N)) inp
  setSentbit (traj Device.step (freshDevice N) run t) (run t) e = true ↔
    ∃ first last start, AckEndsFirst (freshDevice N) run e first last start t

theorem traj_dev {N : ℕ} [NeZero N] (inp : ℕ → Input N) (t : ℕ) :
    traj Device.step (freshDevice N) (devInputs (State.reset 1 (freshDevice N)) inp) t =
      (traj step (State.reset 1 (freshDevice N)) inp t).dev :=
  (dev_traj (State.reset 1 (freshDevice N)) inp t).symm

theorem glitchRun_events {t : ℕ} (ht : t < 429) :
    glitchEvents (traj step (State.reset 1 (freshDevice 1)) glitchRun t) (glitchRun t) =
      (t == 157, t == 305, t == 156 || t == 344 || t == 428, t == 428, decide (9 ≤ t)) :=
  out_traj_of_outs outs_glitchInputs (lineInput 1 .j) ht

theorem oscRun_events {t : ℕ} (ht : t < 754) :
    oscEvents (traj step (State.reset 1 (freshDevice 2)) oscRun t) (oscRun t) =
      (false, t == 753, decide (9 ≤ t)) :=
  out_traj_of_outs outs_oscInputs (lineInput 2 .j) ht

theorem noWrite_of_quiet {N R : ℕ} [NeZero N] {s : State N R} {inp : ℕ → Input N} {e : Fin N} {t : ℕ}
    (h : ((inp t).sw.configin.isNone && (inp t).sw.inSent.isNone && (inp t).sw.inDatatog.isNone) =
      true) : NoWrite e (devInputs s inp t) := by
  have hsw : (devInputs s inp t).sw = (inp t).sw := rfl
  simp only [Bool.and_eq_true, Option.isNone_iff_eq_none, ← hsw] at h
  obtain ⟨⟨hconfig, hsent⟩, htoggle⟩ := h
  constructor
  · simp [configinWd, hconfig]
  · rintro ⟨bits, hbits, -⟩
    simp [hsent] at hbits
  · intro w hw
    simp [htoggle] at hw

theorem txOscTestMode_glitchRun (u : ℕ) : (glitchRun u).txOscTestMode = false := by
  have hall : ∀ i ∈ glitchInputs, i.txOscTestMode = false := by decide +kernel
  exact getD_of_forall (fun i : Input 1 => i.txOscTestMode = false) hall rfl u

theorem ordinary_glitchRun : Ordinary glitchRun 0 9 428 where
  notIso := by
    intro u
    have hall : ∀ i ∈ glitchInputs, i.cfg.inIso 0 = false := by decide +kernel
    exact getD_of_forall (fun i : Input 1 => i.cfg.inIso 0 = false) hall rfl u
  linkUp := by
    intro u hu
    have hevents := glitchRun_events (t := u) (by omega)
    simp only [glitchEvents, Prod.mk.injEq] at hevents
    have hlink := hevents.2.2.2.2
    rw [Bool.eq_iff_iff, Bool.and_eq_true, Bool.not_eq_true', decide_eq_true_iff] at hlink
    exact hlink
  noWrite := noWrite_of_quiet (by decide +kernel)

theorem ordinary_oscRun : Ordinary oscRun 1 9 753 where
  notIso := by
    intro u
    have hall : ∀ i ∈ oscInputs, i.cfg.inIso 1 = false := by decide +kernel
    exact getD_of_forall (fun i : Input 2 => i.cfg.inIso 1 = false) hall rfl u
  linkUp := by
    intro u hu
    have hevents := oscRun_events (t := u) (by omega)
    simp only [oscEvents, Prod.mk.injEq] at hevents
    have hlink := hevents.2.2
    rw [Bool.eq_iff_iff, Bool.and_eq_true, Bool.not_eq_true', decide_eq_true_iff] at hlink
    exact hlink
  noWrite := noWrite_of_quiet (by decide +kernel)

theorem inCompletion_glitchRun :
    Completes 0 (traj step (State.reset 1 (freshDevice 1)) glitchRun 428).dev
      (devInput (traj step (State.reset 1 (freshDevice 1)) glitchRun 428) (glitchRun 428)) := by
  refine (inCompletion (R := 1) (freshDevice 1) (fresh_freshDevice 1) glitchRun
    txOscTestMode_glitchRun 0 ordinary_glitchRun.notIso 428 ordinary_glitchRun.noWrite).1 ?_
  have hsent := glitchRun_events (t := 428) (by omega)
  simp only [glitchEvents, Prod.mk.injEq] at hsent
  refine (setSentbit_iff_acknowledged rfl (paced_run (fresh_freshDevice 1) txOscTestMode_glitchRun)
    ordinary_glitchRun.notIso 428).1 ?_
  rw [traj_dev]
  exact hsent.2.2.2.1

/-- A completed packet need not have its ACK as the first packet that ended, and with the
oscillator test it need not have been sent. -/
theorem not_completesFirst :
    (¬ ∀ (inp : ℕ → Input 2) (e : Fin 2) (m t : ℕ), Ordinary inp e m t → CompletesFirst inp e t) ∧
      ¬ ∀ (inp : ℕ → Input 1) (e : Fin 1) (m t : ℕ), (∀ u, (inp u).txOscTestMode = false) →
        Ordinary inp e m t → CompletesFirst inp e t := by
  constructor
  · intro hall
    have hiff := hall oscRun 1 9 753 ordinary_oscRun
    simp only [CompletesFirst, traj_dev] at hiff
    have hsent := oscRun_events (t := 753) (by omega)
    simp only [oscEvents, Prod.mk.injEq] at hsent
    obtain ⟨first, last, start, h⟩ := hiff.1 hsent.2.1
    have hdata := h.transmitted.starts
    rw [traj_dev] at hdata
    have hfirst := oscRun_events (t := first) (by
      have := h.transmitted.lt
      have := h.last_start
      have := h.start_lt
      omega)
    simp only [oscEvents, Prod.mk.injEq] at hfirst
    have hphase : inPhase (traj step (State.reset 1 (freshDevice 2)) oscRun first).dev = .rcvdIn :=
      hdata.rcvdIn
    simp [hphase, hdata.current] at hfirst
  · intro hall
    have hiff := hall glitchRun 0 9 428 txOscTestMode_glitchRun ordinary_glitchRun
    simp only [CompletesFirst, traj_dev] at hiff
    have hevents : ∀ t < 429, _ := fun t ht => glitchRun_events (t := t) ht
    simp only [glitchEvents, Prod.mk.injEq] at hevents
    obtain ⟨first, last, start, h⟩ := hiff.1 (hevents 428 (by omega)).2.2.2.1
    have hdata := h.transmitted.starts
    have hfl := h.transmitted.lt
    have hls := h.last_start
    have hst := h.start_lt
    rw [traj_dev] at hdata
    have hphase : inPhase (traj step (State.reset 1 (freshDevice 1)) glitchRun first).dev =
        .rcvdIn := hdata.rcvdIn
    have hfirst := (hevents first (by omega)).1
    have hlast := (hevents last (by omega)).2.1
    rw [show (devInput (traj step (State.reset 1 (freshDevice 1)) glitchRun last)
      (glitchRun last)).txPktEnd = true from h.transmitted.ends] at hlast
    have hend := (hevents 344 (by omega)).2.2.1
    rw [hphase] at hfirst
    obtain rfl : last = 305 := by simpa using hlast.symm
    rw [show (devInput (traj step (State.reset 1 (freshDevice 1)) glitchRun 344)
      (glitchRun 344)).rx.pktEnd = false from h.noneEnds 344 (by omega) (by omega)] at hend
    exact absurd hend (by decide)

end UsbDev.Usbdev
