import UsbDev.OutAbort

/-!
# Exactly-once delivery on an OUT endpoint

The alternating-bit protocol between a host and one OUT endpoint. The host sends
its payloads one after the other, each with the same DATA toggle until it has
seen an ACK. Tokens, DATA packets and handshakes may be lost or corrupted, and
there is traffic to other endpoints and addresses in between. The invariant
holds at every moment between two transactions: the device is level with the
host when the toggles agree, and one payload ahead when they do not.
-/
namespace UsbDev.Device

open Clocked UsbIf
open OutPe (XactState)

variable {N : ℕ} [NeZero N]

/-! ### What arrives -/

/-- A packet on its way to the device: it is lost, and raises neither a start nor an end, or
the receiver sees it. -/
inductive Slot (N : ℕ) where
  | lost (cycles : List (Input N)) (noEvent : ∀ i ∈ cycles, NoEvent i)
  | arrived (p : Packet N)

def Slot.cycles : Slot N → List (Input N)
  | lost cycles _ => cycles
  | arrived p => p.cycles

/-- The receiver found an error in the packet. -/
def Packet.Corrupted (p : Packet N) : Prop := p.last.rx.pktValid = false

/-- A valid OUT token for endpoint `e` of the device. -/
def Packet.OutToken (e : Fin N) (p : Packet N) : Prop :=
  p.last.rx.tokenReceived p.last.cfg.devAddr = true ∧ p.last.rx.pid = usbPidOut ∧
    p.last.rx.endp.toNat = e.val

/-- A valid DATA packet with this toggle and this payload. -/
def Packet.Carries (toggle : Bool) (payload : List (BitVec 8)) (p : Packet N) : Prop :=
  p.last.rx.pktValid = true ∧ p.last.rx.pid = InPe.dataPid toggle ∧
    p.start.rx.dataPut = false ∧ ∃ c₁ c₂, strobes p.cycles = payload ++ [c₁, c₂]

/-- The endpoint is enabled and neither a control nor an isochronous endpoint; there is no
link reset, and software neither writes its data toggle nor stalls it. -/
structure Regular (e : Fin N) (i : Input N) : Prop where
  enabled : i.cfg.epOutEnable e = true
  control : i.cfg.rxenableSetup e = false
  iso : i.cfg.outIso e = false
  linkReset : i.linkReset = false
  datatog : ∀ w, i.sw.outDatatog = some w → w.2 e = false
  outStall : ∀ w, i.sw.outStall = some w → w e = false

/-- No OUT or SETUP token for endpoint `e` ends in this cycle. -/
def Foreign (e : Fin N) (i : Input N) : Prop :=
  i.rx.tokenReceived i.cfg.devAddr = true →
    i.rx.pid = usbPidOut ∨ i.rx.pid = usbPidSetup → i.rx.endp.toNat ≠ e.val

/-! ### What is delivered -/

/-- The device, the bytes of the packet being received, and the payloads posted so far for one
endpoint. -/
structure Tap (N : ℕ) where
  dev : State N
  bytes : List (BitVec 8)
  delivered : List (List (BitVec 8))

/-- A posted packet delivers its bytes but the two of the CRC. -/
def Tap.step (e : Fin N) (t : Tap N) (i : Input N) : Tap N where
  dev := Device.step t.dev i
  bytes := if phase t.dev = .rcvdDataStart then t.bytes ++ strobe i else []
  delivered :=
    match rxPush t.dev i with
    | some entry =>
        if entry.ep = e then t.delivered ++ [t.bytes.take (t.bytes.length - 2)] else t.delivered
    | none => t.delivered

/-- The handshakes sent by the OUT engine. -/
def answers (s : State N) (is : List (Input N)) : List (BitVec 4) := log step outTx s is

theorem run_tap_dev (e : Fin N) (t : Tap N) (is : List (Input N)) :
    (run (Tap.step e) t is).dev = run step t.dev is := by
  induction is generalizing t with
  | nil => rfl
  | cons i is ih => exact ih _

theorem answers_append (s : State N) (is js : List (Input N)) :
    answers s (is ++ js) = answers s is ++ answers (run step s is) js := log_append _ _ _ _ _

/-- What stays while nothing is delivered: the endpoint is not stalled, its toggle is
`toggle`, and `delivered` has been posted. -/
structure Still (e : Fin N) (toggle : Bool) (delivered : List (List (BitVec 8))) (t : Tap N) :
    Prop where
  outStall : t.dev.outStall e = false
  toggle : t.dev.out.pe.dataToggle e = toggle
  delivered : t.delivered = delivered

variable {e : Fin N} {τ : Bool} {D : List (List (BitVec 8))} {t : Tap N} {i : Input N}

/-- The toggle of `e` changes only with a SETUP token for `e` or a packet accepted on `e`. -/
theorem dataToggle_regular {s : State N} (hr : Regular e i)
    (ha : rxWvalid s i = true → s.out.pe.outEpCurrent ≠ e)
    (hs : i.rx.tokenReceived i.cfg.devAddr = true → i.rx.pid = usbPidSetup →
      i.rx.endp.toNat ≠ e.val) : (step s i).out.pe.dataToggle e = s.out.pe.dataToggle e := by
  let busy : Fin N → Bool :=
    if (peInput s i).setupTokenReceived && (peInput s i).epActive then
      Function.update s.out.pe.dataToggle i.rx.epCurrentD false
    else if (OutPe.comb s.out.pe (peInput s i)).newPktEnd then
      Function.update s.out.pe.dataToggle s.out.pe.outEpCurrent
        (!s.out.pe.dataToggle s.out.pe.outEpCurrent)
    else s.out.pe.dataToggle
  have hbusy : busy e = s.out.pe.dataToggle e := by
    simp only [busy]
    split_ifs with hsetup hnew
    · simp only [OutPe.Input.setupTokenReceived, OutPe.Input.epActive, peInput_rx,
        Bool.and_eq_true, beq_iff_eq] at hsetup
      obtain ⟨⟨htok, hpid⟩, -, hhw⟩ := hsetup
      have hne := hs htok hpid
      rw [RxSignals.epInHw_iff] at hhw
      refine Function.update_of_ne ?_ _ _
      rw [RxSignals.epCurrentD_of_lt _ hhw]
      rintro rfl
      exact hne rfl
    · rw [OutPe.newPktEnd_eq_acked, ← rxWvalid_eq] at hnew
      exact Function.update_of_ne (ha hnew).symm _ _
    · rfl
  have hl : (peInput s i).linkReset = false := hr.linkReset
  simp only [step_pe, OutPe.step, hl, OutPe.dataToggleD]
  cases hw : i.sw.outDatatog with
  | none =>
      have hw' : (peInput s i).datatog = none := hw
      rw [hw']
      exact hbusy
  | some w =>
      have hw' : (peInput s i).datatog = some w := hw
      rw [hw']
      have hsel : (busy e && !w.2 e || w.1 e && w.2 e) = s.out.pe.dataToggle e := by
        simp [hr.datatog w hw, hbusy]
      exact hsel

theorem outStall_step (hr : Regular e i) (h : t.dev.outStall e = false) :
    (t.step e i).dev.outStall e = false := by
  have hstep : (t.step e i).dev.outStall e =
      subregRW i.sw.outStall.isSome ((i.sw.outStall.getD fun _ => false) e)
        (setupReceived t.dev i && e == t.dev.out.pe.outEpCurrent) false (t.dev.outStall e) := rfl
  rw [hstep]
  cases hw : i.sw.outStall with
  | none => simp [subregRW, h]
  | some w => simp [subregRW, hr.outStall w hw]

/-- A cycle in which nothing is accepted on `e`. -/
theorem Still.step_elsewhere (h : Still e τ D t) (hr : Regular e i)
    (ha : rxWvalid t.dev i = true → t.dev.out.pe.outEpCurrent ≠ e)
    (hs : i.rx.tokenReceived i.cfg.devAddr = true → i.rx.pid = usbPidSetup →
      i.rx.endp.toNat ≠ e.val) : Still e τ D (t.step e i) where
  outStall := outStall_step hr h.outStall
  toggle := (dataToggle_regular hr ha hs).trans h.toggle
  delivered := by
    cases hack : rxWvalid t.dev i with
    | false => simp [Tap.step, rxPush, hack, h.delivered]
    | true =>
        have hep : ¬ (rxWdata t.dev i).ep = e := ha hack
        simp [Tap.step, rxPush_of_acked hack, hep, h.delivered]

/-- A cycle in which nothing is accepted. -/
theorem Still.step (h : Still e τ D t) (hr : Regular e i) (ha : rxWvalid t.dev i = false)
    (hs : i.rx.tokenReceived i.cfg.devAddr = true → i.rx.pid = usbPidSetup →
      i.rx.endp.toNat ≠ e.val) : Still e τ D (t.step e i) :=
  h.step_elsewhere hr (fun hack => by simp [ha] at hack) hs

/-! ### Cycles in which no packet ends -/

/-- While no packet ends nothing is answered, delivered or changed. -/
theorem still_run (is : List (Input N)) (h : Still e τ D t) (hl : Listening t.dev)
    (hi : ∀ i ∈ is, Regular e i ∧ i.rx.pktEnd = false) :
    Still e τ D (run (Tap.step e) t is) ∧ Listening (run step t.dev is) ∧
      answers t.dev is = [] := by
  induction is generalizing t with
  | nil => exact ⟨h, hl, rfl⟩
  | cons i is ih =>
      obtain ⟨hr, he⟩ := hi i (by simp)
      have hstep := h.step hr (rxWvalid_of_listening hl i) (by simp [he])
      obtain ⟨hstill, hlisten, hans⟩ := ih hstep (listening_step hl he)
        fun j hj => hi j (by simp [hj])
      refine ⟨hstill, hlisten, ?_⟩
      have htx := outTx_of_listening hl he
      have hrest : answers (step t.dev i) is = [] := hans
      unfold answers at hrest
      simp [answers, htx, hrest]

/-! ### Waiting out the timeout -/

/-- While it waits for data the engine counts down from `AckTimeoutCnt`. -/
def CountsDown (s : State N) : Prop :=
  phase s = .rcvdOut → s.out.pe.timeoutCntdown.toNat ≤ 68

theorem timeoutCntdown_step (s : State N) (i : Input N) :
    (step s i).out.pe.timeoutCntdown = (OutPe.comb s.out.pe (peInput s i)).timeoutD := rfl

theorem timeoutCntdown_step_rcvdOut {s : State N} (hs : phase s = .rcvdOut) (i : Input N) :
    (step s i).out.pe.timeoutCntdown = s.out.pe.timeoutCntdown - 1 := by
  have hs' : s.out.pe.outXactState = .rcvdOut := hs
  rw [timeoutCntdown_step]
  simp only [OutPe.comb, hs']
  split_ifs <;> rfl

theorem countsDown_step {s : State N} (h : CountsDown s) (i : Input N) :
    CountsDown (step s i) := by
  intro hn
  cases hs : phase s with
  | idle =>
      have hs' : s.out.pe.outXactState = .idle := hs
      rw [timeoutCntdown_step]
      simp only [OutPe.comb, hs']
      split_ifs <;> simp [OutPe.ackTimeoutCnt]
  | rcvdOut =>
      have hle := h hs
      rw [timeoutCntdown_step_rcvdOut hs]
      have hne : s.out.pe.timeoutCntdown ≠ 0 := by
        intro hz
        rw [phase_step_rcvdOut hs, hz] at hn
        split_ifs at hn
        simp_all
      have hpred := Clocked.toNat_pred hne
      omega
  | rcvdDataStart =>
      cases he : i.rx.pktEnd with
      | true => rcases phase_step_dataStart_end hs he with h | h | h <;> simp [h] at hn
      | false =>
          rw [phase_step_dataStart hs he] at hn
          split_ifs at hn
  | rcvdDataEnd => simp [phase_step_dataEnd (.inl hs)] at hn
  | rcvdIsoDataEnd => simp [phase_step_dataEnd (.inr hs)] at hn

/-- Out of a transaction whose data does not come the engine falls back to `idle`. -/
theorem phase_run_wait {s : State N} (is : List (Input N)) (hs : phase s ≠ .rcvdDataStart)
    (hi : ∀ i ∈ is, NoEvent i) (hne : is ≠ [])
    (hlen : phase s = .rcvdOut → s.out.pe.timeoutCntdown.toNat < is.length) :
    phase (run step s is) = .idle := by
  induction is generalizing s with
  | nil => exact absurd rfl hne
  | cons i is ih =>
      have hev := hi i (by simp)
      have hrest : ∀ j ∈ is, NoEvent j := fun j hj => hi j (by simp [hj])
      by_cases hidle : phase (step s i) = .idle
      · exact phase_run_noEvent_idle hidle is fun j hj => (hrest j hj).2
      · have ho : phase s = .rcvdOut := by
          cases hp : phase s with
          | idle => exact absurd (phase_step_idle hp hev.2) hidle
          | rcvdOut => rfl
          | rcvdDataStart => exact absurd hp hs
          | rcvdDataEnd => exact absurd (phase_step_dataEnd (.inl hp)) hidle
          | rcvdIsoDataEnd => exact absurd (phase_step_dataEnd (.inr hp)) hidle
        have hn := phase_step_rcvdOut ho (i := i)
        rw [hev.1] at hn
        simp only [Bool.false_eq_true, if_false] at hn
        have hcount : s.out.pe.timeoutCntdown ≠ 0 := by
          intro hz
          rw [hz] at hn
          refine hidle ?_
          rw [hn]
          split_ifs <;> simp_all
        have hlen' := hlen ho
        have hpos : s.out.pe.timeoutCntdown.toNat ≠ 0 := fun hz =>
          hcount (BitVec.eq_of_toNat_eq hz)
        simp only [List.length_cons] at hlen'
        refine ih ?_ hrest ?_ ?_
        · rw [hn]
          split_ifs <;> simp
        · rintro rfl
          simp only [List.length_nil] at hlen'
          omega
        · intro _
          have hpred := Clocked.toNat_pred hcount
          rw [timeoutCntdown_step_rcvdOut ho]
          omega

/-! ### One transaction of the host -/

/-- One attempt of the host to send a payload: the token, the DATA packet, and the time until
its next transaction. `reply` is the handshake it receives, if any. -/
structure Attempt (N : ℕ) where
  token : Slot N
  gap : List (Input N)
  data : Slot N
  wait : List (Input N)
  reply : Option (BitVec 4)

def Attempt.cycles (a : Attempt N) : List (Input N) :=
  a.token.cycles ++ (a.gap ++ (a.data.cycles ++ a.wait))

/-- The attempt sends `payload` to endpoint `e` with DATA toggle `toggle`: each packet that
arrives is what the host sent or corrupted, and without a handshake the host waits longer
than `AckTimeoutCnt` cycles. -/
structure Attempt.Sends (a : Attempt N) (e : Fin N) (toggle : Bool) (payload : List (BitVec 8)) :
    Prop where
  regular : ∀ i ∈ a.cycles, Regular e i
  gap : ∀ i ∈ a.gap, NoEvent i
  wait : ∀ i ∈ a.wait, NoEvent i
  token : ∀ p, a.token = .arrived p → p.Corrupted ∨ p.OutToken e
  data : ∀ p, a.data = .arrived p → p.Corrupted ∨ p.Carries toggle payload
  endp : ∀ p q, a.token = .arrived p → p.OutToken e → a.data = .arrived q →
    q.Carries toggle payload → q.last.rx.endp.toNat = e.val
  settled : a.wait ≠ []
  timeout : a.reply = none → 68 < a.wait.length

/-- The engine waits for the data of an OUT transaction on endpoint `e`. -/
structure Expecting (e : Fin N) (s : State N) : Prop where
  rcvdOut : phase s = .rcvdOut
  current : s.out.pe.outEpCurrent = e
  notSetup : s.out.pe.currentXactSetup = false
  countdown : s.out.pe.timeoutCntdown.toNat ≤ 68

/-- A packet that opens nothing, met between transactions. -/
theorem packet_idle (p : Packet N) (h : Still e τ D t) (hidle : phase t.dev = .idle)
    (hr : ∀ i ∈ p.cycles, Regular e i)
    (hno : p.last.rx.tokenReceived p.last.cfg.devAddr = false) :
    Still e τ D (run (Tap.step e) t p.cycles) ∧ phase (run step t.dev p.cycles) = .idle ∧
      answers t.dev p.cycles = [] := by
  have hfront : ∀ i ∈ p.front, Regular e i ∧ i.rx.pktEnd = false := fun i hi =>
    ⟨hr i (by simp [Packet.cycles, hi]), p.front_pktEnd i hi⟩
  obtain ⟨hstill, -, hans⟩ := still_run p.front h (.inl hidle) hfront
  have hidle' := phase_run_noEvent_idle hidle p.front p.front_pktEnd
  have hlast := hr p.last (by simp [Packet.cycles])
  rw [Packet.cycles, run_append, run_append, answers_append, hans]
  rw [← run_tap_dev e] at hidle' ⊢
  generalize run (Tap.step e) t p.front = t' at *
  refine ⟨hstill.step hlast (rxWvalid_eq_false _ (by simp [hidle'])) (by simp [hno]), ?_, ?_⟩
  · rcases phase_step_idle_end hidle' (i := p.last) with hn | ⟨-, hx⟩
    · exact hn
    · have hs' : t'.dev.out.pe.outXactState = .idle := hidle'
      simp [OutPe.comb, hs', OutPe.Input.outTokenReceived, OutPe.Input.setupTokenReceived] at hx
      have : (peInput t'.dev p.last).devAddr = p.last.cfg.devAddr := rfl
      simp [this, hno] at hx
  · simp [answers, outTx_eq_none (.inl hidle')]

/-- The token of the host, met between transactions. -/
theorem packet_token (p : Packet N) (h : Still e τ D t) (hidle : phase t.dev = .idle)
    (hr : ∀ i ∈ p.cycles, Regular e i) (htok : p.OutToken e) :
    Still e τ D (run (Tap.step e) t p.cycles) ∧ Expecting e (run step t.dev p.cycles) ∧
      answers t.dev p.cycles = [] := by
  have hfront : ∀ i ∈ p.front, Regular e i ∧ i.rx.pktEnd = false := fun i hi =>
    ⟨hr i (by simp [Packet.cycles, hi]), p.front_pktEnd i hi⟩
  obtain ⟨hstill, -, hans⟩ := still_run p.front h (.inl hidle) hfront
  have hidle' := phase_run_noEvent_idle hidle p.front p.front_pktEnd
  have hlast := hr p.last (by simp [Packet.cycles])
  obtain ⟨hvalid, hpid, hendp⟩ := htok
  rw [Packet.cycles, run_append, run_append, answers_append, hans]
  rw [← run_tap_dev e] at hidle' ⊢
  generalize run (Tap.step e) t p.front = t' at *
  have hs' : t'.dev.out.pe.outXactState = .idle := hidle'
  have hcur := RxSignals.epCurrentD_eq hendp
  have hactive : (peInput t'.dev p.last).epActive = true := by
    simp only [OutPe.Input.epActive, peInput_rx, hcur, RxSignals.epInHw_of_eq hendp, Bool.and_true]
    exact hlast.enabled
  have hout : (peInput t'.dev p.last).outTokenReceived = true := by
    simp only [OutPe.Input.outTokenReceived, Bool.and_eq_true, beq_iff_eq]
    exact ⟨hvalid, hpid⟩
  have hsetup : (peInput t'.dev p.last).setupTokenReceived = false := by
    simp [OutPe.Input.setupTokenReceived, hpid, usbPidOut, usbPidSetup]
  have hcomb : OutPe.comb t'.dev.out.pe (peInput t'.dev p.last) =
      { stateNext := .rcvdOut, xactStart := true } := by
    simp [OutPe.comb, hs', hactive, hout]
  refine ⟨hstill.step hlast (rxWvalid_eq_false _ (by simp [hidle'])) ?_, ?_, ?_⟩
  · simp [hpid, usbPidOut, usbPidSetup]
  · constructor
    · simp [phase_step, hcomb, hlast.linkReset]
    · simp [step_pe, OutPe.step, hcomb, hcur]
    · simp [step_pe, OutPe.step, hcomb, hsetup]
    · simp [timeoutCntdown_step, hcomb, OutPe.ackTimeoutCnt]
  · simp [answers, outTx_eq_none (.inl hidle')]

/-- The engine receives the data of an OUT transaction on endpoint `e`; `L` has been
strobed. -/
structure Incoming (e : Fin N) (L : List (BitVec 8)) (t : Tap N) : Prop where
  dataStart : phase t.dev = .rcvdDataStart
  current : t.dev.out.pe.outEpCurrent = e
  notSetup : t.dev.out.pe.currentXactSetup = false
  bytes : t.bytes = L

theorem incoming_start {i : Input N} (h : Expecting e t.dev) (hr : Regular e i)
    (hst : i.rx.pktStart = true) (he : i.rx.pktEnd = false) : Incoming e [] (t.step e i) := by
  obtain ⟨-, hcur, hx⟩ := OutPe.step_of_not_end (i := peInput t.dev i) he t.dev.out.pe
  constructor
  · have : phase (t.step e i).dev = phase (step t.dev i) := rfl
    rw [this, phase_step_rcvdOut h.rcvdOut]
    simp [hr.linkReset, hst]
  · exact hcur.trans h.current
  · exact hx.trans h.notSetup
  · simp [Tap.step, h.rcvdOut]

theorem incoming_body {L : List (BitVec 8)} (h : Incoming e L t) (is : List (Input N))
    (hi : ∀ i ∈ is, Regular e i ∧ i.rx.pktEnd = false) :
    Incoming e (L ++ strobes is) (run (Tap.step e) t is) := by
  induction is generalizing t L with
  | nil => simpa [strobes] using h
  | cons i is ih =>
      obtain ⟨hr, he⟩ := hi i (by simp)
      obtain ⟨-, hcur, hx⟩ := OutPe.step_of_not_end (i := peInput t.dev i) he t.dev.out.pe
      have hnext : Incoming e (L ++ strobe i) (t.step e i) := by
        constructor
        · have : phase (t.step e i).dev = phase (step t.dev i) := rfl
          rw [this, phase_step_dataStart h.dataStart he]
          simp [hr.linkReset]
        · exact hcur.trans h.current
        · exact hx.trans h.notSetup
        · simp [Tap.step, h.dataStart, h.bytes]
      have := ih hnext fun j hj => hi j (by simp [hj])
      simpa [strobes, List.append_assoc] using this

/-- What the end of a packet leads to while the engine receives data. -/
inductive DataOutcome (e : Fin N) (τ : Bool) (D : List (List (BitVec 8))) (toggle : Bool)
    (payload : List (BitVec 8)) (t : Tap N) (answer : Option (BitVec 4)) : Prop
  /-- A corrupted packet is dropped. -/
  | dropped : Still e τ D t → phase t.dev = .idle → answer = none →
      DataOutcome e τ D toggle payload t answer
  /-- A repeated packet is acknowledged and dropped. -/
  | repeated : Still e τ D t → phase t.dev = .idle → toggle ≠ τ →
      DataOutcome e τ D toggle payload t answer
  /-- A new packet is considered in the next cycle. -/
  | new : Still e τ D t → phase t.dev = .rcvdDataEnd → answer = none → toggle = τ →
      t.dev.out.pe.outEpCurrent = e → t.dev.out.pe.currentXactSetup = false →
      t.bytes.take (t.bytes.length - 2) = payload → DataOutcome e τ D toggle payload t answer

theorem pid_dataPid (toggle : Bool) : (InPe.dataPid toggle).getLsbD 3 = toggle := by
  cases toggle <;> decide

theorem not_token_of_dataPid {rx : RxSignals} {toggle : Bool} (h : rx.pid = InPe.dataPid toggle)
    (d : BitVec 7) : rx.tokenReceived d = false := by
  have : pidType rx.pid ≠ usbPidTypeToken := by rw [h]; cases toggle <;> decide
  simp [RxSignals.tokenReceived, this]

theorem data_last {L payload : List (BitVec 8)} {toggle : Bool} (h : Still e τ D t)
    (hin : Incoming e L t) (hr : Regular e i) (he : i.rx.pktEnd = true)
    (hdata : i.rx.pktValid = false ∨ i.rx.pktValid = true ∧ i.rx.pid = InPe.dataPid toggle ∧
      i.rx.endp.toNat = e.val ∧ ∃ c₁ c₂, L ++ strobe i = payload ++ [c₁, c₂]) :
    DataOutcome e τ D toggle payload (t.step e i) (outTx t.dev i) := by
  have hs : t.dev.out.pe.outXactState = .rcvdDataStart := hin.dataStart
  have hack : rxWvalid t.dev i = false := rxWvalid_eq_false i (by simp [hin.dataStart])
  have hphase : phase (t.step e i).dev =
      (OutPe.comb t.dev.out.pe (peInput t.dev i)).stateNext := by
    change phase (step t.dev i) = _
    rw [phase_step, hr.linkReset]
    rfl
  have htx : ∀ c, OutPe.comb t.dev.out.pe (peInput t.dev i) = c → c.txPktStart = false →
      outTx t.dev i = none := by
    intro c hc hp
    simp [outTx, outComb_eq, hc, hp]
  rcases hdata with hbad | ⟨hvalid, hpid, hendp, hbytes⟩
  · have htok : i.rx.tokenReceived i.cfg.devAddr = false := by
      simp [RxSignals.tokenReceived, hbad]
    have hcomb : OutPe.comb t.dev.out.pe (peInput t.dev i) =
        { stateNext := .idle, rollback := true } := by
      simp [OutPe.comb, hs, OutPe.badDataToggle, RxSignals.dataPacketReceived, hbad, he,
        OutPe.Input.invalidPacketReceived]
    refine .dropped (h.step hr hack (by simp [htok])) ?_ (htx _ hcomb rfl)
    rw [hphase, hcomb]
  · have hstill := h.step hr hack (by simp [not_token_of_dataPid hpid])
    have hd : i.rx.dataPacketReceived = true := by
      rw [RxSignals.dataPacketReceived, he, hvalid, hpid]
      cases toggle <;> decide
    have hcur := RxSignals.epCurrentD_eq hendp
    have hctl : (peInput t.dev i).epIsControl = false := by
      rw [OutPe.Input.epIsControl, peInput_rx, hcur]
      exact hr.control
    have hiso : (peInput t.dev i).iso t.dev.out.pe.outEpCurrent = false := by
      rw [hin.current]
      exact hr.iso
    have hstall : (peInput t.dev i).stall t.dev.out.pe.outEpCurrent = false := by
      rw [hin.current]
      exact h.outStall
    have hbad : OutPe.badDataToggle t.dev.out.pe (peInput t.dev i) = (toggle != τ) := by
      have hen : (peInput t.dev i).enabled e = true := hr.enabled
      simp only [OutPe.badDataToggle, OutPe.Input.epActive, peInput_rx, hd, hcur,
        RxSignals.epInHw_of_eq hendp, hpid, pid_dataPid, h.toggle, hen, Bool.true_and]
    have hnon : (peInput t.dev i).nonDataPacketReceived = false := by
      have : (i.rx.pid == usbPidData0 || i.rx.pid == usbPidData1) = true := by
        rw [hpid]
        cases toggle <;> decide
      simp only [OutPe.Input.nonDataPacketReceived, peInput_rx, this, Bool.not_true, Bool.and_false]
    have hinv : (peInput t.dev i).invalidPacketReceived = false := by
      simp [OutPe.Input.invalidPacketReceived, hvalid]
    by_cases htog : toggle = τ
    · have hcomb : OutPe.comb t.dev.out.pe (peInput t.dev i) = { stateNext := .rcvdDataEnd } := by
        simp [OutPe.comb, hs, hctl, hiso, hbad, htog, hnon, hinv, hd]
      refine .new hstill ?_ (htx _ hcomb rfl) htog ?_ ?_ ?_
      · rw [hphase, hcomb]
      · change (step t.dev i).out.pe.outEpCurrent = e
        simp [step_pe, OutPe.step, hcomb, hin.current]
      · change (step t.dev i).out.pe.currentXactSetup = false
        simp [step_pe, OutPe.step, hcomb, hin.notSetup]
      · obtain ⟨c₁, c₂, hb⟩ := hbytes
        simp [Tap.step, hin.dataStart, hin.bytes, hb]
    · have hcomb : OutPe.comb t.dev.out.pe (peInput t.dev i) =
          { stateNext := .idle, rollback := true, txPktStart := true, txPid := usbPidAck } := by
        simp [OutPe.comb, hs, hctl, hiso, hbad, htog, hstall]
      refine .repeated hstill ?_ htog
      rw [hphase, hcomb]

/-- The cycle after a new packet: it is delivered and acknowledged, or refused with NAK. -/
theorem data_end (h : Still e τ D t) (hs : phase t.dev = .rcvdDataEnd) (hr : Regular e i)
    (he : i.rx.pktEnd = false) (hcur : t.dev.out.pe.outEpCurrent = e)
    (hx : t.dev.out.pe.currentXactSetup = false) :
    phase (t.step e i).dev = .idle ∧
      (Still e τ D (t.step e i) ∧ outTx t.dev i = some usbPidNak ∨
        Still e (!τ) (D ++ [t.bytes.take (t.bytes.length - 2)]) (t.step e i)) := by
  refine ⟨phase_step_dataEnd (.inl hs), ?_⟩
  have hs' : t.dev.out.pe.outXactState = .rcvdDataEnd := hs
  have hstall : (peInput t.dev i).stall t.dev.out.pe.outEpCurrent = false := by
    rw [hcur]
    exact h.outStall
  by_cases hfull : (t.dev.out.pe.nakOutTransaction ||
      (peInput t.dev i).full t.dev.out.pe.outEpCurrent) = true
  · have hcomb : OutPe.comb t.dev.out.pe (peInput t.dev i) =
        { stateNext := .idle, txPktStart := true, txPid := usbPidNak, rollback := true } := by
      simp only [OutPe.comb, hs', hx, hstall, hfull]
      rfl
    left
    refine ⟨h.step hr ?_ (by simp [he]), ?_⟩
    · rw [rxWvalid_eq, hcomb]
    · simp [outTx, outComb_eq, hcomb]
  · have hcomb : OutPe.comb t.dev.out.pe (peInput t.dev i) =
        { stateNext := .idle, txPktStart := true, txPid := usbPidAck, newPktEnd := true,
          acked := true } := by
      simp only [OutPe.comb, hs', hx, hstall, hfull]
      rfl
    have hack : rxWvalid t.dev i = true := by rw [rxWvalid_eq, hcomb]
    right
    refine ⟨outStall_step hr h.outStall, ?_, ?_⟩
    · change (step t.dev i).out.pe.dataToggle e = !τ
      have hsetup : (peInput t.dev i).setupTokenReceived = false :=
        OutPe.setupTokenReceived_of_not_end (i := peInput t.dev i) he
      have hl : (peInput t.dev i).linkReset = false := hr.linkReset
      simp only [step_pe, OutPe.step, hl, OutPe.dataToggleD, hcomb, hsetup, hcur]
      cases hw : i.sw.outDatatog with
      | none =>
          have hw' : (peInput t.dev i).datatog = none := hw
          simp [hw', h.toggle]
      | some w =>
          have hw' : (peInput t.dev i).datatog = some w := hw
          simp [hw', h.toggle, hr.datatog w hw]
    · have hep : (rxWdata t.dev i).ep = e := hcur
      simp [Tap.step, rxPush_of_acked hack, hep, h.delivered]

/-- Between transactions, or waiting for the data of a transaction on `e`. -/
def Resting (e : Fin N) (s : State N) : Prop := phase s = .idle ∨ Expecting e s

omit [NeZero N] in
theorem Resting.listening {s : State N} (h : Resting e s) : Listening s :=
  h.imp_right fun hx => .inl hx.rcvdOut

/-- Without a packet the engine rests. -/
theorem resting_run {s : State N} (h : Resting e s) (is : List (Input N))
    (hi : ∀ i ∈ is, NoEvent i) : Resting e (run step s is) := by
  refine run_invariant (Resting e) NoEvent ?_ h is hi
  rintro s i ⟨hst, he⟩ (hs | hx)
  · exact .inl (phase_step_idle hs he)
  · by_cases hidle : phase (step s i) = .idle
    · exact .inl hidle
    · obtain ⟨-, hcur, hset⟩ := OutPe.step_of_not_end (i := peInput s i) he s.out.pe
      have hphase := phase_step_rcvdOut hx.rcvdOut (i := i)
      rw [hst] at hphase
      have hn : phase (step s i) = .rcvdOut := by
        rw [hphase] at hidle ⊢
        split_ifs at hidle ⊢ <;> simp_all
      refine .inr ⟨hn, hcur.trans hx.current, hset.trans hx.notSetup, ?_⟩
      exact countsDown_step (fun _ => hx.countdown) i hn

omit [NeZero N] in
theorem not_token_of_corrupted {p : Packet N} (h : p.Corrupted) (d : BitVec 7) :
    p.last.rx.tokenReceived d = false := by
  have : p.last.rx.pktValid = false := h
  simp [RxSignals.tokenReceived, this]

/-- The token of an attempt. -/
theorem attempt_token {a : Attempt N} {toggle : Bool} {payload : List (BitVec 8)}
    (ha : a.Sends e toggle payload) (h : Still e τ D t) (hidle : phase t.dev = .idle) :
    Still e τ D (run (Tap.step e) t a.token.cycles) ∧ answers t.dev a.token.cycles = [] ∧
      (phase (run step t.dev a.token.cycles) = .idle ∨
        Expecting e (run step t.dev a.token.cycles) ∧
          ∀ q, a.data = .arrived q → q.Carries toggle payload →
            q.last.rx.endp.toNat = e.val) := by
  have hr : ∀ i ∈ a.token.cycles, Regular e i := fun i hi =>
    ha.regular i (by simp [Attempt.cycles, hi])
  cases htok : a.token with
  | lost cycles hev =>
      rw [htok] at hr
      obtain ⟨hstill, -, hans⟩ := still_run cycles h (.inl hidle) fun i hi => ⟨hr i hi, (hev i hi).2⟩
      exact ⟨hstill, hans, .inl (phase_run_noEvent_idle hidle cycles fun i hi => (hev i hi).2)⟩
  | arrived p =>
      rw [htok] at hr
      rcases ha.token p htok with hbad | hout
      · obtain ⟨hstill, hph, hans⟩ := packet_idle p h hidle hr (not_token_of_corrupted hbad _)
        exact ⟨hstill, hans, .inl hph⟩
      · obtain ⟨hstill, hexp, hans⟩ := packet_token p h hidle hr hout
        exact ⟨hstill, hans, .inr ⟨hexp, fun q => ha.endp p q htok hout⟩⟩

/-- The DATA packet of an attempt that finds the engine between transactions, or is lost. -/
theorem attempt_data_missed {a : Attempt N} {toggle : Bool} {payload : List (BitVec 8)}
    (ha : a.Sends e toggle payload) (h : Still e τ D t) (hrest : Resting e t.dev)
    (hmiss : phase t.dev = .idle ∨ ∃ cycles hev, a.data = .lost cycles hev) :
    Still e τ D (run (Tap.step e) t a.data.cycles) ∧ answers t.dev a.data.cycles = [] ∧
      Resting e (run step t.dev a.data.cycles) := by
  have hr : ∀ i ∈ a.data.cycles, Regular e i := fun i hi =>
    ha.regular i (by simp [Attempt.cycles, hi])
  cases hdata : a.data with
  | lost cycles hev =>
      rw [hdata] at hr
      obtain ⟨hstill, -, hans⟩ := still_run cycles h hrest.listening
        fun i hi => ⟨hr i hi, (hev i hi).2⟩
      exact ⟨hstill, hans, resting_run hrest cycles hev⟩
  | arrived p =>
      rw [hdata] at hr
      have hidle : phase t.dev = .idle := by
        rcases hmiss with hidle | ⟨_, _, hlost⟩
        · exact hidle
        · rw [hdata] at hlost
          cases hlost
      have hno : p.last.rx.tokenReceived p.last.cfg.devAddr = false := by
        rcases ha.data p hdata with hbad | hcarries
        · exact not_token_of_corrupted hbad _
        · exact not_token_of_dataPid hcarries.2.1 _
      obtain ⟨hstill, hph, hans⟩ := packet_idle p h hidle hr hno
      exact ⟨hstill, hans, .inl hph⟩

/-- The DATA packet of an attempt whose token was received. -/
theorem attempt_data_arrived {a : Attempt N} {toggle : Bool} {payload : List (BitVec 8)}
    (ha : a.Sends e toggle payload) (h : Still e τ D t) (hexp : Expecting e t.dev) {p : Packet N}
    (hp : a.data = .arrived p)
    (hendp : p.Carries toggle payload → p.last.rx.endp.toNat = e.val) :
    ∃ answer, DataOutcome e τ D toggle payload (run (Tap.step e) t p.cycles) answer ∧
      answers t.dev p.cycles = answer.toList := by
  have hr : ∀ i ∈ p.cycles, Regular e i := fun i hi =>
    ha.regular i (by simp [Attempt.cycles, hp, Slot.cycles, hi])
  have hstart := incoming_start (t := t) hexp (hr p.start (by simp [Packet.cycles, Packet.front]))
    p.start_pktStart p.start_pktEnd
  have hbody := incoming_body hstart p.body fun i hi =>
    ⟨hr i (by simp [Packet.cycles, Packet.front, hi]), p.body_pktEnd i hi⟩
  obtain ⟨hstill, -, hans⟩ := still_run p.front h (.inr (.inl hexp.rcvdOut)) fun i hi =>
    ⟨hr i (by simp [Packet.cycles, hi]), p.front_pktEnd i hi⟩
  have hfront : run (Tap.step e) (t.step e p.start) p.body = run (Tap.step e) t p.front := rfl
  rw [hfront, List.nil_append] at hbody
  refine ⟨outTx (run step t.dev p.front) p.last, ?_, ?_⟩
  · have hdata : p.last.rx.pktValid = false ∨ p.last.rx.pktValid = true ∧
        p.last.rx.pid = InPe.dataPid toggle ∧ p.last.rx.endp.toNat = e.val ∧
        ∃ c₁ c₂, strobes p.body ++ strobe p.last = payload ++ [c₁, c₂] := by
      rcases ha.data p hp with hbad | hcarries
      · exact .inl hbad
      · have hep := hendp hcarries
        obtain ⟨hvalid, hpid, hput, c₁, c₂, hbytes⟩ := hcarries
        refine .inr ⟨hvalid, hpid, hep, c₁, c₂, ?_⟩
        rw [← hbytes]
        simp [strobes, Packet.cycles, Packet.front, strobe, hput]
    have hout := data_last hstill hbody (hr p.last (by simp [Packet.cycles])) p.last_pktEnd hdata
    rw [run_tap_dev] at hout
    rw [Packet.cycles, run_append]
    exact hout
  · rw [Packet.cycles, answers_append, hans]
    simp [answers]

/-- After an attempt the engine is between transactions, and the attempt was either without
effect and, with the expected toggle, without an ACK, or it delivered the payload. -/
inductive AttemptOutcome (e : Fin N) (τ : Bool) (D : List (List (BitVec 8))) (toggle : Bool)
    (payload : List (BitVec 8)) (t : Tap N) (answers : List (BitVec 4)) : Prop
  | nothing : Still e τ D t → phase t.dev = .idle → (toggle = τ → usbPidAck ∉ answers) →
      AttemptOutcome e τ D toggle payload t answers
  | delivered : Still e (!τ) (D ++ [payload]) t → phase t.dev = .idle → toggle = τ →
      AttemptOutcome e τ D toggle payload t answers

/-- Nothing happens between two transactions. -/
theorem idle_wait (is : List (Input N)) (h : Still e τ D t) (hidle : phase t.dev = .idle)
    (hr : ∀ i ∈ is, Regular e i) (hi : ∀ i ∈ is, NoEvent i) :
    Still e τ D (run (Tap.step e) t is) ∧ phase (run step t.dev is) = .idle ∧
      answers t.dev is = [] := by
  obtain ⟨hstill, -, hans⟩ := still_run is h (.inl hidle) fun i hi' => ⟨hr i hi', (hi i hi').2⟩
  exact ⟨hstill, phase_run_noEvent_idle hidle is fun i hi' => (hi i hi').2, hans⟩

/-- The rest of an attempt that finds no open transaction at its data, or loses the data. -/
theorem attempt_missed {a : Attempt N} {toggle : Bool} {payload : List (BitVec 8)}
    (ha : a.Sends e toggle payload) (h : Still e τ D t) (hrest : Resting e t.dev)
    (hmiss : phase t.dev = .idle ∨ ∃ cycles hev, a.data = .lost cycles hev) :
    Still e τ D (run (Tap.step e) t (a.data.cycles ++ a.wait)) ∧
      answers t.dev (a.data.cycles ++ a.wait) = [] ∧
      (68 < a.wait.length → phase (run step t.dev (a.data.cycles ++ a.wait)) = .idle) := by
  obtain ⟨hstill, hans, hrest'⟩ := attempt_data_missed ha h hrest hmiss
  rw [← run_tap_dev e] at hrest'
  obtain ⟨hstill', -, hans'⟩ := still_run a.wait hstill hrest'.listening fun i hi =>
    ⟨ha.regular i (by simp [Attempt.cycles, hi]), (ha.wait i hi).2⟩
  rw [run_append, run_append, answers_append, hans, ← run_tap_dev e]
  refine ⟨hstill', hans', fun hlen => ?_⟩
  rcases hrest' with hidle | hexp
  · exact phase_run_noEvent_idle hidle a.wait fun i hi => (ha.wait i hi).2
  · refine phase_run_wait a.wait (by simp [hexp.rcvdOut]) ha.wait ha.settled fun _ => ?_
    have := hexp.countdown
    omega

/-- The rest of an attempt whose data arrives in an open transaction. -/
theorem attempt_arrived {a : Attempt N} {toggle : Bool} {payload : List (BitVec 8)}
    (ha : a.Sends e toggle payload) (h : Still e τ D t) (hexp : Expecting e t.dev) {p : Packet N}
    (hp : a.data = .arrived p)
    (hendp : p.Carries toggle payload → p.last.rx.endp.toNat = e.val) :
    AttemptOutcome e τ D toggle payload (run (Tap.step e) t (p.cycles ++ a.wait))
      (answers t.dev (p.cycles ++ a.wait)) := by
  obtain ⟨answer, hout, hans⟩ := attempt_data_arrived ha h hexp hp hendp
  have hr : ∀ i ∈ a.wait, Regular e i := fun i hi =>
    ha.regular i (by simp [Attempt.cycles, hi])
  have hwait := ha.wait
  rw [run_append, answers_append, hans, ← run_tap_dev e]
  generalize run (Tap.step e) t p.cycles = t' at hout ⊢
  cases hout with
  | dropped hstill hidle hnone =>
      obtain ⟨hstill', hidle', hans'⟩ := idle_wait a.wait hstill hidle hr hwait
      rw [← run_tap_dev e] at hidle'
      exact .nothing hstill' hidle' fun _ => by simp [hans', hnone]
  | repeated hstill hidle htog =>
      obtain ⟨hstill', hidle', hans'⟩ := idle_wait a.wait hstill hidle hr hwait
      rw [← run_tap_dev e] at hidle'
      exact .nothing hstill' hidle' fun h => absurd h htog
  | new hstill hend hnone htog hcur hset hbytes =>
      -- the first cycle of the wait decides
      obtain ⟨i, is, hsplit⟩ := List.exists_cons_of_ne_nil ha.settled
      rw [hsplit] at hr hwait ⊢
      have hi := hwait i (by simp)
      have hrest : ∀ j ∈ is, NoEvent j := fun j hj => hwait j (by simp [hj])
      have hregular : ∀ j ∈ is, Regular e j := fun j hj => hr j (by simp [hj])
      obtain ⟨hidle, ⟨hstill', hnak⟩ | hstill'⟩ :=
        data_end hstill hend (hr i (by simp)) hi.2 hcur hset
      · obtain ⟨hstill'', hidle', hans'⟩ := idle_wait is hstill' hidle hregular hrest
        rw [← run_tap_dev e] at hidle'
        refine .nothing hstill'' hidle' fun _ => ?_
        have htail : answers (step t'.dev i) is = [] := hans'
        unfold answers at htail
        simp [answers, hnone, hnak, htail, usbPidAck, usbPidNak]
      · rw [hbytes] at hstill'
        obtain ⟨hstill'', hidle', -⟩ := idle_wait is hstill' hidle hregular hrest
        rw [← run_tap_dev e] at hidle'
        exact .delivered hstill'' hidle' htog

/-- One attempt of the host. -/
theorem attempt_outcome {a : Attempt N} {toggle : Bool} {payload : List (BitVec 8)}
    (ha : a.Sends e toggle payload) (h : Still e τ D t) (hidle : phase t.dev = .idle)
    (hreply : ∀ pid, a.reply = some pid → pid ∈ answers t.dev a.cycles) :
    AttemptOutcome e τ D toggle payload (run (Tap.step e) t a.cycles)
      (answers t.dev a.cycles) := by
  obtain ⟨hstill, hans, hopen⟩ := attempt_token ha h hidle
  have hr : ∀ i ∈ a.gap, Regular e i := fun i hi => ha.regular i (by simp [Attempt.cycles, hi])
  have hrest : Resting e (run step t.dev a.token.cycles) := hopen.imp_right And.left
  have hgap := resting_run hrest a.gap ha.gap
  rw [← run_tap_dev e] at hrest
  obtain ⟨hstill', -, hans'⟩ := still_run a.gap hstill hrest.listening
    fun i hi => ⟨hr i hi, (ha.gap i hi).2⟩
  rw [run_tap_dev] at hans'
  have hanswers : answers t.dev a.cycles =
      answers (run step t.dev (a.token.cycles ++ a.gap)) (a.data.cycles ++ a.wait) := by
    rw [Attempt.cycles, answers_append, answers_append, hans, hans', run_append]
    rfl
  have hrun : run (Tap.step e) t a.cycles =
      run (Tap.step e) (run (Tap.step e) t (a.token.cycles ++ a.gap))
        (a.data.cycles ++ a.wait) := by
    simp only [Attempt.cycles, run_append]
  rw [hanswers, ← run_tap_dev e] at hreply ⊢
  rw [hrun]
  rw [← run_append, ← run_tap_dev e] at hgap
  rw [← run_append] at hstill'
  have hendp : phase (run (Tap.step e) t (a.token.cycles ++ a.gap)).dev = .idle ∨
      ∀ q, a.data = .arrived q → q.Carries toggle payload →
        q.last.rx.endp.toNat = e.val := by
    rcases hopen with hi | ⟨-, hendp⟩
    · left
      rw [run_tap_dev, run_append]
      exact phase_run_noEvent_idle hi a.gap fun i hi' => (ha.gap i hi').2
    · exact .inr hendp
  generalize run (Tap.step e) t (a.token.cycles ++ a.gap) = t' at *
  by_cases hmiss : phase t'.dev = .idle ∨ ∃ cycles hev, a.data = .lost cycles hev
  · obtain ⟨hstill'', hnone, hend⟩ := attempt_missed ha hstill' hgap hmiss
    have hlen : 68 < a.wait.length := by
      refine ha.timeout ?_
      cases hrep : a.reply with
      | none => rfl
      | some pid =>
          have := hreply pid hrep
          simp [hnone] at this
    refine .nothing hstill'' ?_ fun _ => by simp [hnone]
    rw [run_tap_dev]
    exact hend hlen
  · simp only [not_or, not_exists] at hmiss
    obtain ⟨hopen', hlost⟩ := hmiss
    cases hdata : a.data with
    | lost cycles hev => exact absurd hdata (hlost cycles hev)
    | arrived p =>
        exact attempt_arrived ha hstill' (hgap.resolve_left hopen') hdata
          (hendp.resolve_left hopen' p hdata)

/-! ### Traffic in between -/

/-- A packet that is not for `e`, and the time after it. -/
structure Stray (N : ℕ) where
  slot : Slot N
  gap : List (Input N)

def Stray.cycles (x : Stray N) : List (Input N) := x.slot.cycles ++ x.gap

/-- The traffic passes endpoint `e`. -/
structure Stray.Passes (x : Stray N) (e : Fin N) : Prop where
  regular : ∀ i ∈ x.cycles, Regular e i
  foreign : ∀ i ∈ x.cycles, Foreign e i
  gap : ∀ i ∈ x.gap, NoEvent i

/-- After the traffic the transaction it may have opened is over: its last packet is followed
by more than `AckTimeoutCnt` cycles, or is no token. -/
def Stray.Settled (x : Stray N) : Prop :=
  x.gap ≠ [] ∧ (68 < x.gap.length ∨
    ∃ p, x.slot = .arrived p ∧ p.last.rx.tokenReceived p.last.cfg.devAddr = false)

/-- Between transactions, or in one of another endpoint. -/
def Elsewhere (e : Fin N) (s : State N) : Prop := phase s = .idle ∨ s.out.pe.outEpCurrent ≠ e

/-- The endpoint of a transaction that opens with a token for another endpoint. -/
theorem current_of_xactStart {s : State N} (hf : Foreign e i)
    (hx : (OutPe.comb s.out.pe (peInput s i)).xactStart = true) :
    (step s i).out.pe.outEpCurrent ≠ e := by
  obtain ⟨hactive, hcur, -⟩ := OutPe.step_of_xactStart hx
  have hs := OutPe.idle_of_xactStart hx
  have htok : i.rx.tokenReceived i.cfg.devAddr = true ∧
      (i.rx.pid = usbPidOut ∨ i.rx.pid = usbPidSetup) := by
    simp only [OutPe.comb, hs] at hx
    split_ifs at hx with hc
    simp only [OutPe.Input.outTokenReceived, OutPe.Input.setupTokenReceived, Bool.and_eq_true,
      Bool.or_eq_true, beq_iff_eq] at hc
    rcases hc.2 with h | h
    · exact ⟨h.1, .inl h.2⟩
    · exact ⟨h.1.1, .inr h.1.2⟩
  have hne := hf htok.1 htok.2
  simp only [OutPe.Input.epActive, Bool.and_eq_true, peInput_rx] at hactive
  have hhw := (RxSignals.epInHw_iff _).1 hactive.2
  rw [step_pe, hcur, peInput_rx, RxSignals.epCurrentD_of_lt _ hhw]
  rintro rfl
  exact hne rfl

theorem elsewhere_step {s : State N} (h : Elsewhere e s) (hf : Foreign e i) :
    Elsewhere e (step s i) := by
  by_cases hx : (OutPe.comb s.out.pe (peInput s i)).xactStart = true
  · exact .inr (current_of_xactStart hf hx)
  · have hcur : (step s i).out.pe.outEpCurrent = s.out.pe.outEpCurrent := by
      simp [step_pe, OutPe.step, hx]
    rcases h with hs | hne
    · rcases phase_step_idle_end hs (i := i) with hi | ⟨-, hx'⟩
      · exact .inl hi
      · exact absurd hx' hx
    · exact .inr (by rwa [hcur])

/-- Traffic elsewhere delivers nothing for `e`. -/
theorem elsewhere_run (is : List (Input N)) (h : Still e τ D t) (hel : Elsewhere e t.dev)
    (hi : ∀ i ∈ is, Regular e i ∧ Foreign e i) :
    Still e τ D (run (Tap.step e) t is) ∧ Elsewhere e (run step t.dev is) := by
  rw [← run_tap_dev e]
  refine run_invariant (fun t => Still e τ D t ∧ Elsewhere e t.dev) _ ?_ ⟨h, hel⟩ is hi
  rintro t i ⟨hr, hf⟩ ⟨hstill, hel⟩
  refine ⟨hstill.step_elsewhere hr (fun hack => ?_) fun htok hpid => hf htok (.inr hpid),
    elsewhere_step hel hf⟩
  rcases hel with hs | hne
  · rw [rxWvalid_eq_false i (by simp [hs])] at hack
    cases hack
  · exact hne

/-- After the end of a packet that is no token no transaction waits for data. -/
theorem phase_packet_of_not_token (s : State N) (p : Packet N)
    (h : p.last.rx.tokenReceived p.last.cfg.devAddr = false) :
    phase (run step s p.cycles) ≠ .rcvdOut := by
  rw [Packet.cycles, run_append, run_cons, run_nil]
  rcases phase_front s p with hs | hs
  · rcases phase_step_idle_end hs (i := p.last) with hn | ⟨-, hx⟩
    · simp [hn]
    · have hs' : (run step s p.front).out.pe.outXactState = .idle := hs
      simp [OutPe.comb, hs', OutPe.Input.outTokenReceived, OutPe.Input.setupTokenReceived] at hx
      have hd : (peInput (run step s p.front) p.last).devAddr = p.last.cfg.devAddr := rfl
      simp [hd, h] at hx
  · rcases phase_step_dataStart_end hs p.last_pktEnd with h | h | h <;> simp [h]

theorem phase_run_noEvent {s : State N} (hs : phase s ≠ .rcvdDataStart) (is : List (Input N))
    (hi : ∀ i ∈ is, NoEvent i) : phase (run step s is) ≠ .rcvdDataStart := by
  refine run_invariant (fun s => phase s ≠ .rcvdDataStart) NoEvent ?_ hs is hi
  intro s i hev hs
  cases hp : phase s with
  | idle => simp [phase_step_idle hp hev.2]
  | rcvdOut =>
      simp only [phase_step_rcvdOut hp, hev.1, Bool.false_eq_true, if_false]
      split_ifs <;> simp
  | rcvdDataStart => exact absurd hp hs
  | rcvdDataEnd => simp [phase_step_dataEnd (.inl hp)]
  | rcvdIsoDataEnd => simp [phase_step_dataEnd (.inr hp)]

/-- After a slot the engine no longer receives data. -/
theorem phase_slot {s : State N} (hs : phase s ≠ .rcvdDataStart) (x : Slot N) :
    phase (run step s x.cycles) ≠ .rcvdDataStart := by
  cases x with
  | lost cycles hev => exact phase_run_noEvent hs cycles hev
  | arrived p => exact phase_packet s p

/-- What holds between the packets of passing traffic. -/
structure Passed (e : Fin N) (τ : Bool) (D : List (List (BitVec 8))) (t : Tap N) : Prop where
  still : Still e τ D t
  elsewhere : Elsewhere e t.dev
  notData : phase t.dev ≠ .rcvdDataStart
  countsDown : CountsDown t.dev

theorem Passed.slot (h : Passed e τ D t) {x : Stray N} (hx : x.Passes e) :
    Passed e τ D (run (Tap.step e) t x.slot.cycles) := by
  obtain ⟨hstill, hel⟩ := elsewhere_run x.slot.cycles h.still h.elsewhere fun i hi =>
    ⟨hx.regular i (by simp [Stray.cycles, hi]), hx.foreign i (by simp [Stray.cycles, hi])⟩
  rw [← run_tap_dev e] at hel
  refine ⟨hstill, hel, ?_, ?_⟩
  · rw [run_tap_dev]
    exact phase_slot h.notData x.slot
  · rw [run_tap_dev]
    exact run_invariant CountsDown (fun _ => True) (fun _ i _ h => countsDown_step h i)
      h.countsDown _ fun _ _ => trivial

theorem Passed.gap (h : Passed e τ D t) {x : Stray N} (hx : x.Passes e) :
    Passed e τ D (run (Tap.step e) t x.gap) := by
  obtain ⟨hstill, hel⟩ := elsewhere_run x.gap h.still h.elsewhere fun i hi =>
    ⟨hx.regular i (by simp [Stray.cycles, hi]), hx.foreign i (by simp [Stray.cycles, hi])⟩
  rw [← run_tap_dev e] at hel
  refine ⟨hstill, hel, ?_, ?_⟩
  · rw [run_tap_dev]
    exact phase_run_noEvent h.notData x.gap hx.gap
  · rw [run_tap_dev]
    exact run_invariant CountsDown (fun _ => True) (fun _ i _ h => countsDown_step h i)
      h.countsDown _ fun _ _ => trivial

/-- After settled traffic the engine is between transactions. -/
theorem Passed.settled (h : Passed e τ D t) {x : Stray N} (hx : x.Passes e) (hset : x.Settled) :
    phase (run step t.dev x.cycles) = .idle := by
  have hslot := h.slot hx
  obtain ⟨hne, hend⟩ := hset
  rw [Stray.cycles, run_append, ← run_tap_dev e]
  refine phase_run_wait x.gap hslot.notData hx.gap hne fun ho => ?_
  rcases hend with hlen | ⟨p, hp, hno⟩
  · have := hslot.countsDown ho
    omega
  · rw [run_tap_dev, hp] at ho
    exact absurd ho (phase_packet_of_not_token t.dev p hno)

/-- Traffic that passes the endpoint. -/
theorem traffic_passed (xs : List (Stray N)) (h : Passed e τ D t)
    (hx : ∀ x ∈ xs, x.Passes e) :
    Passed e τ D (run (Tap.step e) t (xs.flatMap Stray.cycles)) := by
  induction xs generalizing t with
  | nil => exact h
  | cons x xs ih =>
      have hpass := hx x (by simp)
      have hnext := (h.slot hpass).gap hpass
      rw [← run_append] at hnext
      rw [List.flatMap_cons, run_append]
      exact ih hnext fun y hy => hx y (by simp [hy])

/-- Settled traffic leaves the endpoint as it was, between transactions. -/
theorem traffic_outcome (xs : List (Stray N)) (h : Still e τ D t) (hidle : phase t.dev = .idle)
    (hx : ∀ x ∈ xs, x.Passes e) (hset : ∀ x ∈ xs.getLast?, x.Settled) :
    Still e τ D (run (Tap.step e) t (xs.flatMap Stray.cycles)) ∧
      phase (run step t.dev (xs.flatMap Stray.cycles)) = .idle := by
  have hpassed : Passed e τ D t :=
    ⟨h, .inl hidle, by simp [hidle], fun ho => by simp [hidle] at ho⟩
  refine ⟨(traffic_passed xs hpassed hx).still, ?_⟩
  induction xs using List.reverseRecOn with
  | nil => exact hidle
  | append_singleton xs x =>
      have hpre := traffic_passed xs hpassed fun y hy => hx y (by simp [hy])
      rw [List.flatMap_append, run_append, ← run_tap_dev e, List.flatMap_singleton]
      exact hpre.settled (hx x (by simp)) (hset x (by simp))

/-! ### Runs of the host -/

/-- The host: how many payloads it has seen acknowledged, and its toggle for the next. -/
structure Host where
  acked : ℕ
  toggle : Bool

/-- What the host does next: it tries to send the current payload, or the bus is used for
something else. -/
inductive Turn (N : ℕ) where
  | attempt (a : Attempt N)
  | traffic (xs : List (Stray N))

def Turn.cycles : Turn N → List (Input N)
  | attempt a => a.cycles
  | traffic xs => xs.flatMap Stray.cycles

/-- Only an ACK that it receives moves the host to the next payload. -/
def Host.next (h : Host) : Turn N → Host
  | .attempt a => if a.reply = some usbPidAck then ⟨h.acked + 1, !h.toggle⟩ else h
  | .traffic _ => h

structure Session (N : ℕ) where
  tap : Tap N
  host : Host

/-- A host whose toggle agrees with the device, with nothing sent. -/
def Session.start (e : Fin N) (dev : State N) : Session N where
  tap := ⟨dev, [], []⟩
  host := ⟨0, dev.out.pe.dataToggle e⟩

def Session.step (e : Fin N) (s : Session N) (turn : Turn N) : Session N where
  tap := run (Tap.step e) s.tap turn.cycles
  host := s.host.next turn

/-- The turns of a host that sends `payloads` to endpoint `e`. A handshake it receives has
been sent. -/
def Session.Permits (e : Fin N) (payloads : List (List (BitVec 8))) (s : Session N) :
    Turn N → Prop
  | .attempt a =>
      (∃ payload, payloads[s.host.acked]? = some payload ∧ a.Sends e s.host.toggle payload) ∧
        ∀ pid, a.reply = some pid → pid ∈ answers s.tap.dev a.cycles
  | .traffic xs => (∀ x ∈ xs, x.Passes e) ∧ ∀ x ∈ xs.getLast?, x.Settled

/-- The invariant between two turns: device and host are level when their toggles agree, and
the device is one payload ahead when they do not. -/
structure Session.Level (e : Fin N) (payloads : List (List (BitVec 8))) (s : Session N) :
    Prop where
  idle : phase s.tap.dev = .idle
  outStall : s.tap.dev.outStall e = false
  isPrefix : s.tap.delivered <+: payloads
  length : s.tap.delivered.length =
    s.host.acked + if s.tap.dev.out.pe.dataToggle e = s.host.toggle then 0 else 1

theorem prefix_concat {α : Type*} {l l' : List α} {a : α} (h : l <+: l')
    (ha : l'[l.length]? = some a) : l ++ [a] <+: l' := by
  obtain ⟨r, rfl⟩ := h
  rw [List.getElem?_append_right le_rfl, Nat.sub_self] at ha
  cases r with
  | nil => simp at ha
  | cons b r =>
      simp only [List.getElem?_cons_zero, Option.some.injEq] at ha
      exact ⟨r, by simp [ha]⟩

/-- One turn keeps the invariant, and delivers at most the current payload. -/
theorem Session.Level.step {payloads : List (List (BitVec 8))} {s : Session N}
    (h : s.Level e payloads) {turn : Turn N} (hp : s.Permits e payloads turn) :
    (s.step e turn).Level e payloads ∧
      (s.step e turn).tap.delivered.length ≤ s.host.acked + 1 := by
  have hstill : Still e (s.tap.dev.out.pe.dataToggle e) s.tap.delivered s.tap :=
    ⟨h.outStall, rfl, rfl⟩
  have hlen := h.length
  cases turn with
  | traffic xs =>
      obtain ⟨hpass, hset⟩ := hp
      obtain ⟨hstill', hidle'⟩ := traffic_outcome xs hstill h.idle hpass hset
      rw [← run_tap_dev e] at hidle'
      have hdel : (s.step e (.traffic xs)).tap.delivered = s.tap.delivered := hstill'.delivered
      have htog : (s.step e (.traffic xs)).tap.dev.out.pe.dataToggle e =
        s.tap.dev.out.pe.dataToggle e := hstill'.toggle
      refine ⟨⟨hidle', hstill'.outStall, ?_, ?_⟩, ?_⟩
      · rw [hdel]
        exact h.isPrefix
      · rw [hdel, htog]
        exact hlen
      · rw [hdel, hlen]
        split_ifs <;> omega
  | attempt a =>
      obtain ⟨⟨payload, hpay, hsends⟩, hreply⟩ := hp
      have hout := attempt_outcome hsends hstill h.idle hreply
      have htap : (s.step e (.attempt a)).tap = run (Tap.step e) s.tap a.cycles := rfl
      have hhost : (s.step e (.attempt a)).host =
        if a.reply = some usbPidAck then ⟨s.host.acked + 1, !s.host.toggle⟩ else s.host := rfl
      have hreply' : a.reply = some usbPidAck → usbPidAck ∈ answers s.tap.dev a.cycles :=
        hreply usbPidAck
      rw [← htap] at hout
      cases hout with
      | nothing hstill' hidle' hnoAck =>
          have hdel := hstill'.delivered
          have htog := hstill'.toggle
          refine ⟨⟨hidle', hstill'.outStall, by rw [hdel]; exact h.isPrefix, ?_⟩, ?_⟩
          · rw [hdel, htog, hhost, hlen]
            by_cases hack : a.reply = some usbPidAck
            · -- an ACK without effect confirms what was delivered before
              have hne : s.host.toggle ≠ s.tap.dev.out.pe.dataToggle e :=
                fun heq => hnoAck heq (hreply' hack)
              have heq : s.tap.dev.out.pe.dataToggle e = !s.host.toggle := by
                revert hne
                cases s.host.toggle <;> cases s.tap.dev.out.pe.dataToggle e <;> simp
              simp [hack, heq]
            · simp [hack]
          · rw [hdel, hlen]
            split_ifs <;> omega
      | delivered hstill' hidle' heq =>
          have hdel := hstill'.delivered
          have htog := hstill'.toggle
          have hlevel : s.tap.delivered.length = s.host.acked := by simpa [heq] using hlen
          refine ⟨⟨hidle', hstill'.outStall, ?_, ?_⟩, ?_⟩
          · rw [hdel]
            exact prefix_concat h.isPrefix (by rw [hlevel]; exact hpay)
          · rw [hdel, htog, hhost, ← heq]
            by_cases hack : a.reply = some usbPidAck <;> simp [hack, hlevel]
          · simp [hdel, hlevel]

end UsbDev.Device
