import UsbDev.InDataPath
import UsbDev.Retraction

/-!
# Retransmission of an IN packet

Two IN transactions for one endpoint with no handshake and no change by software
in between. The second packet repeats the first, except that the byte offset is
cleared in `idle` only: a token that meets the engine still waiting for the ACK
finds the offset where the first packet ended.
-/
namespace UsbDev.Device

open Clocked UsbIf

variable {N : ℕ} [NeZero N]

/-- A valid SETUP token for endpoint `e` ends in this cycle. -/
def SetupToken (e : Fin N) (i : Input N) : Prop :=
  i.rx.tokenReceived i.cfg.devAddr = true ∧ i.rx.pid = usbPidSetup ∧ i.rx.endp.toNat = e.val

/-- Software leaves the IN data toggle of `e` alone. -/
def NoToggleWrite (e : Fin N) (i : Input N) : Prop :=
  ∀ w, i.sw.inDatatog = some w → w.2 e = false

/-- Software changes neither the packet armed on `e` nor its buffer `b` nor its toggle, and the
OUT side may not use the buffer. -/
structure Untouched (e : Fin N) (b : BitVec 5) (s : State N) (i : Input N) : Prop where
  configin : configinWd i e = none
  noToggleWrite : NoToggleWrite e i
  noSwWrite : NoSwWrite b i
  notAvailable : NotAvailable b s

variable {s : State N} {i : Input N} {e : Fin N} {b : BitVec 5}

/-- The armed packet stays while it is neither completed nor changed. -/
theorem configin_step (hu : Uninterrupted e s i) (hw : configinWd i e = none) :
    ((step s i).configin e).buffer = (s.configin e).buffer ∧
      ((step s i).configin e).size = (s.configin e).size ∧
      ((step s i).configin e).rdy = (s.configin e).rdy := by
  have hstep : (step s i).configin e = configinD s i e := rfl
  have hclear : clearRdybit s i e = false := by
    have hsetup := hu.noSetup
    have hsent := hu.notSent
    simp only [setSentbit] at hsent
    simp only [clearRdybit, eventLinkReset, hu.linkReset, Bool.false_and, Bool.false_eq_true,
      if_false, hsent]
    split_ifs with h
    · by_contra hne
      simp only [Bool.not_eq_false, beq_iff_eq] at hne
      exact hsetup ⟨h, hne.symm⟩
    · rfl
  rw [hstep]
  simp [configinD, hw, subregRW, hclear]

/-- The IN toggle of `e` stays without a SETUP token, an ACK or a software write for `e`. -/
theorem inToggle_step (hl : i.linkReset = false) (hs : ¬ SetupToken e i)
    (ha : ¬ (inPhase s = .waitAck ∧ (inInputPe s i).ackReceived = true ∧
      s.inp.pe.inEpCurrent = e)) (hw : NoToggleWrite e i) :
    (step s i).inp.pe.dataToggle e = s.inp.pe.dataToggle e := by
  let busy : Fin N → Bool :=
    if (inInputPe s i).setupTokenReceived && (inInputPe s i).epActive then
      Function.update s.inp.pe.dataToggle i.rx.epCurrentD true
    else if s.inp.pe.inXactState == .waitAck && (inInputPe s i).ackReceived then
      Function.update s.inp.pe.dataToggle s.inp.pe.inEpCurrent
        (!s.inp.pe.dataToggle s.inp.pe.inEpCurrent)
    else s.inp.pe.dataToggle
  have hbusy : busy e = s.inp.pe.dataToggle e := by
    simp only [busy]
    split_ifs with hsetup hack
    · simp only [Bool.and_eq_true, InPe.Input.setupTokenReceived, InPe.Input.epActive,
        beq_iff_eq] at hsetup
      obtain ⟨⟨htok, hpid⟩, -, hhw⟩ := hsetup
      have hhw' := (RxSignals.epInHw_iff i.rx).1 hhw
      refine Function.update_of_ne ?_ _ _
      rw [RxSignals.epCurrentD_of_lt _ hhw']
      rintro rfl
      exact hs ⟨htok, hpid, rfl⟩
    · simp only [Bool.and_eq_true, beq_iff_eq] at hack
      exact Function.update_of_ne (fun he => ha ⟨hack.1, hack.2, he.symm⟩) _ _
    · rfl
  have hl' : (inInputPe s i).linkReset = false := hl
  have hpe : (step s i).inp.pe = InPe.step s.inp.pe (inInputPe s i) := rfl
  simp only [hpe, InPe.step, hl', InPe.dataToggleD]
  cases hdt : i.sw.inDatatog with
  | none =>
      have hdt' : (inInputPe s i).datatog = none := hdt
      rw [hdt']
      exact hbusy
  | some w =>
      have hdt' : (inInputPe s i).datatog = some w := hdt
      rw [hdt']
      have hsel : (busy e && !w.2 e || w.1 e && w.2 e) = s.inp.pe.dataToggle e := by
        simp [hw w hdt, hbusy]
      exact hsel

/-- A completed transaction is the one that receives an ACK. -/
theorem not_ack_of_notSent (h : setSentbit s i e = false) :
    ¬ (inPhase s = .waitAck ∧ (inInputPe s i).ackReceived = true ∧
      s.inp.pe.inEpCurrent = e) := by
  rintro ⟨hs, hack, hcur⟩
  have hs' : s.inp.pe.inXactState = .waitAck := hs
  have hend : inEpXactEnd s i = (InPe.comb s.inp.pe (inInputPe s i)).xactEnd := rfl
  have htrue : inEpXactEnd s i = true := by
    rw [hend]
    simp [InPe.comb, hs', hack]
  simp [setSentbit, htrue, hcur] at h

/-- The identifier of a DATA packet of an endpoint that is not isochronous. -/
theorem inTx_of_data (hs : inPhase s = .rcvdIn)
    (hiso : (i.cfg.inIso s.inp.pe.inEpCurrent && !i.cfg.rxenableSetup s.inp.pe.inEpCurrent) = false)
    (hd : inTx s i = some usbPidData0 ∨ inTx s i = some usbPidData1) :
    inTx s i = some (InPe.dataPid (s.inp.pe.dataToggle s.inp.pe.inEpCurrent)) := by
  have hs' : s.inp.pe.inXactState = .rcvdIn := hs
  have htx : inTx s i = if (InPe.comb s.inp.pe (inInputPe s i)).txPktStart then
      some (InPe.comb s.inp.pe (inInputPe s i)).txPid else none := rfl
  have hiso' : (inInputPe s i).iso s.inp.pe.inEpCurrent = false := hiso
  rw [htx] at hd ⊢
  simp only [InPe.comb, hs', hiso'] at hd ⊢
  split_ifs at hd ⊢ <;> simp_all [usbPidStall, usbPidNak, usbPidData0, usbPidData1]

/-! ### The end of the first packet -/

/-- When the transmitter finds nothing left, the engine is done in the next cycle. -/
theorem Stage.sent {src : Source} {strobe : ℕ → Bool} {last t : ℕ}
    (h : Stage src strobe last t s i src.len) (held : Held src s)
    (hi : Serving src.buffer i) (hs : strobe t = true) (ht : t ≤ last) : Sent src (step s i) := by
  have hcalm : ∀ m, Calm strobe last t (m + 1) → False := by
    intro m hm
    have := hm 0 (by omega) (by omega)
    simp [hs] at this
  generalize hk : src.len = k at h
  cases h with
  | fetch _ _ _ hc => exact (hcalm _ hc).elim
  | select _ _ _ _ hc => exact (hcalm _ hc).elim
  | taken _ _ _ hc => exact (hcalm _ hc).elim
  | ready hst hg =>
      rcases (hst.toSending.next held hi hg).1 with ⟨hlt, -⟩ | ⟨-, hsent⟩
      · omega
      · exact hsent
  | done hsent => exact hsent.next hi.not_inToken

section retry
variable (s₀ : State N) (inp : ℕ → Input N) (strobe : ℕ → Bool)

/-- A completely sent DATA packet: at the last byte boundary nothing is offered. -/
structure SentPacket (T last : ℕ) : Prop extends InTransaction s₀ inp strobe T last where
  le_last : T ≤ last
  strobe_last : strobe last = true
  avail_last : txDataAvail (traj step s₀ inp last) (inp last) = false

/-- Two DATA packets for the armed endpoint `e`, the first begun in `idle`. In between the host
acknowledges nothing for `e`, starts no SETUP transaction with `e` and does not reset the link,
and software changes nothing. If the engine still waits for the ACK when the second token
arrives, there was no other IN token. -/
structure Retried (e : Fin N) (T₁ last₁ T₂ last₂ : ℕ) : Prop where
  first : SentPacket s₀ inp strobe T₁ last₁
  retry : SentPacket s₀ inp strobe T₂ last₂
  order : last₁ < T₂
  endpoint₁ : (inp T₁).rx.epCurrentD = e
  endpoint₂ : (inp T₂).rx.epCurrentD = e
  idle : inPhase (traj step s₀ inp T₁) = .idle
  still : inPhase (traj step s₀ inp T₂) = .waitAck → ∀ t, T₁ < t → t < T₂ → ¬ InToken (inp t)
  armed : ((traj step s₀ inp T₁).configin e).rdy = true
  size : ((traj step s₀ inp T₁).configin e).size.toNat ≤ 64
  notIso : ∀ t, T₁ ≤ t → t ≤ T₂ + 1 → ((inp t).cfg.inIso e && !(inp t).cfg.rxenableSetup e) = false
  unacked : ∀ t, T₁ ≤ t → t < T₂ → Uninterrupted e (traj step s₀ inp t) (inp t)
  noSetupToken : ∀ t, T₁ ≤ t → t < T₂ → ¬ SetupToken e (inp t)
  untouched : ∀ t, T₁ ≤ t → t ≤ T₂ →
    Untouched e ((traj step s₀ inp T₁).configin e).buffer (traj step s₀ inp t) (inp t)

/-- The second DATA packet has the identifier and the bytes of the first, which are the bytes
of the armed packet. -/
structure Faithful (e : Fin N) (T₁ last₁ T₂ last₂ : ℕ) : Prop where
  pid : inTx (traj step s₀ inp (T₂ + 1)) (inp (T₂ + 1)) =
    inTx (traj step s₀ inp (T₁ + 1)) (inp (T₁ + 1))
  repeats : loaded s₀ inp strobe T₂ (last₂ - T₂) = loaded s₀ inp strobe T₁ (last₁ - T₁)
  bytes : loaded s₀ inp strobe T₂ (last₂ - T₂) = armedPacket (traj step s₀ inp T₁) e

end retry

section retry
variable {s₀ : State N} {inp : ℕ → Input N} {strobe : ℕ → Bool} {T last T₁ last₁ T₂ last₂ : ℕ}

/-- All bytes of the packet have been loaded. -/
theorem SentPacket.loaded_eq (h : SentPacket s₀ inp strobe T last) :
    loaded s₀ inp strobe T (last - T) = (sourceAt (traj step s₀ inp T) (inp T)).payload := by
  have hle := h.le_last
  have hT : T + (last - T) = last := by omega
  have hoffer := (h.loaded_prefix (last - T) hT.le).2
  rw [hT] at hoffer
  have hiff := hoffer h.strobe_last
  by_contra hne
  have havail := hiff.2 hne
  rw [h.avail_last] at havail
  cases havail

/-- After the packet the engine waits, with the offset where sending stopped. -/
theorem SentPacket.sent (h : SentPacket s₀ inp strobe T last) :
    Sent (sourceAt (traj step s₀ inp T) (inp T)) (traj step s₀ inp (last + 1)) := by
  have hfirst := h.first last h.le_last le_rfl h.strobe_last
  obtain ⟨m, hm⟩ : ∃ m, T + 2 + m = last := ⟨last - (T + 2), by omega⟩
  obtain ⟨hheld, k, hstage, -⟩ := h.stage m hm.le
  rw [hm] at hheld hstage
  have hk : k = (sourceAt (traj step s₀ inp T) (inp T)).len := by
    have havail := (hstage.at_strobe hheld h.strobe_last le_rfl).1
    have hle := hstage.le_len
    rw [h.avail_last] at havail
    have := of_decide_eq_false havail.symm
    omega
  subst hk
  exact hstage.sent hheld (h.serving last (by omega) le_rfl) h.strobe_last le_rfl

/-- The bytes of a buffer depend on its own words only. -/
theorem bufferBytes_congr {mem mem' : BitVec 9 → BitVec 32} {b : BitVec 5}
    (h : ∀ a, bufferOf a = b → mem a = mem' a) (n : ℕ) : bufferBytes mem b n = bufferBytes mem' b n := by
  simp only [bufferBytes, bufferByte, h _ (bufferOf_bufferAddr b _)]

namespace Retried
variable (h : Retried s₀ inp strobe e T₁ last₁ T₂ last₂)
include h

theorem lt : T₁ < T₂ := by
  have := h.first.le_last
  have := h.order
  omega

theorem configin_eq :
    ((traj step s₀ inp T₂).configin e).buffer = ((traj step s₀ inp T₁).configin e).buffer ∧
      ((traj step s₀ inp T₂).configin e).size = ((traj step s₀ inp T₁).configin e).size ∧
      ((traj step s₀ inp T₂).configin e).rdy = ((traj step s₀ inp T₁).configin e).rdy := by
  refine traj_persists (fun s : State N =>
    (s.configin e).buffer = ((traj step s₀ inp T₁).configin e).buffer ∧
      (s.configin e).size = ((traj step s₀ inp T₁).configin e).size ∧
      (s.configin e).rdy = ((traj step s₀ inp T₁).configin e).rdy) h.lt.le ⟨rfl, rfl, rfl⟩ ?_
  rintro t h1 h2 ⟨hb, hs, hr⟩
  obtain ⟨hb', hs', hr'⟩ := configin_step (h.unacked t h1 h2) (h.untouched t h1 h2.le).configin
  exact ⟨hb'.trans hb, hs'.trans hs, hr'.trans hr⟩

theorem mem_eq : ∀ a, bufferOf a = ((traj step s₀ inp T₁).configin e).buffer →
    (traj step s₀ inp T₂).ram.mem a = (traj step s₀ inp T₁).ram.mem a := by
  intro a ha
  refine traj_persists (fun s : State N => s.ram.mem a = (traj step s₀ inp T₁).ram.mem a)
    h.lt.le rfl ?_
  intro t h1 h2 heq
  have hu := h.untouched t h1 h2.le
  rw [mem_step_of_notAvailable hu.notAvailable hu.noSwWrite ha, heq]

theorem armedPacket_eq :
    armedPacket (traj step s₀ inp T₂) e = armedPacket (traj step s₀ inp T₁) e := by
  obtain ⟨hb, hs, hr⟩ := h.configin_eq
  simp only [armedPacket, hb, hs, hr, bufferBytes_congr h.mem_eq]

theorem toggle_eq : (traj step s₀ inp (T₂ + 1)).inp.pe.dataToggle e =
    (traj step s₀ inp (T₁ + 1)).inp.pe.dataToggle e := by
  have hlt := h.lt
  refine traj_persists (fun s : State N => s.inp.pe.dataToggle e =
    (traj step s₀ inp (T₁ + 1)).inp.pe.dataToggle e) (m := T₁ + 1) (by omega) rfl ?_
  intro t h1 h2 heq
  have hw := (h.untouched t (by omega) (by omega)).noToggleWrite
  rcases Nat.lt_or_ge t T₂ with hlt' | hge
  · have hu := h.unacked t (by omega) hlt'
    rw [inToggle_step hu.linkReset (h.noSetupToken t (by omega) hlt')
      (not_ack_of_notSent hu.notSent) hw, heq]
  · -- the second token is neither a SETUP token nor an ACK
    obtain rfl : t = T₂ := by omega
    have hpid := (token_of_inXactStarting h.retry.token).1.2
    rw [inToggle_step h.retry.linkReset ?_ ?_ hw, heq]
    · rintro ⟨-, hsetup, -⟩
      rw [hpid] at hsetup
      revert hsetup
      decide
    · rintro ⟨-, hack, -⟩
      have hrx : (inInputPe (traj step s₀ inp t) (inp t)).rx = (inp t).rx := rfl
      simp [InPe.Input.ackReceived, hrx, hpid, usbPidIn, usbPidAck] at hack

/-- Both packets have the same identifier. -/
theorem pid_eq : inTx (traj step s₀ inp (T₂ + 1)) (inp (T₂ + 1)) =
    inTx (traj step s₀ inp (T₁ + 1)) (inp (T₁ + 1)) := by
  have hlt := h.lt
  have hpid : ∀ T last, InTransaction s₀ inp strobe T last → T₁ ≤ T → T ≤ T₂ →
      (inp T).rx.epCurrentD = e →
      inTx (traj step s₀ inp (T + 1)) (inp (T + 1)) =
        some (InPe.dataPid ((traj step s₀ inp (T + 1)).inp.pe.dataToggle e)) := by
    intro T last hx h1 h2 hep
    have hcap := captured_step hx.token hx.linkReset hx.linkActive hx.rxOk hx.noSwWrite
      (hx.notAvailable T le_rfl (by omega))
    have hrcvd : inPhase (traj step s₀ inp (T + 1)) = .rcvdIn := hcap.rcvdIn
    have hcur : (traj step s₀ inp (T + 1)).inp.pe.inEpCurrent = e := by
      have := (token_of_rcvdIn (s := traj step s₀ inp T) (i := inp T) hcap.rcvdIn).2.1
      exact this.trans hep
    have hiso := h.notIso (T + 1) (by omega) (by omega)
    rw [inTx_of_data hrcvd (by rw [hcur]; exact hiso) hx.data, hcur]
  rw [hpid T₂ last₂ h.retry.toInTransaction hlt.le le_rfl h.endpoint₂,
    hpid T₁ last₁ h.first.toInTransaction le_rfl hlt.le h.endpoint₁, h.toggle_eq]

/-- The first packet consists of the bytes of the armed packet. -/
theorem loaded_first : loaded s₀ inp strobe T₁ (last₁ - T₁) =
    armedPacket (traj step s₀ inp T₁) e := by
  rw [h.first.loaded_eq, payload_sourceAt _ h.idle, h.endpoint₁]

theorem length_armedPacket : (armedPacket (traj step s₀ inp T₁) e).length =
    ((traj step s₀ inp T₁).configin e).size.toNat := by
  have := h.size
  simp [armedPacket, h.armed, bufferBytes]
  omega

/-- The offset that an unacknowledged packet leaves behind. -/
theorem getAddr_of_waitAck (hw : inPhase (traj step s₀ inp T₂) = .waitAck) :
    (traj step s₀ inp T₂).inp.pe.inEpGetAddr.toNat =
      ((traj step s₀ inp T₁).configin e).size.toNat % 64 := by
  have hle := h.first.le_last
  have hsent : Sent (sourceAt (traj step s₀ inp T₁) (inp T₁)) (traj step s₀ inp T₂) :=
    traj_persists (Sent (sourceAt (traj step s₀ inp T₁) (inp T₁))) h.order h.first.sent
      fun t h1 h2 hs => hs.next (h.still hw t (by omega) h2)
  have hstart : (sourceAt (traj step s₀ inp T₁) (inp T₁)).start = 0 := by
    simp [sourceAt, h.idle]
  have hlen : (sourceAt (traj step s₀ inp T₁) (inp T₁)).len =
      ((traj step s₀ inp T₁).configin e).size.toNat := by
    rw [← Source.length_payload, payload_sourceAt _ h.idle, h.endpoint₁, h.length_armedPacket]
  rw [hsent.addr (by simp [hw]), hstart, hlen]
  simp

/-- What the second packet consists of. -/
theorem loaded_retry : loaded s₀ inp strobe T₂ (last₂ - T₂) =
    if inPhase (traj step s₀ inp T₂) = .idle ∨
        ((traj step s₀ inp T₁).configin e).size.toNat = 64 then
      armedPacket (traj step s₀ inp T₁) e
    else [] := by
  rw [h.retry.loaded_eq]
  by_cases hidle : inPhase (traj step s₀ inp T₂) = .idle
  · rw [payload_sourceAt _ hidle, h.endpoint₂, h.armedPacket_eq, if_pos (.inl hidle)]
  · have hwait := (token_of_inXactStarting h.retry.token).2.1.resolve_left hidle
    have haddr := h.getAddr_of_waitAck hwait
    obtain ⟨-, hsize, hrdy⟩ := h.configin_eq
    have hle := h.size
    have hstart : (sourceAt (traj step s₀ inp T₂) (inp T₂)).start =
        (traj step s₀ inp T₂).inp.pe.inEpGetAddr := by simp [sourceAt, hidle]
    have hdata : (sourceAt (traj step s₀ inp T₂) (inp T₂)).hasData = true := by
      simp only [sourceAt, h.endpoint₂, hrdy, h.armed]
    have hsrc : (sourceAt (traj step s₀ inp T₂) (inp T₂)).size =
        ((traj step s₀ inp T₁).configin e).size := by simp only [sourceAt, h.endpoint₂, hsize]
    by_cases hfull : ((traj step s₀ inp T₁).configin e).size.toNat = 64
    · have hzero : (sourceAt (traj step s₀ inp T₂) (inp T₂)).start = 0 := by
        apply BitVec.eq_of_toNat_eq
        rw [hstart, haddr, hfull]
        rfl
      rw [if_pos (.inr hfull), Source.payload_of_start_eq_zero _ hzero hdata,
        ← h.armedPacket_eq, armedPacket, hrdy, h.armed]
      simp only [sourceAt, h.endpoint₂, if_true]
    · -- the offset already equals the size: nothing is sent
      have hlen : (sourceAt (traj step s₀ inp T₂) (inp T₂)).len = 0 := by
        simp only [Source.len, Source.stop, hdata, hstart, haddr, hsrc, if_true]
        split_ifs <;> omega
      rw [if_neg (by simp [hidle, hfull]), ← List.length_eq_zero_iff, Source.length_payload, hlen]

end Retried

/-- A retransmission is faithful if and only if its token meets the engine in `idle`, or the
packet has 0 or 64 bytes, after which the offset is 0 again. -/
theorem faithful_iff (h : Retried s₀ inp strobe e T₁ last₁ T₂ last₂) :
    Faithful s₀ inp strobe e T₁ last₁ T₂ last₂ ↔
      inPhase (traj step s₀ inp T₂) = .idle ∨
        ((traj step s₀ inp T₁).configin e).size.toNat = 0 ∨
        ((traj step s₀ inp T₁).configin e).size.toNat = 64 := by
  have hlen := h.length_armedPacket
  have hretry := h.loaded_retry
  constructor
  · intro hf
    by_contra hne
    simp only [not_or] at hne
    rw [if_neg (by simp [hne])] at hretry
    have hbytes := hf.bytes
    rw [hretry] at hbytes
    rw [← hbytes] at hlen
    exact hne.2.1 hlen.symm
  · intro hc
    have hbytes : loaded s₀ inp strobe T₂ (last₂ - T₂) = armedPacket (traj step s₀ inp T₁) e := by
      rw [hretry]
      split_ifs with hif
      · rfl
      · simp only [not_or] at hif
        have hzero : ((traj step s₀ inp T₁).configin e).size.toNat = 0 := by
          rcases hc with hi | hz | hf
          · exact absurd hi hif.1
          · exact hz
          · exact absurd hf hif.2
        rw [hzero, List.length_eq_zero_iff] at hlen
        exact hlen.symm
    exact ⟨h.pid_eq, hbytes.trans h.loaded_first.symm, hbytes⟩

end retry

/-! ### A retry that loses the packet -/

/-- Software arms one byte of buffer 3 on endpoint 1. After the DATA packet the host starts a
packet in cycle 80, within the timeout; it is an IN token again. -/
def retryCycle (t : ℕ) : Input 12 :=
  if t = 0 then
    cycle (rxQuiet 1)
      { configin := some (1, { buffer := 3, size := 1, sending := false, pend := false, rdy := true }) }
  else if t = 1 ∨ t = 90 then cycle (rxEnd usbPidIn 1)
  else if t = 80 then cycle (rxStart 1)
  else cycle (rxQuiet 1)

/-- The transmitter takes one byte in cycle 33 and ends the packet in cycle 70. -/
def retryInput (t : ℕ) : Input 12 :=
  { retryCycle t with txDataGet := t == 34, txPktEnd := t == 70 }

/-- The byte boundaries of both DATA packets. -/
def retryStrobe (t : ℕ) : Bool := t == 33 || t == 65 || t == 122

theorem serving_retryInput {t : ℕ} (h0 : t ≠ 0) (h1 : t ≠ 1) (h90 : t ≠ 90) :
    Serving 3 (retryInput t) := by
  by_cases h80 : t = 80
  · subst h80
    constructor <;> simp [retryInput, retryCycle, cycle, rxStart, NoSwWrite]
  · constructor <;> simp [retryInput, retryCycle, h0, h1, h80, h90, cycle, rxQuiet, NoSwWrite]

theorem notAvailable_retryInput : ∀ t < 124, 1 ≤ t →
    ∀ setup, (avQueue (traj step numberedDevice retryInput t) setup).head? ≠ some 3 := by
  decide +kernel

theorem sentPacket_first : SentPacket numberedDevice retryInput retryStrobe 1 65 where
  token := by decide
  linkReset := rfl
  linkActive := rfl
  rxOk := ⟨by decide⟩
  noSwWrite := by simp [NoSwWrite, retryInput, retryCycle, cycle]
  notAvailable := fun t h1 _ setup => notAvailable_retryInput t (by omega) h1 setup
  serving := fun t h1 _ => serving_retryInput (by omega) (by omega) (by omega)
  data := by decide
  first := by
    intro t _ _ hs
    simp only [retryStrobe, Bool.or_eq_true, beq_iff_eq] at hs
    omega
  spaced := by
    intro t u _ _ _ ht hu
    simp only [retryStrobe, Bool.or_eq_true, beq_iff_eq] at ht hu
    omega
  dataGet := by
    have hget : ∀ t < 65, 1 ≤ t → (retryInput (t + 1)).txDataGet =
        (retryStrobe t && txDataAvail (traj step numberedDevice retryInput t)
          (retryInput t)) := by decide +kernel
    exact fun t h1 ht => hget t ht h1
  le_last := by decide
  strobe_last := by decide
  avail_last := by decide +kernel

/-- The retry captures the same buffer. -/
theorem buffer_retry :
    (sourceAt (traj step numberedDevice retryInput 90) (retryInput 90)).buffer = 3 := by
  decide +kernel

theorem sentPacket_retry : SentPacket numberedDevice retryInput retryStrobe 90 122 where
  token := by decide +kernel
  linkReset := rfl
  linkActive := rfl
  rxOk := ⟨by decide⟩
  noSwWrite := by
    rw [buffer_retry]
    simp [NoSwWrite, retryInput, retryCycle, cycle]
  notAvailable := by
    intro t h1 h2
    rw [buffer_retry]
    exact fun setup => notAvailable_retryInput t (by omega) (by omega) setup
  serving := by
    intro t h1 h2
    rw [buffer_retry]
    exact serving_retryInput (by omega) (by omega) (by omega)
  data := by decide +kernel
  first := by
    intro t _ _ hs
    simp only [retryStrobe, Bool.or_eq_true, beq_iff_eq] at hs
    omega
  spaced := by
    intro t u _ _ _ ht hu
    simp only [retryStrobe, Bool.or_eq_true, beq_iff_eq] at ht hu
    omega
  dataGet := by
    have hget : ∀ t < 122, 90 ≤ t → (retryInput (t + 1)).txDataGet =
        (retryStrobe t && txDataAvail (traj step numberedDevice retryInput t)
          (retryInput t)) := by decide +kernel
    exact fun t h1 ht => hget t ht h1
  le_last := by decide
  strobe_last := by decide
  avail_last := by decide +kernel

theorem retried_retryInput : Retried numberedDevice retryInput retryStrobe 1 1 65 90 122 := by
  have hquiet : ∀ t < 90, 1 ≤ t →
      ¬ (setupReceived (traj step numberedDevice retryInput t) (retryInput t) = true ∧
        (traj step numberedDevice retryInput t).out.pe.outEpCurrent = 1) ∧
      setSentbit (traj step numberedDevice retryInput t) (retryInput t) 1 = false := by
    decide +kernel
  have hcycle : ∀ t, (retryInput t).linkReset = false ∧ (retryInput t).cfg.inIso 1 = false ∧
      (retryInput t).sw.inDatatog = none ∧ (retryInput t).sw.mem = none := by
    intro t
    simp only [retryInput, retryCycle]
    split_ifs <;> simp [cycle]
  have hconfigin : ∀ t, 1 ≤ t → configinWd (retryInput t) 1 = none := by
    intro t ht
    simp only [configinWd, retryInput, retryCycle]
    split_ifs
    · omega
    all_goals simp [cycle]
  have hpid : ∀ t, (retryInput t).rx.pid ≠ usbPidSetup := by
    intro t
    simp only [retryInput, retryCycle]
    split_ifs <;> simp [cycle, rxQuiet, rxStart, rxEnd, usbPidSetup, usbPidIn]
  have hbuf : ((traj step numberedDevice retryInput 1).configin 1).buffer = 3 := by decide
  exact
    { first := sentPacket_first
      retry := sentPacket_retry
      order := by decide
      endpoint₁ := by decide
      endpoint₂ := by decide
      idle := by decide
      still := by
        rintro - t h1 h2 ⟨htok, -⟩
        have := (serving_retryInput (t := t) (by omega) (by omega) (by omega)).pktEnd
        simp [this] at htok
      armed := by decide
      size := by decide
      notIso := fun t _ _ => by simp [(hcycle t).2.1]
      unacked := fun t h1 h2 => ⟨(hcycle t).1, (hquiet t h2 h1).1, (hquiet t h2 h1).2⟩
      noSetupToken := fun t _ _ hs => hpid t hs.2.1
      untouched := by
        intro t h1 h2
        rw [hbuf]
        refine ⟨hconfigin t h1, ?_, ?_, fun setup => ?_⟩
        · simp [NoToggleWrite, (hcycle t).2.2.1]
        · simp [NoSwWrite, (hcycle t).2.2.2]
        · exact notAvailable_retryInput t (by omega) h1 setup }

theorem faithful_iff_retryInput :
    Faithful numberedDevice retryInput retryStrobe 1 1 65 90 122 ↔
      inPhase (traj step numberedDevice retryInput 90) = .idle ∨
        ((traj step numberedDevice retryInput 1).configin 1).size.toNat = 0 ∨
        ((traj step numberedDevice retryInput 1).configin 1).size.toNat = 64 :=
  faithful_iff retried_retryInput

/-- Not every retransmission is faithful: the byte is sent once, then an empty packet. -/
theorem not_forall_faithful :
    ¬ ∀ (inp : ℕ → Input 12) (strobe : ℕ → Bool) (e : Fin 12) (T₁ last₁ T₂ last₂ : ℕ),
      Retried numberedDevice inp strobe e T₁ last₁ T₂ last₂ →
        Faithful numberedDevice inp strobe e T₁ last₁ T₂ last₂ := by
  intro h
  have hbytes := (h _ _ _ _ _ _ _ retried_retryInput).bytes
  have hretry : loaded numberedDevice retryInput retryStrobe 90 (122 - 90) = [] := by
    decide +kernel
  have hpacket : armedPacket (traj step numberedDevice retryInput 1) 1 = [0x30] := by
    decide +kernel
  rw [hretry, hpacket] at hbytes
  cases hbytes

end UsbDev.Device
