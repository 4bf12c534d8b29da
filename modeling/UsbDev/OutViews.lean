import UsbDev.RxDecode
import UsbDev.Solicited
import UsbDev.Turnaround

/-!
# Two views of an OUT transaction

The endpoint of a transaction is held by the receiver and by the OUT engine, and
the engine holds twice whether it is a SETUP transaction. From the token to the
end of its DATA packet no token changes either view of the kind. The endpoint in
the receiver stays as long as no packet is received between the two, which the
start of packet guarantees unless the receiver lost the token's end of packet.
-/
namespace UsbDev.FsRx

open LineCode Deserializer

variable {s : State} {i : Input}

/-! ### The token register -/

/-- The registers hold the bits of the packet being received. -/
structure Tracked (s : State) : Prop where
  settled : Settled s
  receiving : s.packetValid = true → ∃ bits, Receiving s bits

theorem tracked_reset : Tracked State.reset := ⟨Settled.reset, by simp [State.reset]⟩

theorem Tracked.step (h : Tracked s) (i : Input) : Tracked (step s i) := by
  refine ⟨h.settled.next, fun hp => ?_⟩
  cases hl : i.linkReset with
  | true => simp [FsRx.step, hl, State.reset] at hp
  | false =>
      rw [step_packetValid s hl] at hp
      cases hv : s.packetValid with
      | false => exact ⟨[], Receiving.start h.settled hl (by simp [packetStart, hp, hv])⟩
      | true =>
          obtain ⟨bits, hbits⟩ := h.receiving hv
          exact ⟨_, hbits.next hl (by simp [packetEnd, hp])⟩

/-- In a cycle with a sample the endpoint register has followed the token register. -/
theorem endpD_step (hv : lineStateValid (step s i) = true) :
    endpD (step s i) = (step s i).endp := by
  cases hl : i.linkReset with
  | true => simp [step, hl, State.reset, lineStateValid] at hv
  | false =>
      by_cases hfull : tokenPayloadDone (step s i) = true ∧ pktIsToken (step s i) = true
      · have hfields := fields_step hl hv hfull.1 hfull.2
        rw [endpD, hfull.1, hfull.2, hfields.endp]
        rfl
      · rw [endpD, if_neg (by simpa using hfull)]

/-- A valid token has filled the token register. -/
theorem Receiving.token_done {bits : List Bool} (h : Receiving s bits)
    (hvalid : validPacket s = true) (htoken : pktIsToken s = true) :
    pidComplete s = true ∧ tokenPayloadDone s = true := by
  have h16 : s.rxDataLen16 = true := by
    have hdata : pktIsData s = false ∧ pktIsHandshake s = false := by
      simp only [pktIsToken, beq_iff_eq] at htoken
      simp [pktIsData, pktIsHandshake, htoken]
    simp only [validPacket, hdata.1, hdata.2, validTokenLen, Bool.and_eq_true, Bool.or_eq_true,
      Bool.false_and, Bool.false_eq_true, false_or] at hvalid
    exact hvalid.2.1.2.1
  rw [h.holds.rxDataLen16, decide_eq_true_eq] at h16
  have hlen : 16 ≤ (unstuff 0 bits).length - 8 := by simpa using h16
  have hreg := h.holds.tokenPayload
  rw [htoken, if_pos rfl] at hreg
  constructor
  · rw [h.holds.pidComplete_eq, decide_eq_true_eq]
    omega
  · rw [tokenPayloadDone, hreg, collect_full (List.length_take_le 11 _), List.length_take,
      decide_eq_true_eq, List.length_drop]
    omega

/-- The endpoint register keeps the endpoint `e` until a packet ends, or the packet being
received is a token. -/
inductive KeepsEndp (e : BitVec 4) (s : State) : Prop
  | holds : s.endp = e → endpD s = e → (s.packetValid = true → tokenPayloadDone s = false) →
      KeepsEndp e s
  | token : s.packetValid = true → pidComplete s = true → pktIsToken s = true → KeepsEndp e s

theorem step_endp (s : State) (hl : i.linkReset = false) : (step s i).endp = endpD s := by
  simp [step, hl]

/-- The token register stays while no bit is decoded. -/
theorem tokenRegs_of_hold (hl : i.linkReset = false) (hd : dvalid s = false)
    (hs : packetStart s i = false) :
    (step s i).tokenPayload = s.tokenPayload ∧ (step s i).fullPid = s.fullPid := by
  constructor
  · simp [step_tokenPayload s hl, tokenPayloadD, hd, hs]
  · simp [step_fullPid s hl, fullPidD, hd, hs]

theorem endpD_congr {s' : State} (htoken : s'.tokenPayload = s.tokenPayload)
    (hpid : s'.fullPid = s.fullPid) {e : BitVec 4} (h : endpD s = e) (h' : s'.endp = e) :
    endpD s' = e := by
  rw [endpD, tokenPayloadDone, pktIsToken] at h ⊢
  rw [htoken, hpid]
  split_ifs at h ⊢
  · exact h
  · exact h'

/-- After the end of a valid token. -/
theorem KeepsEndp.start {bits : List Bool} (h : Receiving s bits) (he : packetEnd s i = true)
    (hl : i.linkReset = false) (hvalid : validPacket s = true) (htoken : pktIsToken s = true)
    (hendp : endpD s = s.endp) : KeepsEndp s.endp (step s i) := by
  obtain ⟨hcomplete, hdone⟩ := h.token_done hvalid htoken
  have hstart := packetStart_of_packetValid (i := i) h.packetValid
  have hpayload : (step s i).tokenPayload = s.tokenPayload := by
    simp [step_tokenPayload s hl, tokenPayloadD, hdone, hstart]
  have hpid : (step s i).fullPid = s.fullPid := by
    simp [step_fullPid s hl, fullPidD, hcomplete, hstart]
  have hnext : (step s i).endp = s.endp := by rw [step_endp s hl, hendp]
  refine .holds hnext (endpD_congr hpayload hpid hendp hnext) fun hp => ?_
  rw [packetValid_step_of_end he] at hp
  exact absurd hp (by decide)

theorem KeepsEndp.step {e : BitVec 4} (h : KeepsEndp e s) (hl : i.linkReset = false)
    (he : packetEnd s i = false) : KeepsEndp e (step s i) := by
  cases h with
  | holds hs hd hopen =>
      have hnext : (FsRx.step s i).endp = e := by rw [step_endp s hl, hd]
      cases hstart : packetStart s i with
      | true =>
          -- the token register is emptied
          have hp : s.packetValid = false := by
            simp only [packetStart, Bool.and_eq_true, Bool.not_eq_true'] at hstart
            exact hstart.2
          have hbit : dvalid s = false := by simp [dvalid, dvalidRaw, hp]
          have hempty : tokenPayloadDone (FsRx.step s i) = false := by
            simp [tokenPayloadDone, step_tokenPayload s hl, tokenPayloadD, hbit, hstart]
          refine .holds hnext ?_ fun _ => hempty
          rw [endpD, hempty, Bool.false_and, if_neg (by decide), hnext]
      | false =>
          cases hbit : dvalid s && pidComplete s && pktIsToken s with
          | true =>
              -- a bit of another token
              simp only [Bool.and_eq_true] at hbit
              obtain ⟨⟨hbit, hcomplete⟩, htoken⟩ := hbit
              have hp : s.packetValid = true := by
                simp only [dvalid, dvalidRaw, Bool.and_eq_true] at hbit
                exact hbit.1.1.1
              have hpid : (FsRx.step s i).fullPid = s.fullPid := by
                simp [step_fullPid s hl, fullPidD, hcomplete, hstart]
              refine .token ?_ ?_ ?_
              · rw [step_packetValid s hl]
                simpa [packetEnd, hp] using he
              · rw [pidComplete, hpid, ← pidComplete, hcomplete]
              · rw [pktIsToken, hpid, ← pktIsToken, htoken]
          | false =>
              have hpayload : (FsRx.step s i).tokenPayload = s.tokenPayload := by
                rw [step_tokenPayload s hl, tokenPayloadD, hbit, hstart]
                rfl
              have hpacket : (FsRx.step s i).packetValid = s.packetValid := by
                rw [step_packetValid s hl]
                revert hstart he
                rw [packetStart, packetEnd]
                cases packetValidD s i <;> cases s.packetValid <;> simp
              have hopen' : (FsRx.step s i).packetValid = true →
                  tokenPayloadDone (FsRx.step s i) = false := by
                rw [hpacket, tokenPayloadDone, hpayload]
                exact hopen
              refine .holds hnext ?_ hopen'
              cases hp : s.packetValid with
              | true =>
                  rw [endpD, hopen' (hpacket.trans hp), Bool.false_and, if_neg (by decide), hnext]
              | false =>
                  have hraw : dvalid s = false := by simp [dvalid, dvalidRaw, hp]
                  have hpid := (tokenRegs_of_hold hl hraw hstart).2
                  exact endpD_congr hpayload hpid hd hnext
  | token hp hcomplete htoken =>
      have hstart := packetStart_of_packetValid (i := i) hp
      have hpid : (FsRx.step s i).fullPid = s.fullPid := by
        simp [step_fullPid s hl, fullPidD, hcomplete, hstart]
      refine .token ?_ ?_ ?_
      · rw [step_packetValid s hl]
        simpa [packetEnd, hp] using he
      · rw [pidComplete, hpid, ← pidComplete, hcomplete]
      · rw [pktIsToken, hpid, ← pktIsToken, htoken]

end UsbDev.FsRx

namespace UsbDev.NbPe

open Clocked

section
variable {N : ℕ} [NeZero N] {s : State N} {i : Input N}

/-! ### The kind of the transaction -/

/-- A token in the middle of a transaction ends it. -/
theorem OutWaits.not_token (h : OutWaits s) (hx : (outComb s i).xactStart = false)
    (hn : (NbPe.step s i).out.outXactState ≠ .idle) (d : BitVec 7) :
    (rxSignals s i).tokenReceived d = false := by
  rw [← Bool.not_eq_true]
  intro htok
  obtain ⟨-, hnext⟩ := outXactState_step hn
  apply hn
  rw [hnext]
  obtain hs | hs := h.of_token htok
  · revert hx
    simp only [outComb, OutPe.comb, hs]
    split_ifs <;> simp
  · have hdata := RxSignals.dataPacketReceived_of_tokenReceived htok
    have hbad : OutPe.badDataToggle s.out (outInput s i) = false := by
      rw [OutPe.badDataToggle, show (outInput s i).rx.dataPacketReceived = false from hdata]
      rfl
    have hother : (outInput s i).nonDataPacketReceived = true := by
      simp only [RxSignals.tokenReceived, RxSignals.dataPacketReceived, Bool.and_eq_true]
        at htok hdata
      rw [OutPe.Input.nonDataPacketReceived]
      simp_all [outInput]
    simp only [outComb, OutPe.comb, hs, hbad, hother, Bool.or_true, Bool.false_and, if_true,
      show (outInput s i).rx.dataPacketReceived = false from hdata, Bool.and_false,
      Bool.false_eq_true, if_false]

/-- Both copies of the kind agree during a transaction. -/
def SameKind (s : State N) : Prop :=
  s.out.currentXactSetup = s.out.outEpSetup s.out.outEpCurrent

theorem sameKind_step (h : OutWaits s) (hk : s.out.outXactState ≠ .idle → SameKind s)
    (hn : (step s i).out.outXactState ≠ .idle) : SameKind (step s i) := by
  cases hx : (outComb s i).xactStart with
  | true =>
      obtain ⟨-, hcur, hsetup⟩ := OutPe.step_of_xactStart hx
      have hkind : (step s i).out.currentXactSetup = (outInput s i).setupTokenReceived :=
        if_pos hx
      have htok := OutPe.tokenReceived_of_xactStart hx
      rw [SameKind, hkind]
      change _ = (OutPe.step s.out (outInput s i)).outEpSetup _
      rw [show (step s i).out.outEpCurrent = _ from hcur, hsetup, OutPe.Input.setupTokenReceived,
        htok, Bool.true_and]
  | false =>
      have hs : s.out.outXactState ≠ .idle := by
        intro hs
        apply hn
        rw [(outXactState_step hn).2]
        revert hx
        simp only [outComb, OutPe.comb, hs]
        split_ifs <;> simp
      have htok : (outInput s i).rx.tokenReceived (outInput s i).devAddr = false :=
        h.not_token hx hn i.devAddr
      have hout := hk hs
      rw [SameKind] at hout ⊢
      have hx' : (OutPe.comb s.out (outInput s i)).xactStart = false := hx
      simpa [step, OutPe.step, hx', OutPe.Input.setupTokenReceived, OutPe.Input.outTokenReceived,
        htok] using hout

end

/-! ### The endpoint of the transaction -/

section
variable {N : ℕ} [NeZero N] {inp : ℕ → Input N}

theorem outWaits_stateAt (inp : ℕ → Input N) (t : ℕ) : OutWaits (stateAt inp t) :=
  traj_invariant OutWaits outWaits_reset (fun _ h => h.step) t

theorem sameKind_stateAt (inp : ℕ → Input N) {t : ℕ}
    (hs : (stateAt inp t).out.outXactState ≠ .idle) : SameKind (stateAt inp t) := by
  refine traj_invariant (fun s : State N => s.out.outXactState ≠ .idle → SameKind s) ?_ ?_ t hs
  · exact fun hs => absurd rfl hs
  · exact fun u hk hn => sameKind_step (outWaits_stateAt inp u) hk hn

theorem tracked_stateAt (inp : ℕ → Input N) (t : ℕ) : FsRx.Tracked (stateAt inp t).rx :=
  traj_invariant (fun s : State N => FsRx.Tracked s.rx) FsRx.tracked_reset
    (fun _ h => h.step _) t

/-- In a cycle with a sample the endpoint register has followed the token register. -/
theorem endpD_stateAt {t : ℕ} (hv : FsRx.lineStateValid (stateAt inp t).rx = true) :
    FsRx.endpD (stateAt inp t).rx = (stateAt inp t).rx.endp := by
  cases t with
  | zero => exact absurd hv (by simp [stateAt, State.reset, FsRx.State.reset, FsRx.lineStateValid])
  | succ t => exact FsRx.endpD_step hv

variable (inp) in
/-- The transaction of cycle `t` was opened by the token of cycle `k`. -/
structure OpenedBy (k t : ℕ) : Prop where
  before : k < t
  token : (outComb (stateAt inp k) (inp k)).xactStart = true
  last : ∀ u, k < u → u < t → (outComb (stateAt inp u) (inp u)).xactStart = false

variable (inp) in
/-- The receiver still has the endpoint of the token of cycle `k`. -/
structure Remembers (k t : ℕ) : Prop where
  opened : OpenedBy inp k t
  current : (stateAt inp t).out.outEpCurrent = (rxSignals (stateAt inp k) (inp k)).epCurrentD
  keeps : (inp k).diffRxOk = true →
    FsRx.KeepsEndp (stateAt inp k).rx.endp (stateAt inp t).rx ∧
      ((stateAt inp t).out.outXactState = .rcvdOut → FsRx.BetweenPackets (stateAt inp t).rx)

theorem OpenedBy.next {k t : ℕ} (h : OpenedBy inp k t)
    (hs : (stateAt inp t).out.outXactState ≠ .idle) : OpenedBy inp k (t + 1) where
  before := by have := h.before; omega
  token := h.token
  last := by
    intro u hk hu
    obtain hlt | rfl := Nat.lt_succ_iff_lt_or_eq.1 hu
    · exact h.last u hk hlt
    · rw [← Bool.not_eq_true]
      exact fun hx => hs (OutPe.idle_of_xactStart hx)

theorem outEpCurrent_next {t : ℕ} (hs : (stateAt inp t).out.outXactState ≠ .idle) :
    (stateAt inp (t + 1)).out.outEpCurrent = (stateAt inp t).out.outEpCurrent :=
  if_neg fun hx => hs (OutPe.idle_of_xactStart hx)

theorem Remembers.start {k : ℕ} (hx : (outComb (stateAt inp k) (inp k)).xactStart = true)
    (hl : (inp k).linkReset = false) : Remembers inp k (k + 1) where
  opened := ⟨by omega, hx, fun u hk hu => by omega⟩
  current := if_pos hx
  keeps := by
    intro hd
    have htok := OutPe.tokenReceived_of_xactStart hx
    simp only [RxSignals.tokenReceived, Bool.and_eq_true, beq_iff_eq] at htok
    obtain ⟨⟨⟨hend, hvalid⟩, htype⟩, -⟩ := htok
    have hend' : FsRx.packetEnd (stateAt inp k).rx (rxInput (stateAt inp k) (inp k)) = true := hend
    obtain ⟨bits, hbits⟩ := (tracked_stateAt inp k).receiving (FsRx.packetEnd_cases hend').2.1
    have hsample := endpD_stateAt (FsRx.valid_of_packetEnd hend')
    refine ⟨FsRx.KeepsEndp.start hbits hend' hl hvalid ?_ hsample, fun _ => ?_⟩
    · exact (FsRx.pktIsToken_iff _).2 htype
    · exact FsRx.BetweenPackets.start hend' hvalid hd hl

/-- Without the end of a packet the receiver goes on with the same endpoint. -/
theorem Remembers.next {k t : ℕ} (h : Remembers inp k t) (hl : (inp t).linkReset = false)
    (hs : (stateAt inp t).out.outXactState ≠ .idle)
    (he : (inp k).diffRxOk = true → ¬ PktEndAt inp t)
    (hbetween : (stateAt inp (t + 1)).out.outXactState = .rcvdOut →
      (stateAt inp t).out.outXactState = .rcvdOut ∧ ¬ PktStartAt inp t) :
    Remembers inp k (t + 1) where
  opened := h.opened.next hs
  current := by rw [outEpCurrent_next hs, h.current]
  keeps := by
    intro hd
    obtain ⟨hkeeps, hwait⟩ := h.keeps hd
    have hend : FsRx.packetEnd (stateAt inp t).rx (rxInput (stateAt inp t) (inp t)) = false := by
      simpa [PktEndAt, rxSignals, FsRx.signals] using he hd
    refine ⟨hkeeps.step hl hend, fun hn => ?_⟩
    obtain ⟨hnow, hstart⟩ := hbetween hn
    have hsop : FsRx.seeSop (stateAt inp t).rx (rxInput (stateAt inp t) (inp t)) = false := by
      simpa [PktStartAt, rxSignals, FsRx.signals] using hstart
    exact (hwait hnow).step (lineOk_stateAt t) hl hsop

/-- From its token to the end of its DATA packet the transaction has one endpoint. -/
theorem exists_remembers (inp : ℕ → Input N) {t : ℕ}
    (hs : (stateAt inp t).out.outXactState = .rcvdOut ∨
      (stateAt inp t).out.outXactState = .rcvdDataStart) : ∃ k, Remembers inp k t := by
  induction t with
  | zero => obtain hs | hs := hs <;> cases hs
  | succ t ih =>
      obtain hs | hs := hs
      · rw [stateAt_succ] at hs
        obtain ⟨hl, ⟨hidle, hactive, htoken⟩ | ⟨hwait, hsop⟩⟩ := rcvdOut_step hs
        · refine ⟨t, Remembers.start ?_ hl⟩
          simp only [outComb, OutPe.comb, hidle, hactive, Bool.true_and]
          rw [if_pos (by simpa using htoken)]
        · obtain ⟨k, hk⟩ := ih (.inl hwait)
          refine ⟨k, hk.next hl (by simp [hwait]) (fun hd => ?_) fun _ => ⟨hwait, ?_⟩⟩
          · exact not_pktEndAt ((hk.keeps hd).2 hwait)
          · simp [PktStartAt, hsop]
      · have hne : (stateAt inp (t + 1)).out.outXactState ≠ .rcvdOut := by simp [hs]
        rw [stateAt_succ] at hs
        obtain ⟨hl, ⟨hwait, -⟩ | ⟨hdata, hend⟩⟩ := rcvdDataStart_step hs
        · obtain ⟨k, hk⟩ := ih (.inl hwait)
          refine ⟨k, hk.next hl (by simp [hwait]) (fun hd => ?_) fun hn => absurd hn hne⟩
          exact not_pktEndAt ((hk.keeps hd).2 hwait)
        · obtain ⟨k, hk⟩ := ih (.inr hdata)
          refine ⟨k, hk.next hl (by simp [hdata]) (fun _ => ?_) fun hn => absurd hn hne⟩
          simp [PktEndAt, hend]

/-- The OUT engine decides about a DATA packet. -/
def TakesData (s : State N) (i : Input N) : Prop :=
  s.out.outXactState = .rcvdDataStart ∧ (rxSignals s i).dataPacketReceived = true ∨
    s.out.outXactState = .rcvdDataEnd ∨ s.out.outXactState = .rcvdIsoDataEnd

/-- The endpoint held by the receiver is the one of the transaction. -/
def SameEndpoint (s : State N) (i : Input N) : Prop :=
  (rxSignals s i).epInHw N = true ∧ (rxSignals s i).epCurrentD = s.out.outEpCurrent

omit [NeZero N] in
theorem endp_of_dataPacket {e : BitVec 4} {s : State N} {i : Input N}
    (h : FsRx.KeepsEndp e s.rx) (hd : (rxSignals s i).dataPacketReceived = true) :
    s.rx.endp = e ∧ FsRx.endpD s.rx = e := by
  cases h with
  | holds hs hnext => exact ⟨hs, hnext⟩
  | token _ _ htoken =>
      have htype := (FsRx.pktIsToken_iff s.rx).1 htoken
      simp only [RxSignals.dataPacketReceived, Bool.and_eq_true, Bool.or_eq_true, beq_iff_eq] at hd
      obtain ⟨-, hpid | hpid⟩ := hd <;>
      · rw [show FsRx.pid s.rx = _ from hpid] at htype
        exact absurd htype (by decide)

theorem Remembers.sameEndpoint {k t : ℕ} (h : Remembers inp k t) {u : ℕ}
    (hendp : (stateAt inp u).rx.endp = (stateAt inp k).rx.endp)
    (hcur : (stateAt inp u).out.outEpCurrent = (stateAt inp t).out.outEpCurrent) :
    SameEndpoint (stateAt inp u) (inp u) := by
  have hactive := (OutPe.step_of_xactStart h.opened.token).1
  simp only [OutPe.Input.epActive, Bool.and_eq_true] at hactive
  constructor
  · have hin : (rxSignals (stateAt inp k) (inp k)).epInHw N = true := hactive.2
    rwa [RxSignals.epInHw, rxSignals, FsRx.signals, ← hendp] at hin
  · rw [hcur, h.current, RxSignals.epCurrentD, RxSignals.epCurrentD, rxSignals, rxSignals,
      FsRx.signals, FsRx.signals]
    simp only [hendp]

/-- Whenever the OUT engine decides about a DATA packet, both copies of the kind agree; so do
both copies of the endpoint if the differential receiver was ready when the token ended. -/
theorem views_agree (inp : ℕ → Input N) (t : ℕ) (h : TakesData (stateAt inp t) (inp t)) :
    SameKind (stateAt inp t) ∧ ∃ k, OpenedBy inp k t ∧
      ((inp k).diffRxOk = true → SameEndpoint (stateAt inp t) (inp t)) := by
  refine ⟨sameKind_stateAt inp ?_, ?_⟩
  · obtain ⟨hs, -⟩ | hs | hs := h <;> simp [hs]
  · obtain ⟨hs, hdata⟩ | hend := h
    · obtain ⟨k, hk⟩ := exists_remembers inp (.inr hs)
      refine ⟨k, hk.opened, fun hd => hk.sameEndpoint ?_ rfl⟩
      exact (endp_of_dataPacket (hk.keeps hd).1 hdata).1
    · cases t with
      | zero => obtain hs | hs := hend <;> cases hs
      | succ t =>
          have hne : (step (stateAt inp t) (inp t)).out.outXactState ≠ .idle := by
            rw [← stateAt_succ]
            obtain hs | hs := hend <;> simp [hs]
          obtain ⟨hl, hnext⟩ := outXactState_step hne
          rw [stateAt_succ, hnext] at hend
          obtain ⟨hs, hdata, -, -⟩ := OutPe.dataPacket_of_dataEnd hend
          obtain ⟨k, hk⟩ := exists_remembers inp (.inr hs)
          refine ⟨k, hk.opened.next (by simp [hs]), fun hd => hk.sameEndpoint ?_ ?_⟩
          · obtain ⟨-, hnow⟩ := endp_of_dataPacket (hk.keeps hd).1 hdata
            have hstep := FsRx.step_endp (stateAt inp t).rx
              (i := rxInput (stateAt inp t) (inp t)) hl
            exact hstep.trans hnow
          · exact outEpCurrent_next (by simp [hs])

end

/-! ### A token and a DATA packet -/

open LineCode

/-- An OUT token and an empty DATA0 packet for endpoint 0. -/
def outAndData : List (Input 1) :=
  hostCycles 1 (hostPacket (hostToken usbPidOut) ++
    hostPacket (FsRx.pidBits usbPidData0 ++ List.replicate 16 false))

theorem views_agree_outAndData :
    let inp := fun t => outAndData.getD t (hostInput 1 .j)
    SameKind (stateAt inp 279) ∧ SameEndpoint (stateAt inp 279) (inp 279) := by
  intro inp
  have hstate : stateAt inp 279 = Clocked.run step (State.reset 1) (outAndData.take 279) :=
    traj_getD _ _ _ _ (by decide +kernel)
  have htakes : TakesData (stateAt inp 279) (inp 279) := by
    rw [hstate]
    refine .inl ?_
    decide +kernel
  obtain ⟨hkind, k, -, hendp⟩ := views_agree inp 279 htakes
  refine ⟨hkind, hendp (getD_of_forall (fun i : Input 1 => i.diffRxOk = true) ?_ rfl k)⟩
  intro i hi
  obtain ⟨l, -, hl⟩ := List.mem_flatMap.1 hi
  rw [List.eq_of_mem_replicate hl]
  rfl

/-- Three cycles for each symbol, with a glitch where the line does not change. -/
def quickCycles : Line → List Line → List Line
  | _, [] => []
  | prev, l :: ls =>
      (if l ≠ prev then l else if l = .j then .k else .j) :: l :: l :: quickCycles l ls

/-- A token for endpoint 1 of address 13 goes on in place of its EOP with KK and the bits of a
token for endpoint 0. An empty DATA0 packet follows. The receiver is not ready in the cycle in
which the first token is complete. -/
def driftInputs : List (Input 2) :=
  let word := bitsLsb 13#7 ++ bitsLsb 1#4
  let token := hostPacket (FsRx.pidBits usbPidOut ++ word ++ FsRx.crc5Bits word)
  let runt := (nrzi false (true :: List.replicate 18 false)).map Line.ofLevel
  let data := hostPacket (FsRx.pidBits usbPidData0 ++ List.replicate 16 false)
  (quickCycles .j ([.j, .j] ++ token.take 32 ++ [.k, .k] ++ runt ++ [.se0, .j] ++ data)).mapIdx
    fun t l => { hostInput 2 l with devAddr := 13, cfgEopSingleBit := true, diffRxOk := t != 108 }

/-- The DATA packet of endpoint 1 ends with endpoint 0 in the receiver. -/
theorem drift_driftInputs :
    let s := Clocked.run step (State.reset 2) (driftInputs.take 273)
    let i := driftInputs.getD 273 (hostInput 2 .j)
    (s.out.outXactState = .rcvdDataStart ∧ (rxSignals s i).dataPacketReceived = true) ∧
      (rxSignals s i).epCurrentD ≠ s.out.outEpCurrent := by
  decide +kernel

theorem not_forall_sameEndpoint :
    ¬ ∀ (inp : ℕ → Input 2) (t : ℕ), TakesData (stateAt inp t) (inp t) →
      SameEndpoint (stateAt inp t) (inp t) ∧ SameKind (stateAt inp t) := by
  intro hall
  have hstate : stateAt (fun t => driftInputs.getD t (hostInput 2 .j)) 273 =
      Clocked.run step (State.reset 2) (driftInputs.take 273) :=
    traj_getD _ _ _ _ (by decide +kernel)
  have hrun := hall (fun t => driftInputs.getD t (hostInput 2 .j)) 273
  rw [hstate] at hrun
  obtain ⟨htakes, hne⟩ := drift_driftInputs
  exact hne (hrun (.inl htakes)).1.2

end UsbDev.NbPe
