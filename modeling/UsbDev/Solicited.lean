import UsbDev.OneTransmission

/-!
# Every transmission is an answer

A transmission of `usb_fs_nb_pe` in a run over any line inputs: which packet it
answers, and which token that packet belongs to. The OUT engine waits for the
start of a packet after its token; a packet that ends before that start has not
been seen by it.
-/
namespace UsbDev.FsRx

variable {s : State} {i : Input}

/-! ### After the end of a packet -/

/-- No packet is received, and SYNC cannot be complete without a start of packet shown: the
last symbols do not end SYNC, and a K after J is followed by J when the receiver is muted. -/
structure BetweenPackets (s : State) : Prop where
  packetValid : s.packetValid = false
  inPacket : s.inPacket = false
  noSync : s.lineHistory.extractLsb' 0 6 ≠ 0b100101#6
  edge : s.lineHistory.extractLsb' 0 4 = 0b1001#4 →
    s.bitPhase = 2 ∨ (Settling s ∧ s.bitPhase ≠ 1) ∨ SeesJ s

/-- SYNC ends in J, K and K. -/
theorem noSync_of_low {h : BitVec 12} (hne : h.extractLsb' 0 6 ≠ 0b100101#6) :
    (h == 0b011001100101#12) = false := by
  rw [beq_eq_false_iff_ne]
  rintro rfl
  exact hne rfl

theorem push_six (h : BitVec 12) (x : BitVec 2) :
    (h.extractLsb' 0 10 ++ x).extractLsb' 0 6 = h.extractLsb' 0 4 ++ x := by
  refine BitVec.eq_of_getLsbD_eq fun k hk => ?_
  simp only [BitVec.getLsbD_extractLsb', BitVec.getLsbD_append, hk, decide_true, Bool.true_and,
    Nat.zero_add]
  split_ifs
  · rfl
  · rw [decide_eq_true (show k - 2 < 10 by omega), decide_eq_true (show k - 2 < 4 by omega)]

/-- What the last three symbols say about the last two. -/
theorem edge_of_six : ∀ (a : BitVec 4) (x : BitVec 2), a ++ x = 0b100101#6 →
    a = 0b1001#4 ∧ x = 0b01#2 := by decide +kernel

theorem last_of_edge : ∀ a x : BitVec 2, a ++ x = 0b1001#4 → x = 0b01#2 := by decide

/-- Without the shown start of a packet none is received in the next cycle either. -/
theorem BetweenPackets.step (h : BetweenPackets s) (hok : LineOk s) (hl : i.linkReset = false)
    (hsop : seeSop s i = false) : BetweenPackets (step s i) := by
  have hmuted : s.lineHistory.extractLsb' 0 4 = 0b1001#4 → i.txEn = true := by
    intro hedge
    simpa [seeSop, hedge, h.inPacket] using hsop
  have hvalid : packetValidD s i = false := by
    rw [packetValidD, h.packetValid, noSync_of_low h.noSync]
    split_ifs <;> simp_all
  have hin : inPacketD s i = false := by
    rw [inPacketD, hsop, h.inPacket]
    simp
  by_cases hphase : s.bitPhase = 1
  · have hhist : (FsRx.step s i).lineHistory =
        s.lineHistory.extractLsb' 0 10 ++ (lineStateRx s i).extractLsb' 0 2 := by
      rw [lineHistory_step hl, lineHistoryD, lineStateValid_iff.2 hphase, if_pos rfl]
    constructor
    · rw [packetValid_step hl, hvalid]
    · simp [FsRx.step, hl, hin]
    · rw [hhist, push_six]
      intro hsync
      obtain ⟨hedge, hk⟩ := edge_of_six _ _ hsync
      have hsees : SeesJ s := by
        obtain hp | ⟨_, hne⟩ | hsees := h.edge hedge
        · rw [hphase] at hp
          exact absurd hp (by decide)
        · exact absurd hphase hne
        · exact hsees
      rw [hsees.lineStateRx i] at hk
      exact absurd hk (by decide)
    · rw [low_step_of_valid hl hphase]
      intro hedge
      have hk := last_of_edge _ _ hedge
      have hdt : lineStateRx s i ≠ DT := by
        intro hdt
        rw [hdt] at hk
        exact absurd hk (by decide)
      rw [bitPhase_step hl, bitPhaseD, if_neg hdt, hphase]
      exact .inl rfl
  · have hhist : (FsRx.step s i).lineHistory = s.lineHistory := by
      rw [lineHistory_step hl, lineHistoryD_of_not_valid hphase]
    constructor
    · rw [packetValid_step hl, hvalid]
    · simp [FsRx.step, hl, hin]
    · rw [hhist]
      exact h.noSync
    · rw [hhist]
      intro hedge
      have ht := hmuted hedge
      obtain hp | ⟨hsettle, _⟩ | hsees := h.edge hedge
      · refine .inr (.inl ⟨hok.mute hl ht, ?_⟩)
        obtain hnext | hnext := bitPhase_after_strobe (i := i) hp <;>
          exact fun hone => absurd (hone.symm.trans hnext) (by decide)
      · exact .inr (.inr (hsettle.step hl ht))
      · exact .inr (.inr (hsees.settling.step hl ht))

/-- A valid packet that does not end because the receiver is not ready ends in EOP. -/
theorem BetweenPackets.start (he : packetEnd s i = true) (hv : validPacket s = true)
    (hd : i.diffRxOk = true) (hl : i.linkReset = false) : BetweenPackets (FsRx.step s i) := by
  obtain ⟨hphase, hpacket, hends⟩ := packetEnd_cases he
  have heop : seeEop s i = true := by
    rw [packetValidD, lineStateValid_iff.2 hphase, hd, hpacket] at hends
    simpa using hends
  have hse0 : s.lineHistory.extractLsb' 0 2 = 0b00#2 := by
    have hnot : s.bitstuffError = false ∧ seePreamble s = false := by
      constructor
      · simp only [validPacket, Bool.and_eq_true, Bool.not_eq_true'] at hv
        exact hv.1.2
      · rw [← Bool.not_eq_true]
        intro hpre
        rw [not_validPacket_of_early (.inr hpre)] at hv
        exact absurd hv (by simp)
    simp only [seeEop, hnot, Bool.or_false, Bool.or_eq_true, Bool.and_eq_true, beq_iff_eq] at heop
    obtain ⟨_, hlow⟩ | hlow := heop
    · exact hlow
    · rw [← low_of_low s.lineHistory (show 2 ≤ 4 by omega), hlow]
      rfl
  have hlow := low_step_of_valid (i := i) hl hphase
  rw [hse0] at hlow
  have hfour : (FsRx.step s i).lineHistory.extractLsb' 0 4 ≠ 0b1001#4 := by
    rw [hlow]
    generalize (lineStateRx s i).extractLsb' 0 2 = x
    revert x
    decide
  constructor
  · exact packetValid_step_of_end he
  · simp [FsRx.step, hl, inPacketD, heop]
  · intro hsync
    rw [← low_of_low _ (show 4 ≤ 6 by omega), hsync] at hlow
    revert hlow
    generalize (lineStateRx s i).extractLsb' 0 2 = x
    revert x
    decide
  · exact fun hedge => absurd hedge hfour

end UsbDev.FsRx

namespace UsbDev.NbPe
open Clocked (traj traj_succ)

section
variable {N : ℕ} [NeZero N]

/-! ### The waiting states of the OUT engine -/

section waiting
variable {s : State N} {i : Input N}

/-- The OUT engine waits after a token, until a packet starts. -/
theorem rcvdOut_step (h : (step s i).out.outXactState = .rcvdOut) :
    i.linkReset = false ∧
      ((s.out.outXactState = .idle ∧ (outInput s i).epActive = true ∧
          ((outInput s i).outTokenReceived = true ∨
            ((outInput s i).setupTokenReceived = true ∧ (outInput s i).epIsControl = true))) ∨
        (s.out.outXactState = .rcvdOut ∧ (rxSignals s i).pktStart = false)) := by
  have hstep : (step s i).out.outXactState =
      if i.linkReset then .idle else (OutPe.comb s.out (outInput s i)).stateNext := rfl
  rw [hstep] at h
  split_ifs at h with hl
  refine ⟨by simpa using hl, ?_⟩
  unfold OutPe.comb at h
  cases hs : s.out.outXactState <;> simp only [hs] at h
  case idle =>
    split_ifs at h with htoken
    exact .inl ⟨rfl, by simpa using htoken⟩
  case rcvdOut =>
    split_ifs at h with hstart
    exact .inr ⟨rfl, by simpa [outInput] using hstart⟩
  all_goals split_ifs at h

/-- Once the packet has started the OUT engine waits for the end of one. -/
theorem rcvdDataStart_step (h : (step s i).out.outXactState = .rcvdDataStart) :
    i.linkReset = false ∧
      ((s.out.outXactState = .rcvdOut ∧ (rxSignals s i).pktStart = true) ∨
        (s.out.outXactState = .rcvdDataStart ∧ (rxSignals s i).pktEnd = false)) := by
  have hstep : (step s i).out.outXactState =
      if i.linkReset then .idle else (OutPe.comb s.out (outInput s i)).stateNext := rfl
  rw [hstep] at h
  split_ifs at h with hl
  refine ⟨by simpa using hl, ?_⟩
  unfold OutPe.comb at h
  cases hs : s.out.outXactState <;> simp only [hs] at h
  case rcvdOut =>
    split_ifs at h with hstart
    exact .inl ⟨rfl, by simpa [outInput] using hstart⟩
  case rcvdDataStart =>
    split_ifs at h with _ _ hother hdata
    refine .inr ⟨rfl, ?_⟩
    by_contra hend
    simp_all [OutPe.Input.invalidPacketReceived, OutPe.Input.nonDataPacketReceived,
      RxSignals.dataPacketReceived, outInput]
  all_goals split_ifs at h

end waiting

/-! ### Requests and answers -/

variable (inp : ℕ → Input N)

/-- The registers in cycle `t` of a run. -/
def stateAt (t : ℕ) : State N := traj step (State.reset N) inp t

def PktStartAt (t : ℕ) : Prop := (rxSignals (stateAt inp t) (inp t)).pktStart = true

def PktEndAt (t : ℕ) : Prop := (rxSignals (stateAt inp t) (inp t)).pktEnd = true

/-- A valid IN token for the device address and an enabled endpoint ends. -/
def InTokenAt (t : ℕ) : Prop :=
  (inInput (stateAt inp t) (inp t)).inTokenReceived = true ∧
    (inInput (stateAt inp t) (inp t)).epActive = true

/-- A valid OUT token, or a SETUP token to a control endpoint, for the device address and an
enabled endpoint ends. -/
def OutTokenAt (t : ℕ) : Prop :=
  (outInput (stateAt inp t) (inp t)).epActive = true ∧
    ((outInput (stateAt inp t) (inp t)).outTokenReceived = true ∨
      ((outInput (stateAt inp t) (inp t)).setupTokenReceived = true ∧
        (outInput (stateAt inp t) (inp t)).epIsControl = true))

/-- A valid DATA0 or DATA1 packet ends. -/
def DataAt (t : ℕ) : Prop := (rxSignals (stateAt inp t) (inp t)).dataPacketReceived = true

/-- The first start of a packet after cycle `k`. -/
structure FirstStart (k x : ℕ) : Prop where
  after : k < x
  start : PktStartAt inp x
  first : ∀ u, k < u → u < x → ¬ PktStartAt inp u

/-- The token of cycle `k` asks for the DATA packet of cycle `n`: the first packet to end after
the start of packet that follows the token. No other packet ends in between if the differential
receiver is ready when the token ends. -/
structure Asks (k n : ℕ) : Prop where
  token : OutTokenAt inp k
  data : DataAt inp n
  firstEnd : ∃ x, FirstStart inp k x ∧ x < n ∧ ∀ u, x < u → u < n → ¬ PktEndAt inp u
  lastEnd : (inp k).diffRxOk = true → ∀ u, k < u → u < n → ¬ PktEndAt inp u

/-- The transmission that starts in cycle `t` answers the packet that ends in cycle `n`. -/
inductive Answers (t n : ℕ) : Prop
  | token : (inComb (stateAt inp t) (inp t)).txPktStart = true → n + 1 = t → InTokenAt inp n →
      Answers t n
  | data (k : ℕ) : (outComb (stateAt inp t) (inp t)).txPktStart = true → n = t ∨ n + 1 = t →
      Asks inp k n → Answers t n

variable {inp}

theorem stateAt_succ (t : ℕ) : stateAt inp (t + 1) = step (stateAt inp t) (inp t) := rfl

theorem lineOk_stateAt (t : ℕ) : FsRx.LineOk (stateAt inp t).rx := by
  refine Clocked.traj_invariant (fun s : State N => FsRx.LineOk s.rx) ?_ (fun u h => h.step _) t
  constructor <;> simp [State.reset, FsRx.State.reset, FsRx.SE0]

theorem OutTokenAt.pktEnd {k : ℕ} (h : OutTokenAt inp k) : PktEndAt inp k := by
  obtain ⟨_, hout | ⟨hsetup, _⟩⟩ := h
  · simp only [OutPe.Input.outTokenReceived, Bool.and_eq_true] at hout
    exact RxSignals.pktEnd_of_tokenReceived hout.1
  · simp only [OutPe.Input.setupTokenReceived, Bool.and_eq_true] at hsetup
    exact RxSignals.pktEnd_of_tokenReceived hsetup.1

theorem OutTokenAt.pktValid {k : ℕ} (h : OutTokenAt inp k) :
    (rxSignals (stateAt inp k) (inp k)).pktValid = true := by
  obtain ⟨_, hout | ⟨hsetup, _⟩⟩ := h
  · simp only [OutPe.Input.outTokenReceived, RxSignals.tokenReceived, Bool.and_eq_true] at hout
    exact hout.1.1.1.2
  · simp only [OutPe.Input.setupTokenReceived, RxSignals.tokenReceived, Bool.and_eq_true] at hsetup
    exact hsetup.1.1.1.2

theorem DataAt.pktEnd {n : ℕ} (h : DataAt inp n) : PktEndAt inp n := packetEnd_of_dataPacket h

variable (inp) in
/-- What has happened since the token when no packet has started yet. -/
structure WaitsFor (k t : ℕ) : Prop where
  before : k < t
  token : OutTokenAt inp k
  noStart : ∀ u, k < u → u < t → ¬ PktStartAt inp u
  quiet : (inp k).diffRxOk = true → FsRx.BetweenPackets (stateAt inp t).rx ∧
    ∀ u, k < u → u < t → ¬ PktEndAt inp u

variable (inp) in
/-- What has happened since the token when the packet has not ended yet. -/
structure Receives (k t : ℕ) : Prop where
  token : OutTokenAt inp k
  started : ∃ x, FirstStart inp k x ∧ x < t ∧ ∀ u, x < u → u < t → ¬ PktEndAt inp u
  quiet : (inp k).diffRxOk = true → ∀ u, k < u → u < t → ¬ PktEndAt inp u

/-- The state of the OUT engine says what has happened on the line. -/
structure Traced (inp : ℕ → Input N) (t : ℕ) : Prop where
  rcvdOut : (stateAt inp t).out.outXactState = .rcvdOut → ∃ k, WaitsFor inp k t
  rcvdDataStart : (stateAt inp t).out.outXactState = .rcvdDataStart →
    ∃ k, Receives inp k t
  rcvdDataEnd : (stateAt inp t).out.outXactState = .rcvdDataEnd →
    ∃ k n, n + 1 = t ∧ Asks inp k n

/-- No packet ends while none is received. -/
theorem not_pktEndAt {t : ℕ} (h : FsRx.BetweenPackets (stateAt inp t).rx) : ¬ PktEndAt inp t := by
  intro hend
  have hpacket := (FsRx.packetEnd_cases hend).2.1
  rw [h.packetValid] at hpacket
  exact absurd hpacket (by simp)

theorem WaitsFor.start {k : ℕ} (h : OutTokenAt inp k) (hl : (inp k).linkReset = false) :
    WaitsFor inp k (k + 1) where
  before := by omega
  token := h
  noStart := fun u hk hu => by omega
  quiet := fun hd => ⟨FsRx.BetweenPackets.start (i := rxInput (stateAt inp k) (inp k)) h.pktEnd
    h.pktValid hd hl, fun u hk hu => by omega⟩

theorem WaitsFor.next {k t : ℕ} (h : WaitsFor inp k t) (hl : (inp t).linkReset = false)
    (hs : ¬ PktStartAt inp t) : WaitsFor inp k (t + 1) where
  before := by have := h.before; omega
  token := h.token
  noStart := by
    intro u hk hu
    obtain hlt | rfl := Nat.lt_succ_iff_lt_or_eq.1 hu
    · exact h.noStart u hk hlt
    · exact hs
  quiet := by
    intro hd
    obtain ⟨hbetween, hend⟩ := h.quiet hd
    have hsop : FsRx.seeSop (stateAt inp t).rx (rxInput (stateAt inp t) (inp t)) = false := by
      simpa [PktStartAt, rxSignals, FsRx.signals] using hs
    refine ⟨hbetween.step (lineOk_stateAt t) hl hsop, fun u hk hu => ?_⟩
    obtain hlt | rfl := Nat.lt_succ_iff_lt_or_eq.1 hu
    · exact hend u hk hlt
    · exact not_pktEndAt hbetween

theorem WaitsFor.receive {k t : ℕ} (h : WaitsFor inp k t) (hs : PktStartAt inp t) :
    Receives inp k (t + 1) where
  token := h.token
  started := ⟨t, ⟨h.before, hs, h.noStart⟩, by omega, fun u hk hu => by omega⟩
  quiet := by
    intro hd u hk hu
    obtain ⟨hbetween, hend⟩ := h.quiet hd
    obtain hlt | rfl := Nat.lt_succ_iff_lt_or_eq.1 hu
    · exact hend u hk hlt
    · exact not_pktEndAt hbetween

theorem Receives.next {k t : ℕ} (h : Receives inp k t) (he : ¬ PktEndAt inp t) :
    Receives inp k (t + 1) where
  token := h.token
  started := by
    obtain ⟨x, hx, hxt, hend⟩ := h.started
    refine ⟨x, hx, by omega, fun u hk hu => ?_⟩
    obtain hlt | rfl := Nat.lt_succ_iff_lt_or_eq.1 hu
    · exact hend u hk hlt
    · exact he
  quiet := by
    intro hd u hk hu
    obtain hlt | rfl := Nat.lt_succ_iff_lt_or_eq.1 hu
    · exact h.quiet hd u hk hlt
    · exact he

theorem Receives.asks {k t : ℕ} (h : Receives inp k t) (hd : DataAt inp t) :
    Asks inp k t where
  token := h.token
  data := hd
  firstEnd := h.started
  lastEnd := h.quiet

theorem traced (inp : ℕ → Input N) (t : ℕ) : Traced inp t := by
  induction t with
  | zero => constructor <;> intro h <;> cases h
  | succ t ih =>
      constructor <;> rw [stateAt_succ] <;> intro h
      case rcvdOut =>
        obtain ⟨hl, ⟨_, htoken⟩ | ⟨hstate, hstart⟩⟩ := rcvdOut_step h
        · exact ⟨t, WaitsFor.start htoken hl⟩
        · obtain ⟨k, hk⟩ := ih.rcvdOut hstate
          exact ⟨k, hk.next hl (by simp [PktStartAt, hstart])⟩
      case rcvdDataStart =>
        obtain ⟨hl, ⟨hstate, hstart⟩ | ⟨hstate, hend⟩⟩ := rcvdDataStart_step h
        · obtain ⟨k, hk⟩ := ih.rcvdOut hstate
          exact ⟨k, hk.receive hstart⟩
        · obtain ⟨k, hk⟩ := ih.rcvdDataStart hstate
          exact ⟨k, hk.next (by simp [PktEndAt, hend])⟩
      case rcvdDataEnd =>
        obtain ⟨hstate, hdata, _⟩ := rcvdDataEnd_step h
        obtain ⟨k, hk⟩ := ih.rcvdDataStart hstate
        exact ⟨k, t, rfl, hk.asks hdata⟩

/-- Every transmission answers a packet. -/
theorem exists_answers {t : ℕ} (h : txPktStart (stateAt inp t) (inp t) = true) :
    ∃ n, Answers inp t n := by
  rw [txPktStart, Bool.or_eq_true] at h
  obtain hin | hout := h
  · cases t with
    | zero => cases (in_txPktStart_iff _ _).1 hin
    | succ n =>
        have hstate := (in_txPktStart_iff _ _).1 hin
        rw [stateAt_succ] at hstate
        obtain ⟨htoken, hactive, _⟩ := rcvdIn_step hstate
        exact ⟨n, .token hin rfl ⟨htoken, hactive⟩⟩
  · obtain ⟨hstate, hdata, _⟩ | ⟨hstate, _⟩ := out_txPktStart_cases hout
    · obtain ⟨k, hk⟩ := (traced inp t).rcvdDataStart hstate
      exact ⟨t, .data k hout (.inl rfl) (hk.asks hdata)⟩
    · obtain ⟨k, n, hn, hasks⟩ := (traced inp t).rcvdDataEnd hstate
      exact ⟨n, .data k hout (.inr hn) hasks⟩

/-- The OUT engine starts no packets in two cycles running. -/
theorem out_not_again {t : ℕ} (h : (outComb (stateAt inp t) (inp t)).txPktStart = true) :
    (outComb (stateAt inp (t + 1)) (inp (t + 1))).txPktStart ≠ true := by
  intro hagain
  have hidle : (outComb (stateAt inp t) (inp t)).stateNext = .idle := by
    obtain ⟨_, _, hnext⟩ | ⟨_, hnext⟩ := out_txPktStart_cases h <;> exact hnext
  have hstep : (stateAt inp (t + 1)).out.outXactState = .idle := by
    have hdef : (stateAt inp (t + 1)).out.outXactState =
        if (inp t).linkReset then .idle else (outComb (stateAt inp t) (inp t)).stateNext := rfl
    rw [hdef, hidle]
    split_ifs <;> rfl
  obtain ⟨hstate, _⟩ | ⟨hstate, _⟩ := out_txPktStart_cases hagain <;>
  · rw [hstep] at hstate
    cases hstate

/-- An IN token is no DATA packet. -/
theorem InTokenAt.not_dataAt {n : ℕ} (h : InTokenAt inp n) : ¬ DataAt inp n := by
  intro hdata
  rw [DataAt, dataPacket_of_inToken h.1] at hdata
  exact absurd hdata (by simp)

/-- A packet is answered once. -/
theorem Answers.unique {t t' n : ℕ} (h : Answers inp t n) (h' : Answers inp t' n) : t = t' := by
  cases h with
  | token hin ht htoken =>
      cases h' with
      | token _ ht' _ => omega
      | data k _ _ hasks => exact absurd hasks.data htoken.not_dataAt
  | data k hout ht hasks =>
      cases h' with
      | token _ _ htoken => exact absurd hasks.data htoken.not_dataAt
      | data k' hout' ht' _ =>
          by_contra hne
          obtain ⟨rfl, rfl⟩ | ⟨rfl, rfl⟩ : (n = t ∧ n + 1 = t') ∨ (n = t' ∧ n + 1 = t) := by omega
          · exact out_not_again hout hout'
          · exact out_not_again hout' hout

theorem FirstStart.unique {k x x' : ℕ} (h : FirstStart inp k x) (h' : FirstStart inp k x') :
    x = x' := by
  by_contra hne
  obtain hlt | hlt := Nat.lt_or_gt_of_ne hne
  · exact h'.first x h.after hlt h.start
  · exact h.first x' h'.after hlt h'.start

/-- A token asks for one DATA packet. -/
theorem Asks.unique {k n n' : ℕ} (h : Asks inp k n) (h' : Asks inp k n') : n = n' := by
  obtain ⟨x, hx, hxn, hend⟩ := h.firstEnd
  obtain ⟨x', hx', hxn', hend'⟩ := h'.firstEnd
  obtain rfl := hx.unique hx'
  by_contra hne
  obtain hlt | hlt := Nat.lt_or_gt_of_ne hne
  · exact hend' n hxn hlt h.data.pktEnd
  · exact hend n' hxn' hlt h'.data.pktEnd

/-- In every run each transmission answers one packet, each packet is answered at most once, and
each token asks for at most one DATA packet. -/
theorem solicited (inp : ℕ → Input N) :
    (∀ t, txPktStart (stateAt inp t) (inp t) = true → ∃ n, Answers inp t n) ∧
      (∀ t t' n, Answers inp t n → Answers inp t' n → t = t') ∧
      (∀ k n n', Asks inp k n → Asks inp k n' → n = n') :=
  ⟨fun _ => exists_answers, fun _ _ _ => Answers.unique, fun _ _ _ => Asks.unique⟩

end

/-! ### A token cut off by the wake-up logic -/

/-- An OUT token, a K in place of its SE0 with two packets of SE0, and an empty DATA0 packet.
The receiver is not ready in the one cycle in which the token is complete. -/
def cutOffToken : List (Input 1) :=
  (hostCycles 1 ((hostPacket (hostToken usbPidOut)).take 32 ++ [.k, .k, .se0, .se0, .j] ++
    hostPacket (FsRx.pidBits usbPidData0 ++ List.replicate 16 false) ++ [.j, .j])).mapIdx
      fun t i => { i with diffRxOk := t != 135 }

def cutOffRun (t : ℕ) : Input 1 := cutOffToken.getD t (hostInput 1 .j)

/-- The end of a packet, of a valid one, of a DATA packet, and the start of a transmission. -/
def events (s : State 1) (i : Input 1) : Bool × Bool × Bool × Bool :=
  ((rxSignals s i).pktEnd, (rxSignals s i).pktEnd && (rxSignals s i).pktValid,
    (rxSignals s i).dataPacketReceived, txPktStart s i)

/-- The token ends in cycle 135, an invalid packet in cycle 147 and the DATA packet in cycle 287,
after which the device answers. -/
def cutOffEvents (t : ℕ) : Bool × Bool × Bool × Bool :=
  (t == 135 || t == 147 || t == 287, t == 135 || t == 287, t == 287, t == 288)

theorem events_cutOffToken :
    Clocked.outs step events (State.reset 1) cutOffToken =
      (List.range 296).map cutOffEvents := by decide +kernel

theorem events_cutOffRun {t : ℕ} (ht : t < 296) :
    events (stateAt cutOffRun t) (cutOffRun t) = cutOffEvents t :=
  Clocked.out_traj_of_outs events_cutOffToken (hostInput 1 .j) ht

theorem txPktStart_cutOffRun : txPktStart (stateAt cutOffRun 288) (cutOffRun 288) = true := by
  have hevents := events_cutOffRun (show 288 < 296 by omega)
  simp only [events, cutOffEvents, Prod.mk.injEq] at hevents
  rw [hevents.2.2.2]
  rfl

theorem solicited_cutOffRun : ∃ n, Answers cutOffRun 288 n :=
  (solicited cutOffRun).1 288 txPktStart_cutOffRun

/-- The invalid packet after the token is the last one before a DATA packet that is answered. -/
theorem not_forall_lastEnd :
    ¬ ∀ (inp : ℕ → Input 1) (t : ℕ), txPktStart (stateAt inp t) (inp t) = true →
      (∃ n, n + 1 = t ∧ InTokenAt inp n) ∨
        ∃ n k, (n = t ∨ n + 1 = t) ∧ DataAt inp n ∧ OutTokenAt inp k ∧ k < n ∧
          ∀ u, k < u → u < n → ¬ PktEndAt inp u := by
  intro hall
  have hevents : ∀ t < 296, events (stateAt cutOffRun t) (cutOffRun t) = cutOffEvents t :=
    fun t ht => events_cutOffRun ht
  simp only [events, cutOffEvents, Prod.mk.injEq] at hevents
  have hend : ∀ t < 296, PktEndAt cutOffRun t ↔ t = 135 ∨ t = 147 ∨ t = 287 := by
    intro t ht
    rw [PktEndAt, (hevents t ht).1]
    simp [or_assoc]
  obtain ⟨n, hn, htoken⟩ | ⟨n, k, hn, hdata, htoken, hlt, hlast⟩ := hall cutOffRun 288
      txPktStart_cutOffRun
  · obtain rfl : n = 287 := by omega
    have hdata : DataAt cutOffRun 287 := by
      rw [DataAt, (hevents 287 (by omega)).2.2.1]
      rfl
    exact htoken.not_dataAt hdata
  · have hn287 : n = 287 := by
      have h := (hend n (by omega)).1 hdata.pktEnd
      omega
    subst hn287
    obtain rfl | rfl | rfl := (hend k (by omega)).1 htoken.pktEnd
    · exact hlast 147 (by omega) (by omega) ((hend 147 (by omega)).2 (by omega))
    · have hvalid := (hevents 147 (by omega)).2.1
      have hboth : ((rxSignals (stateAt cutOffRun 147) (cutOffRun 147)).pktEnd &&
          (rxSignals (stateAt cutOffRun 147) (cutOffRun 147)).pktValid) = true := by
        rw [Bool.and_eq_true]
        exact ⟨htoken.pktEnd, htoken.pktValid⟩
      rw [hvalid] at hboth
      simp at hboth
    · omega

end UsbDev.NbPe
