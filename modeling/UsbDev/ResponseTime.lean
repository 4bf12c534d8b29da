import Mathlib.Order.Nat
import UsbDev.OutViews

/-!
# Packets in time

After a token the OUT engine counts down while it waits for the DATA packet, and
so does the IN engine for the handshake after its own packet. A pulse of
`pkt_start` ends the wait for good, and the receiver shows one at any edge from J
to K. If every pulse that ends a wait belongs to the SYNC of a packet, then the
packets that the engines take were on the line in time.
-/
namespace UsbDev.NbPe

open Clocked LineCode

section
variable {N : ℕ} [NeZero N]

/-- The last two symbols in the history. -/
def lastPair (s : State N) : BitVec 4 := s.rx.lineHistory.extractLsb' 0 4

variable (inp : ℕ → Input N)

/-- The edge from J to K sampled in cycle `x` is one of the SYNC after which the identifier of a
packet begins in cycle `p`: the symbols alternate up to the two K at the end. -/
structure SyncEdge (x p : ℕ) : Prop where
  before : x < p
  sampled : FsRx.lineStateValid (stateAt inp x).rx = true
  edge : lastPair (stateAt inp (x + 1)) = 0b1001#4
  alternates : ∀ u, x < u → u ≤ p →
    lastPair (stateAt inp u) = 0b1001#4 ∨ lastPair (stateAt inp u) = 0b0110#4 ∨
      lastPair (stateAt inp u) = 0b0101#4 ∧
        ∀ v, u ≤ v → v < p → FsRx.lineStateValid (stateAt inp v).rx = false
  noPacket : ∀ u, x < u → u ≤ p → (stateAt inp u).rx.packetValid = false
  starts : FsRx.packetStart (stateAt inp p).rx (rxInput (stateAt inp p) (inp p)) = true

/-- The packet that ends in cycle `n` is the one whose identifier began in cycle `p`. -/
structure PacketFrom (p n : ℕ) : Prop where
  before : p < n
  starts : FsRx.packetStart (stateAt inp p).rx (rxInput (stateAt inp p) (inp p)) = true
  during : ∀ u, p < u → u ≤ n → (stateAt inp u).rx.packetValid = true
  ends : PktEndAt inp n

/-- The first edge from J to K of the SYNC of the packet that ends in cycle `n` is sampled within
`m` cycles after cycle `k`. -/
def InTime (k m n : ℕ) : Prop :=
  ∃ p x, PacketFrom inp p n ∧ IsLeast {x | k ≤ x ∧ SyncEdge inp x p} x ∧ x ≤ k + m

/-- The OUT engine accepts or acknowledges a DATA packet in cycle `t`. -/
def OutTakes (t : ℕ) : Prop :=
  (outComb (stateAt inp t) (inp t)).acked = true ∨
    (outComb (stateAt inp t) (inp t)).txPktStart = true ∧
      (outComb (stateAt inp t) (inp t)).txPid = usbPidAck

/-- The IN engine takes the packet that ends in cycle `n` for the ACK it waits for. -/
def InTakes (n : ℕ) : Prop :=
  (stateAt inp n).inp.inXactState = .waitAck ∧
    (inInput (stateAt inp n) (inp n)).ackReceived = true

/-- The IN engine's DATA packet ended in cycle `k`, and in cycle `n` the handshake is awaited. -/
structure SentBefore (k n : ℕ) : Prop where
  before : k < n
  sent : (stateAt inp k).inp.inXactState = .sendData ∨
    (stateAt inp k).inp.inXactState = .waitTxEnd
  ends : txPktEnd (stateAt inp k) = true
  awaits : ∀ u, k < u → u ≤ n → (stateAt inp u).inp.inXactState = .waitAckStart ∨
    (stateAt inp u).inp.inXactState = .waitAck

/-- Each packet taken by an engine has started within `AckTimeoutCnt + 1` cycles after the token,
or after the DATA packet that it acknowledges. -/
structure TimeoutEnforced : Prop where
  out : ∀ t, OutTakes inp t → ∃ k n, OpenedBy inp k t ∧ DataAt inp n ∧ (n = t ∨ n + 1 = t) ∧
    InTime inp k (OutPe.ackTimeoutCnt.toNat + 1) n
  ack : ∀ n, InTakes inp n → ∃ k, SentBefore inp k n ∧
    InTime inp k (InPe.ackTimeoutCnt.toNat + 1) n

/-- A pulse that ends the wait in cycle `w` comes from an edge that was sampled during the wait and
belongs to the SYNC of the next packet. -/
def SyncEndsWait (waits : State N → Prop) (w : ℕ) : Prop :=
  waits (stateAt inp w) → PktStartAt inp w →
    ∃ x p, SyncEdge inp x p ∧ x < w ∧ w ≤ p ∧ ∀ u, x < u → u ≤ w → waits (stateAt inp u)

def AwaitsData (s : State N) : Prop := s.out.outXactState = .rcvdOut

def AwaitsHandshake (s : State N) : Prop := s.inp.inXactState = .waitAckStart

variable {inp}

/-! ### The wait and its countdown -/

theorem awaitsData_previous {t : ℕ} (h : AwaitsData (stateAt inp (t + 1))) :
    (outComb (stateAt inp t) (inp t)).xactStart = true ∧
        (stateAt inp (t + 1)).out.timeoutCntdown = OutPe.ackTimeoutCnt ∨
      AwaitsData (stateAt inp t) ∧ (stateAt inp t).out.timeoutCntdown ≠ 0 ∧
        (stateAt inp (t + 1)).out.timeoutCntdown = (stateAt inp t).out.timeoutCntdown - 1 := by
  have hstep : (stateAt inp (t + 1)).out.timeoutCntdown =
      (outComb (stateAt inp t) (inp t)).timeoutD := rfl
  rw [AwaitsData, stateAt_succ] at h
  obtain ⟨-, hnext⟩ := outXactState_step (s := stateAt inp t) (i := inp t) (by simp [h])
  rw [hstep]
  obtain ⟨hstart, -, hload⟩ | ⟨hwait, -, hcount, hdec⟩ := OutPe.rcvdOut_cases (hnext.symm.trans h)
  · exact .inl ⟨hstart, hload⟩
  · exact .inr ⟨hwait, hcount, hdec⟩

theorem awaitsHandshake_previous {t : ℕ} (h : AwaitsHandshake (stateAt inp (t + 1))) :
    ((stateAt inp t).inp.inXactState = .sendData ∨ (stateAt inp t).inp.inXactState = .waitTxEnd) ∧
        txPktEnd (stateAt inp t) = true ∧
        (stateAt inp (t + 1)).inp.timeoutCntdown = InPe.ackTimeoutCnt ∨
      AwaitsHandshake (stateAt inp t) ∧ (stateAt inp t).inp.timeoutCntdown ≠ 0 ∧
        (stateAt inp (t + 1)).inp.timeoutCntdown = (stateAt inp t).inp.timeoutCntdown - 1 := by
  have hstep : (stateAt inp (t + 1)).inp.timeoutCntdown =
      (inComb (stateAt inp t) (inp t)).timeoutD := rfl
  rw [AwaitsHandshake, stateAt_succ] at h
  obtain ⟨-, hnext⟩ := inXactState_step (s := stateAt inp t) (i := inp t) (by simp [h])
  rw [hstep]
  obtain ⟨hsent, hend, hload⟩ | ⟨hwait, -, hcount, hdec⟩ :=
    InPe.waitAckStart_cases (hnext.symm.trans h)
  · exact .inl ⟨hsent, hend, hload⟩
  · exact .inr ⟨hwait, hcount, hdec⟩

/-- The wait of the OUT engine since the token of cycle `k`. -/
theorem exists_token {w : ℕ} (h : AwaitsData (stateAt inp w)) :
    ∃ k < w, (outComb (stateAt inp k) (inp k)).xactStart = true ∧
      w ≤ k + (OutPe.ackTimeoutCnt.toNat + 1) ∧ ∀ u, k < u → u ≤ w → AwaitsData (stateAt inp u) := by
  obtain ⟨k, hk, hstart, htime, hwait⟩ := exists_wait (fun u => AwaitsData (stateAt inp u))
    (fun u => (outComb (stateAt inp u) (inp u)).xactStart = true)
    (fun u => (stateAt inp u).out.timeoutCntdown) OutPe.ackTimeoutCnt nofun
    (fun _ => awaitsData_previous) h
  exact ⟨k, hk, hstart, by omega, hwait⟩

/-- The wait of the IN engine since the end of its packet in cycle `k`. -/
theorem exists_sent {w : ℕ} (h : AwaitsHandshake (stateAt inp w)) :
    ∃ k < w, ((stateAt inp k).inp.inXactState = .sendData ∨
        (stateAt inp k).inp.inXactState = .waitTxEnd) ∧ txPktEnd (stateAt inp k) = true ∧
      w ≤ k + (InPe.ackTimeoutCnt.toNat + 1) ∧
        ∀ u, k < u → u ≤ w → AwaitsHandshake (stateAt inp u) := by
  obtain ⟨k, hk, ⟨hsent, hend⟩, htime, hwait⟩ :=
    exists_wait (fun u => AwaitsHandshake (stateAt inp u))
      (fun u => ((stateAt inp u).inp.inXactState = .sendData ∨
        (stateAt inp u).inp.inXactState = .waitTxEnd) ∧ txPktEnd (stateAt inp u) = true)
      (fun u => (stateAt inp u).inp.timeoutCntdown) InPe.ackTimeoutCnt nofun
      (fun _ hw => (awaitsHandshake_previous hw).imp_left fun h => ⟨⟨h.1, h.2.1⟩, h.2.2⟩) h
  exact ⟨k, hk, hsent, hend, by omega, hwait⟩

/-! ### The packet that ends the wait -/

/-- A wait that ended in cycle `w` with an edge of a SYNC, and the packet that ends next. -/
theorem InTime.of_wait {waits : State N → Prop} {k m w n : ℕ} (hsync : SyncEndsWait inp waits w)
    (hwait : waits (stateAt inp w)) (hstart : PktStartAt inp w) (hk : ¬ waits (stateAt inp k))
    (hkw : k < w) (hwm : w ≤ k + m) (hwn : w < n) (hend : PktEndAt inp n)
    (hl : ∀ u, w ≤ u → u < n → (inp u).linkReset = false)
    (hnone : ∀ u, w < u → u < n → ¬ PktEndAt inp u) : InTime inp k m n := by
  obtain ⟨x, p, hedge, hxw, hwp, hwaits⟩ := hsync hwait hstart
  have hkx : k ≤ x := by
    by_contra hlt
    exact hk (hwaits k (by omega) hkw.le)
  have hvalid : (stateAt inp n).rx.packetValid = true := (FsRx.packetEnd_cases hend).2.1
  have hpn : p < n := by
    by_contra hle
    rw [hedge.noPacket n (by omega) (by omega)] at hvalid
    exact absurd hvalid (by decide)
  have hduring : ∀ u, p < u → u ≤ n → (stateAt inp u).rx.packetValid = true := by
    intro u hpu hun
    refine traj_persists (fun s : State N => s.rx.packetValid = true) (m := p + 1) hpu ?_ ?_
    · have hstarts := hedge.starts
      simp only [FsRx.packetStart, Bool.and_eq_true] at hstarts
      exact (FsRx.packetValid_step (hl p hwp hpn)).trans hstarts.1
    · intro v hpv hvu hv
      have hno : FsRx.packetEnd (stateAt inp v).rx (rxInput (stateAt inp v) (inp v)) = false := by
        rw [← Bool.not_eq_true]
        exact hnone v (by omega) (by omega)
      rw [FsRx.packetEnd, show (stateAt inp v).rx.packetValid = true from hv] at hno
      have hstays : FsRx.packetValidD (stateAt inp v).rx (rxInput (stateAt inp v) (inp v)) =
          true := by simpa using hno
      exact (FsRx.packetValid_step (hl v (by omega) (by omega))).trans hstays
  have hmem : ∃ y, y ∈ {y | k ≤ y ∧ SyncEdge inp y p} := ⟨x, hkx, hedge⟩
  classical
  refine ⟨p, Nat.find hmem, ⟨hpn, hedge.starts, hduring, hend⟩, Nat.isLeast_find hmem, ?_⟩
  have hle := Nat.find_min' hmem ⟨hkx, hedge⟩
  omega

/-- The OUT engine since the pulse that ended its wait. -/
theorem exists_dataStart {n : ℕ} (h : (stateAt inp n).out.outXactState = .rcvdDataStart) :
    ∃ w < n, (AwaitsData (stateAt inp w) ∧ PktStartAt inp w) ∧
      (∀ u, w ≤ u → u < n → (inp u).linkReset = false) ∧
      ∀ u, w < u → u < n → (stateAt inp u).out.outXactState = .rcvdDataStart ∧ ¬ PktEndAt inp u := by
  refine exists_entry (fun u => (stateAt inp u).out.outXactState = .rcvdDataStart) _ _ _ nofun ?_ h
  intro u hu
  rw [stateAt_succ] at hu
  obtain ⟨hl, ⟨hwait, hstart⟩ | ⟨hdata, hnone⟩⟩ := rcvdDataStart_step hu
  · exact ⟨hl, .inl ⟨hwait, hstart⟩⟩
  · exact ⟨hl, .inr ⟨hdata, by simp [PktEndAt, hnone]⟩⟩

/-- The IN engine since the pulse that ended its wait. -/
theorem exists_waitAck {n : ℕ} (h : (stateAt inp n).inp.inXactState = .waitAck) :
    ∃ w < n, (AwaitsHandshake (stateAt inp w) ∧ PktStartAt inp w) ∧
      (∀ u, w ≤ u → u < n → (inp u).linkReset = false) ∧
      ∀ u, w < u → u < n → (stateAt inp u).inp.inXactState = .waitAck ∧ ¬ PktEndAt inp u := by
  refine exists_entry (fun u => (stateAt inp u).inp.inXactState = .waitAck) _ _ _ nofun ?_ h
  intro u hu
  rw [stateAt_succ] at hu
  obtain ⟨hl, hnext⟩ := inXactState_step (s := stateAt inp u) (i := inp u) (by simp [hu])
  obtain ⟨hwait, hstart⟩ | ⟨hack, hnone⟩ := InPe.waitAck_cases (hnext.symm.trans hu)
  · exact ⟨hl, .inl ⟨hwait, hstart⟩⟩
  · refine ⟨hl, .inr ⟨hack, ?_⟩⟩
    rw [PktEndAt, show (rxSignals (stateAt inp u) (inp u)).pktEnd = false from hnone]
    decide

/-- The DATA packet that the OUT engine takes has ended in this cycle or in the one before. -/
theorem OutTakes.exists_data {t : ℕ} (h : OutTakes inp t) :
    ∃ n, (n = t ∨ n + 1 = t) ∧ (stateAt inp n).out.outXactState = .rcvdDataStart ∧
      DataAt inp n := by
  have hends : (stateAt inp t).out.outXactState = .rcvdDataEnd ∨
      (stateAt inp t).out.outXactState = .rcvdIsoDataEnd →
        ∃ n, (n = t ∨ n + 1 = t) ∧ (stateAt inp n).out.outXactState = .rcvdDataStart ∧
          DataAt inp n := by
    intro hs
    cases t with
    | zero => obtain hs | hs := hs <;> cases hs
    | succ n =>
        rw [stateAt_succ] at hs
        obtain ⟨-, hnext⟩ := outXactState_step (s := stateAt inp n) (i := inp n)
          (by obtain hs | hs := hs <;> simp [hs])
        rw [hnext] at hs
        obtain ⟨hstart, hdata, -⟩ := OutPe.dataPacket_of_dataEnd hs
        exact ⟨n, .inr rfl, hstart, hdata⟩
  obtain hacc | ⟨hstart, -⟩ := h
  · exact hends (OutPe.acked_cases hacc).1
  · obtain ⟨hs, hdata, -⟩ | ⟨hs, -⟩ := out_txPktStart_cases hstart
    · exact ⟨t, .inl rfl, hs, hdata⟩
    · exact hends (.inl hs)

/-- Every packet that the engines take was on the line in time, if each wait that ends with a pulse
ends with an edge of a SYNC. -/
theorem timeout_enforced (hout : ∀ w, SyncEndsWait inp AwaitsData w)
    (hin : ∀ w, SyncEndsWait inp AwaitsHandshake w) : TimeoutEnforced inp := by
  constructor
  case out =>
    intro t htakes
    obtain ⟨n, hnt, hs, hdata⟩ := htakes.exists_data
    obtain ⟨w, hwn, ⟨hwait, hstart⟩, hl, hdatas⟩ := exists_dataStart hs
    obtain ⟨k, hkw, htoken, htime, hwaits⟩ := exists_token hwait
    have hidle : (stateAt inp k).out.outXactState = .idle := OutPe.idle_of_xactStart htoken
    have hopened : OpenedBy inp k t := by
      refine ⟨by omega, htoken, fun u hku hut => ?_⟩
      have hne : (stateAt inp u).out.outXactState ≠ .idle := by
        obtain hle | hlt | rfl : u ≤ w ∨ w < u ∧ u < n ∨ u = n := by omega
        · rw [show (stateAt inp u).out.outXactState = .rcvdOut from hwaits u hku hle]
          decide
        · rw [(hdatas u hlt.1 hlt.2).1]
          decide
        · rw [hs]
          decide
      rw [← Bool.not_eq_true]
      exact fun hx => hne (OutPe.idle_of_xactStart hx)
    refine ⟨k, n, hopened, hdata, hnt, InTime.of_wait (hout w) hwait hstart ?_ hkw htime hwn
      hdata.pktEnd hl fun u hwu hun => (hdatas u hwu hun).2⟩
    simp [AwaitsData, hidle]
  case ack =>
    rintro n ⟨hs, hack⟩
    obtain ⟨w, hwn, ⟨hwait, hstart⟩, hl, hacks⟩ := exists_waitAck hs
    obtain ⟨k, hkw, hsent, hend, htime, hwaits⟩ := exists_sent hwait
    have hpkt : PktEndAt inp n := by
      simp only [InPe.Input.ackReceived, Bool.and_eq_true] at hack
      exact hack.1.1
    refine ⟨k, ⟨by omega, hsent, hend, fun u hku hun => ?_⟩, InTime.of_wait (hin w) hwait hstart
      ?_ hkw htime hwn hpkt hl fun u hwu hun => (hacks u hwu hun).2⟩
    · obtain hle | hlt | rfl : u ≤ w ∨ w < u ∧ u < n ∨ u = n := by omega
      · exact .inl (hwaits u hku hle)
      · exact .inr (hacks u hlt.1 hlt.2).1
      · exact .inr hs
    · obtain hsent | hsent := hsent <;> simp [AwaitsHandshake, hsent]

end

/-! ### A packet on the line -/

/-- An OUT token and an empty DATA0 packet, sent at once, and after the handshake an IN token. The
device sends an empty packet, which the host acknowledges at once. -/
def promptLines : List Line :=
  hostPacket (hostToken usbPidOut) ++ [.j, .j] ++
    hostPacket (FsRx.pidBits usbPidData0 ++ List.replicate 16 false) ++ List.replicate 26 .j ++
    hostPacket (hostToken usbPidIn) ++ List.replicate 44 .j ++
    hostPacket (FsRx.pidBits usbPidAck) ++ [.j, .j]

def resetInput : Input 1 := { hostInput 1 .j with linkReset := true }

/-- At the end the link is reset. -/
def promptCycles : List (Input 1) := hostCycles 1 promptLines ++ [resetInput]

def promptRun (t : ℕ) : Input 1 := promptCycles.getD t resetInput

theorem promptCycles_eq (k : ℕ) : promptCycles =
    hostCycles 1 (promptLines.take k) ++ (hostCycles 1 (promptLines.drop k) ++ [resetInput]) := by
  rw [← List.append_assoc, hostCycles, hostCycles, ← List.flatMap_append, List.take_append_drop]
  rfl

/-- The pulses that end a wait, the acceptance and the acknowledgement. -/
def waitSignals (s : State 1) (i : Input 1) : Bool × Bool × Bool × Bool :=
  (s.out.outXactState == .rcvdOut && (rxSignals s i).pktStart,
    s.inp.inXactState == .waitAckStart && (rxSignals s i).pktStart, (outComb s i).acked,
    s.inp.inXactState == .waitAck && (inInput s i).ackReceived)

theorem waitSignals_promptCycles : outs step waitSignals (State.reset 1) promptCycles =
    (List.range 793).map fun t => (t == 152, t == 712, t == 288, t == 783) := by decide +kernel

/-- The last two symbols, `t` cycles after the first edge of SYNC has been seen. -/
def syncPair (t : ℕ) : BitVec 4 :=
  if 28 ≤ t then 0b0101#4 else if t / 4 % 2 = 0 then 0b1001#4 else 0b0110#4

def syncSignals (waits : State 1 → Bool) (s : State 1) (i : Input 1) :
    BitVec 4 × Bool × Bool × Bool × Bool :=
  (lastPair s, FsRx.lineStateValid s.rx, s.rx.packetValid, FsRx.packetStart s.rx (rxInput s i),
    waits s)

/-- The signals of a SYNC from the cycle in which its first edge is sampled. -/
def syncPattern (t : ℕ) : BitVec 4 × Bool × Bool × Bool × Bool :=
  (if t = 0 then 0b1010#4 else syncPair (t - 1), t % 4 == 0, false, t == 32, decide (t < 2))

theorem syncSignals_data : (outs step (syncSignals fun s => s.out.outXactState == .rcvdOut)
    (State.reset 1) (hostCycles 1 (promptLines.take 46))).drop 151 =
      (List.range 33).map syncPattern := by decide +kernel

theorem syncSignals_ack : (outs step (syncSignals fun s => s.inp.inXactState == .waitAckStart)
    (State.reset 1) (hostCycles 1 (promptLines.take 186))).drop 711 =
      (List.range 33).map syncPattern := by decide +kernel

theorem syncSignals_promptRun {waits : State 1 → Bool} {k x : ℕ}
    (h : (outs step (syncSignals waits) (State.reset 1) (hostCycles 1 (promptLines.take k))).drop x =
      (List.range 33).map syncPattern) {t : ℕ} (ht : t < 33) :
    syncSignals waits (stateAt promptRun (x + t)) (promptRun (x + t)) = syncPattern t := by
  have hrun : promptRun = fun u => (hostCycles 1 (promptLines.take k) ++
      (hostCycles 1 (promptLines.drop k) ++ [resetInput])).getD u resetInput := by
    rw [← promptCycles_eq]
    rfl
  rw [hrun]
  exact out_traj_of_drop h (hostCycles 1 (promptLines.drop k) ++ [resetInput]) resetInput ht

/-- Each wait ends with a SYNC. -/
theorem syncEndsWait_promptRun {waits : State 1 → Bool} {x : ℕ}
    (h : ∀ t < 33, syncSignals waits (stateAt promptRun (x + t)) (promptRun (x + t)) =
      syncPattern t) : SyncEndsWait promptRun (fun s => waits s = true) (x + 1) := by
  simp only [syncSignals, syncPattern, Prod.mk.injEq] at h
  intro hwait hstart
  refine ⟨x, x + 32, ?_, by omega, by omega, fun u hu hu' => ?_⟩
  · constructor
    case before => omega
    case sampled => exact (h 0 (by omega)).2.1
    case edge => exact (h 1 (by omega)).1
    case starts => exact (h 32 (by omega)).2.2.2.1
    case noPacket =>
      intro u hu hup
      obtain ⟨t, rfl⟩ : ∃ t, u = x + t := ⟨u - x, by omega⟩
      exact (h t (by omega)).2.2.1
    case alternates =>
      intro u hu hup
      obtain ⟨t, rfl⟩ : ∃ t, u = x + t := ⟨u - x, by omega⟩
      rw [(h t (by omega)).1, if_neg (by omega), syncPair]
      split_ifs with hlast heven
      · refine .inr (.inr ⟨rfl, fun v hv hvp => ?_⟩)
        obtain ⟨y, rfl⟩ : ∃ y, v = x + y := ⟨v - x, by omega⟩
        rw [(h y (by omega)).2.1, beq_eq_false_iff_ne]
        omega
      · exact .inl rfl
      · exact .inr (.inl rfl)
  · obtain rfl : u = x + 1 := by omega
    exact hwait

theorem waitSignals_promptRun {t : ℕ} (ht : t < 793) :
    waitSignals (stateAt promptRun t) (promptRun t) = (t == 152, t == 712, t == 288, t == 783) :=
  out_traj_of_outs waitSignals_promptCycles resetInput ht

/-- After the last reset both engines rest. -/
theorem idle_promptRun {t : ℕ} (ht : 793 ≤ t) :
    (stateAt promptRun t).out.outXactState = .idle ∧
      (stateAt promptRun t).inp.inXactState = .idle := by
  obtain ⟨u, rfl⟩ : ∃ u, t = u + 1 := ⟨t - 1, by omega⟩
  have hreset : promptRun u = resetInput := by
    have hlen : (hostCycles 1 promptLines).length = 792 := by decide +kernel
    rw [promptRun, promptCycles, List.getD_append_right _ _ _ _ (by omega)]
    cases u - (hostCycles 1 promptLines).length <;> rfl
  rw [stateAt_succ, hreset]
  exact ⟨rfl, rfl⟩

theorem timeoutEnforced_promptRun :
    OutTakes promptRun 288 ∧ InTakes promptRun 783 ∧ TimeoutEnforced promptRun := by
  have hevents : ∀ t, t < 793 → _ := fun t ht => waitSignals_promptRun (t := t) ht
  simp only [waitSignals, Prod.mk.injEq] at hevents
  refine ⟨.inl ?_, ?_, timeout_enforced (fun w hwait hstart => ?_) fun w hwait hstart => ?_⟩
  · rw [(hevents 288 (by omega)).2.2.1]
    rfl
  · have htakes := (hevents 783 (by omega)).2.2.2
    simpa [InTakes] using htakes
  · have hw : w = 152 := by
      by_contra hne
      obtain hlt | hle : w < 793 ∨ 793 ≤ w := by omega
      · have hnone := (hevents w hlt).1
        rw [beq_eq_false_iff_ne.2 hne, show (stateAt promptRun w).out.outXactState = .rcvdOut
          from hwait, show (rxSignals (stateAt promptRun w) (promptRun w)).pktStart = true
          from hstart] at hnone
        exact absurd hnone (by decide)
      · rw [AwaitsData, (idle_promptRun hle).1] at hwait
        exact absurd hwait (by decide)
    subst hw
    have hsync := syncEndsWait_promptRun fun t ht => syncSignals_promptRun syncSignals_data ht
    simpa [AwaitsData] using hsync (by simpa [AwaitsData] using hwait) hstart
  · have hw : w = 712 := by
      by_contra hne
      obtain hlt | hle : w < 793 ∨ 793 ≤ w := by omega
      · have hnone := (hevents w hlt).2.1
        rw [beq_eq_false_iff_ne.2 hne, show (stateAt promptRun w).inp.inXactState = .waitAckStart
          from hwait, show (rxSignals (stateAt promptRun w) (promptRun w)).pktStart = true
          from hstart] at hnone
        exact absurd hnone (by decide)
      · rw [AwaitsHandshake, (idle_promptRun hle).2] at hwait
        exact absurd hwait (by decide)
    subst hw
    have hsync := syncEndsWait_promptRun fun t ht => syncSignals_promptRun syncSignals_ack ht
    simpa [AwaitsHandshake] using hsync (by simpa [AwaitsHandshake] using hwait) hstart

/-- The start of a transaction, the end of a DATA packet and its acceptance. -/
def takeSignals (s : State 1) (i : Input 1) : Bool × Bool × Bool :=
  ((outComb s i).xactStart, (rxSignals s i).dataPacketReceived, (outComb s i).acked)

/-- An OUT token, a K of one bit time, and an empty DATA0 packet 30 bit times later. -/
def glitchCycles : List (Input 1) :=
  hostCycles 1 (hostPacket (hostToken usbPidOut) ++ [.j, .j, .k] ++ List.replicate 30 .j ++
    hostPacket (FsRx.pidBits usbPidData0 ++ List.replicate 16 false) ++ [.j, .j])

def glitchRun (t : ℕ) : Input 1 := glitchCycles.getD t (hostInput 1 .j)

theorem takeSignals_glitchCycles : outs step takeSignals (State.reset 1) glitchCycles =
    (List.range 420).map fun t => (t == 139, t == 411, t == 412) := by decide +kernel

theorem takeSignals_glitchRun {t : ℕ} (ht : t < 420) :
    takeSignals (stateAt glitchRun t) (glitchRun t) = (t == 139, t == 411, t == 412) :=
  out_traj_of_outs takeSignals_glitchCycles (hostInput 1 .j) ht

/-- After the time limit the line still rests at J. -/
theorem idle_glitchRun : lastPair (stateAt glitchRun 209) = 0b1010#4 ∧
    (stateAt glitchRun 209).rx.packetValid = false := by
  have hstate : stateAt glitchRun 209 = run step (State.reset 1) (glitchCycles.take 209) :=
    traj_getD _ _ _ _ (by decide +kernel)
  rw [hstate]
  decide +kernel

theorem not_forall_timeoutEnforced : ¬ ∀ inp : ℕ → Input 1, TimeoutEnforced inp := by
  intro hall
  have hevents : ∀ t, t < 420 → _ := fun t ht => takeSignals_glitchRun (t := t) ht
  simp only [takeSignals, Prod.mk.injEq] at hevents
  obtain ⟨hpair, hno⟩ := idle_glitchRun
  have htakes : OutTakes glitchRun 412 := by
    refine .inl ?_
    rw [(hevents 412 (by omega)).2.2]
    rfl
  obtain ⟨k, n, hopened, hdata, hnt, p, x, hpacket, hleast, htime⟩ := (hall glitchRun).out 412 htakes
  have hk : k = 139 := by
    have htoken := hopened.token
    rw [(hevents k (by have := hopened.before; omega)).1] at htoken
    simpa using htoken
  have hn : n = 411 := by
    rw [DataAt, (hevents n (by omega)).2.1] at hdata
    simpa using hdata
  have hlimit : OutPe.ackTimeoutCnt.toNat + 1 = 69 := rfl
  have hp : 209 ≤ p := by
    by_contra hlt
    rw [hpacket.during 209 (by omega) (by omega)] at hno
    exact absurd hno (by decide)
  obtain hj | hk | ⟨hkk, -⟩ := hleast.1.2.alternates 209 (by omega) hp
  · exact absurd (hpair.symm.trans hj) (by decide)
  · exact absurd (hpair.symm.trans hk) (by decide)
  · exact absurd (hpair.symm.trans hkk) (by decide)

end UsbDev.NbPe
