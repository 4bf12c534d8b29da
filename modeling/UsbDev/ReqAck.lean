import UsbDev.SyncFilter
import UsbDev.TwoClocks

/-!
# Handshakes between two clock domains

`prim_pulse_sync`, which carries pulses from one clock to another, and
`prim_sync_reqack` with its two-phase protocol. Both consist of rows of flops with a
single change under way: a pulse is the change of a level, and a handshake is a
change that goes round a ring through both domains.
-/
namespace UsbDev

open Clocked TwoClocks

/-- The two flops at an edge of their clock. The first one may be late and keep what it held, as
`prim_cdc_rand_delay` makes it in simulation. -/
def Flop2Sync.sample {α : Type*} (s : Flop2Sync α) (d : α) (late : Bool) : Flop2Sync α :=
  s.step (if late then s.intq else d)

/-! ### The pulse synchronizer -/

namespace PulseSync

/-- The registers of `prim_pulse_sync`. -/
structure State where
  srcLevel : Bool
  sync : Flop2Sync Bool
  dstLevelQ : Bool
  deriving DecidableEq, Repr

/-- Register values under both resets. -/
def State.reset : State := ⟨false, .reset false, false⟩

def dstLevel (s : State) : Bool := s.sync.q

/-- `dst_pulse_o`. -/
def dstPulse (s : State) : Bool := s.dstLevelQ ^^ dstLevel s

/-- One instant: `src_pulse_i` at an edge of `clk_src_i`, and at an edge of `clk_dst_i` whether
the first flop is late. -/
def step (s : State) (i : Instant Bool Bool) : State where
  srcLevel := match i.src with
    | some srcPulse => s.srcLevel ^^ srcPulse
    | none => s.srcLevel
  sync := match i.dst with
    | some late => s.sync.sample s.srcLevel late
    | none => s.sync
  dstLevelQ := match i.dst with
    | some _ => dstLevel s
    | none => s.dstLevelQ

/-- The flops of the destination domain. -/
def row (s : State) : List Bool := [s.sync.intq, s.sync.q, s.dstLevelQ]

/-- The last pulse has come past `k` of the three flops. -/
structure At (s : State) (k : ℕ) : Prop where
  le : k ≤ 3
  row : row s = cells s.srcLevel k (3 - k)

/-- The flops that move on at an edge of their clock. -/
def mask (late : Bool) : List Bool := [!late, true, true]

/-- Where the pulse is after an instant. -/
def next (k : ℕ) (i : Instant Bool Bool) : ℕ :=
  if i.src = some true then 0
  else match i.dst with
    | some late => advance (mask late) k
    | none => k

variable {s : State} {i : Instant Bool Bool} {k : ℕ}

theorem at_reset : At .reset 3 := ⟨le_rfl, rfl⟩

/-- A pulse was sent that the destination has not seen yet. -/
def underway (s : State) : Bool := s.srcLevel ^^ s.dstLevelQ

theorem At.underway_iff (h : At s k) : underway s = true ↔ k < 3 := by
  obtain ⟨hle, hrow⟩ := h
  have hlevel : s.dstLevelQ = if 2 < k then s.srcLevel else !s.srcLevel := by
    rw [← getD_cells s.srcLevel hle (by omega), ← hrow]
    rfl
  rw [underway, hlevel]
  split_ifs <;> simp <;> omega

/-- The pulse is shown while it is at the last flop. -/
theorem At.dstPulse_iff (h : At s k) : dstPulse s = true ↔ k = 2 := by
  obtain ⟨hle, hrow⟩ := h
  have hq : s.sync.q = if 1 < k then s.srcLevel else !s.srcLevel := by
    rw [← getD_cells s.srcLevel hle (by omega), ← hrow]
    rfl
  have hlevel : s.dstLevelQ = if 2 < k then s.srcLevel else !s.srcLevel := by
    rw [← getD_cells s.srcLevel hle (by omega), ← hrow]
    rfl
  rw [dstPulse, dstLevel, hq, hlevel]
  split_ifs <;> simp <;> omega

/-- At an edge of its clock the destination domain moves on, all flops but a late one. -/
theorem row_step (s : State) (src : Option Bool) (late : Bool) :
    row (step s ⟨src, some late⟩) = shift (mask late) s.srcLevel (row s) := by
  cases late <;> rfl

theorem srcLevel_step (hi : i.src ≠ some true) : (step s i).srcLevel = s.srcLevel := by
  obtain ⟨src, dst⟩ := i
  cases src with
  | none => rfl
  | some p =>
      obtain rfl : p = false := by simpa using hi
      exact Bool.xor_false _

/-- A pulse is sent only when the one before it has arrived; then it takes its way. -/
theorem At.step (h : At s k) (hi : i.src = some true → k = 3) : At (step s i) (next k i) := by
  obtain ⟨hle, hrow⟩ := h
  obtain ⟨src, dst⟩ := i
  by_cases hsrc : src = some true
  · obtain rfl := hi hsrc
    subst hsrc
    refine ⟨Nat.zero_le 3, ?_⟩
    have hlevel : (PulseSync.step s ⟨some true, dst⟩).srcLevel = !s.srcLevel := Bool.xor_true _
    have hkeep : PulseSync.row (PulseSync.step s ⟨some true, dst⟩) = List.replicate 3 s.srcLevel := by
      cases dst with
      | none => exact hrow
      | some late => rw [row_step, hrow, Nat.sub_self, cells_zero_right, shift_replicate]
    rw [hkeep, hlevel, replicate_eq_cells]
    rfl
  · have hlevel := srcLevel_step (s := s) (i := ⟨src, dst⟩) hsrc
    cases dst with
    | none =>
        have hnext : next k ⟨src, none⟩ = k := if_neg hsrc
        rw [hnext]
        exact ⟨hle, by rw [hlevel]; exact hrow⟩
    | some late =>
        have hnext : next k ⟨src, some late⟩ = advance (mask late) k := if_neg hsrc
        rw [hnext]
        refine ⟨advance_le (mask late) hle, ?_⟩
        rw [row_step, hrow, hlevel]
        exact shift_cells (mask late) s.srcLevel hle

theorem next_of_pulse (hi : i.src = some true) : next k i = 0 := if_pos hi

theorem next_of_dst_none (hi : i.src ≠ some true) (hdst : i.dst = none) : next k i = k := by
  rw [next, if_neg hi, hdst]

theorem next_three (hi : i.src ≠ some true) : next 3 i = 3 := by
  rw [next, if_neg hi]
  cases i.dst <;> rfl

/-- A pulse that is shown is shown for one cycle. -/
theorem next_two (hi : i.src ≠ some true) {late : Bool} (hdst : i.dst = some late) :
    next 2 i = 3 := by
  rw [next, if_neg hi, hdst]
  rfl

theorem next_cases (hi : i.src ≠ some true) : next k i = k ∨ next k i = k + 1 := by
  rw [next, if_neg hi]
  cases i.dst with
  | none => exact .inl rfl
  | some late => exact advance_cases (mask late) k

theorem next_of_onTime (hk : k < 3) (hi : i.src ≠ some true) (hdst : i.dst = some false) :
    next k i = k + 1 := by
  rw [next, if_neg hi, hdst]
  obtain rfl | rfl | rfl : k = 0 ∨ k = 1 ∨ k = 2 := by omega
  all_goals rfl

end PulseSync

/-! ### The two-phase handshake -/

namespace SyncReqack

/-- `sync_reqack_fsm_e`: which level of the request and of the acknowledgement means that there is
none. -/
inductive Fsm where
  | even
  | odd
  deriving DecidableEq, Repr

def Fsm.isOdd : Fsm → Bool
  | even => false
  | odd => true

/-- The registers of `prim_sync_reqack` with `EnRzHs = 0`. -/
structure State where
  srcFsm : Fsm
  srcReqQ : Bool
  dstFsm : Fsm
  dstAckQ : Bool
  reqSync : Flop2Sync Bool
  ackSync : Flop2Sync Bool
  deriving DecidableEq, Repr

/-- Register values under both resets. -/
def State.reset : State := ⟨.even, false, .even, false, .reset false, .reset false⟩

/-- `src_req_i` at an edge of `clk_src_i`, where the first flop of the acknowledgement may be
late. -/
structure SrcEdge where
  srcReq : Bool
  late : Bool
  deriving DecidableEq, Repr

/-- `dst_ack_i` at an edge of `clk_dst_i`, where the first flop of the request may be late. -/
structure DstEdge where
  dstAck : Bool
  late : Bool
  deriving DecidableEq, Repr

/-- `src_ack_o`. -/
def srcAck (s : State) : Bool :=
  match s.srcFsm with
  | .even => s.ackSync.q
  | .odd => !s.ackSync.q

def srcReqD (s : State) (srcReq : Bool) : Bool :=
  match s.srcFsm with
  | .even => srcReq
  | .odd => !srcReq

def srcHandshake (s : State) (srcReq : Bool) : Bool := srcReq && srcAck s

def srcFsmNs (s : State) (srcReq : Bool) : Fsm :=
  match s.srcFsm with
  | .even => if srcHandshake s srcReq then .odd else .even
  | .odd => if srcHandshake s srcReq then .even else .odd

/-- `dst_req_o`. -/
def dstReq (s : State) : Bool :=
  match s.dstFsm with
  | .even => s.reqSync.q
  | .odd => !s.reqSync.q

def dstAckD (s : State) (dstAck : Bool) : Bool :=
  match s.dstFsm with
  | .even => dstAck
  | .odd => !dstAck

def dstHandshake (s : State) (dstAck : Bool) : Bool := dstReq s && dstAck

def dstFsmNs (s : State) (dstAck : Bool) : Fsm :=
  match s.dstFsm with
  | .even => if dstHandshake s dstAck then .odd else .even
  | .odd => if dstHandshake s dstAck then .even else .odd

/-- One instant; each domain samples what the other held before it. -/
def step (s : State) (i : Instant SrcEdge DstEdge) : State where
  srcFsm := match i.src with
    | some e => srcFsmNs s e.srcReq
    | none => s.srcFsm
  srcReqQ := match i.src with
    | some e => srcReqD s e.srcReq
    | none => s.srcReqQ
  dstFsm := match i.dst with
    | some e => dstFsmNs s e.dstAck
    | none => s.dstFsm
  dstAckQ := match i.dst with
    | some e => dstAckD s e.dstAck
    | none => s.dstAckQ
  reqSync := match i.dst with
    | some e => s.reqSync.sample s.srcReqQ e.late
    | none => s.reqSync
  ackSync := match i.src with
    | some e => s.ackSync.sample s.dstAckQ e.late
    | none => s.ackSync

/-- A request was sampled that is not acknowledged yet. -/
def pending (s : State) : Bool := s.srcReqQ ^^ s.srcFsm.isOdd

/-- What the sides of the handshake promise each other: a request is held until it is
acknowledged (`SyncReqAckHoldReq`), and only a request is acknowledged
(`SyncReqAckAckNeedsReq`). -/
structure Keeps (s : State) (i : Instant SrcEdge DstEdge) : Prop where
  holdReq : ∀ e ∈ i.src, pending s = true → e.srcReq = true
  ackNeedsReq : ∀ e ∈ i.dst, e.dstAck = true → dstReq s = true

instance (s : State) (i : Instant SrcEdge DstEdge) : Decidable (Keeps s i) :=
  decidable_of_iff ((∀ e ∈ i.src, pending s = true → e.srcReq = true) ∧
    ∀ e ∈ i.dst, e.dstAck = true → dstReq s = true) ⟨fun h => ⟨h.1, h.2⟩, fun h => ⟨h.1, h.2⟩⟩

/-- The request goes round through both domains and comes back to the requesting side. -/
def ring (s : State) : List Bool :=
  [s.reqSync.intq, s.reqSync.q, s.dstFsm.isOdd, s.ackSync.intq, s.ackSync.q, s.srcFsm.isOdd]

/-- The last request has come past `k` of the six flops. -/
structure At (s : State) (k : ℕ) : Prop where
  le : k ≤ 6
  ack : s.dstAckQ = s.dstFsm.isOdd
  ring : ring s = cells s.srcReqQ k (6 - k)

/-- The flops that move on in an instant; those of the two FSMs take the level before them when
there is a handshake. -/
def mask (i : Instant SrcEdge DstEdge) : List Bool :=
  [i.dst.any fun e => !e.late, i.dst.isSome, i.dst.any fun e => e.dstAck,
    i.src.any fun e => !e.late, i.src.isSome, i.src.any fun e => e.srcReq]

/-- Where the request is after an instant. -/
def next (k : ℕ) (i : Instant SrcEdge DstEdge) : ℕ :=
  if k = 6 ∧ (i.src.any fun e => e.srcReq) then 0 else advance (mask i) k

variable {s : State} {i : Instant SrcEdge DstEdge} {k : ℕ}

theorem at_reset : At .reset 6 := ⟨le_rfl, rfl, rfl⟩

theorem pending_step (s : State) (e : SrcEdge) (dst : Option DstEdge) :
    pending (step s ⟨some e, dst⟩) = (e.srcReq && !srcAck s) := by
  obtain ⟨srcFsm, srcReqQ, dstFsm, dstAckQ, reqSync, ackIntq, ackQ⟩ := s
  obtain ⟨srcReq, late⟩ := e
  cases srcFsm <;> cases srcReq <;> cases ackQ <;> rfl

namespace At

theorem cell (h : At s k) {j : ℕ} (hj : j < 6) :
    (SyncReqack.ring s).getD j false = if j < k then s.srcReqQ else !s.srcReqQ := by
  rw [h.ring]
  exact getD_cells s.srcReqQ h.le hj

theorem pending_iff (h : At s k) : pending s = true ↔ k < 6 := by
  have hsrc : s.srcFsm.isOdd = _ := h.cell (j := 5) (by omega)
  have hle := h.le
  rw [pending, hsrc]
  split_ifs <;> simp <;> omega

/-- The destination sees the request until it acknowledges it. -/
theorem dstReq_iff (h : At s k) : dstReq s = true ↔ k = 2 := by
  have hq : s.reqSync.q = _ := h.cell (j := 1) (by omega)
  have hfsm : s.dstFsm.isOdd = _ := h.cell (j := 2) (by omega)
  have hreq : dstReq s = (s.reqSync.q ^^ s.dstFsm.isOdd) := by
    rw [dstReq]
    cases s.dstFsm <;> cases s.reqSync.q <;> rfl
  rw [hreq, hq, hfsm]
  split_ifs <;> simp <;> omega

theorem srcAck_iff (h : At s k) : srcAck s = true ↔ k = 5 := by
  have hq : s.ackSync.q = _ := h.cell (j := 4) (by omega)
  have hfsm : s.srcFsm.isOdd = _ := h.cell (j := 5) (by omega)
  have hle := h.le
  have hack : srcAck s = (s.ackSync.q ^^ s.srcFsm.isOdd) := by
    rw [srcAck]
    cases s.srcFsm <;> cases s.ackSync.q <;> rfl
  rw [hack, hq, hfsm]
  split_ifs <;> simp <;> omega

/-- Between the two acknowledgements the sides count differently. -/
theorem fsm_eq_iff (h : At s k) : s.srcFsm = s.dstFsm ↔ k < 3 ∨ k = 6 := by
  have hdst : s.dstFsm.isOdd = _ := h.cell (j := 2) (by omega)
  have hsrc : s.srcFsm.isOdd = _ := h.cell (j := 5) (by omega)
  have hle := h.le
  have heq : s.srcFsm = s.dstFsm ↔ s.srcFsm.isOdd = s.dstFsm.isOdd := by
    cases s.srcFsm <;> cases s.dstFsm <;> simp [Fsm.isOdd]
  rw [heq, hdst, hsrc]
  split_ifs <;> simp <;> omega

end At

theorem srcFsmNs_isOdd (s : State) (srcReq : Bool) :
    (srcFsmNs s srcReq).isOdd = if srcReq then s.ackSync.q else s.srcFsm.isOdd := by
  rw [srcFsmNs, srcHandshake, srcAck]
  cases s.srcFsm <;> cases srcReq <;> cases s.ackSync.q <;> rfl

theorem dstFsmNs_isOdd (s : State) (dstAck : Bool) :
    (dstFsmNs s dstAck).isOdd = if dstAck then s.reqSync.q else s.dstFsm.isOdd := by
  rw [dstFsmNs, dstHandshake, dstReq]
  cases s.dstFsm <;> cases dstAck <;> cases s.reqSync.q <;> rfl

theorem dstAckD_eq (s : State) {dstAck : Bool} (h : dstAck = true → dstReq s = true) :
    dstAckD s dstAck = (dstFsmNs s dstAck).isOdd := by
  rw [dstFsmNs, dstHandshake, dstAckD]
  cases s.dstFsm <;> cases dstAck <;> simp_all [Fsm.isOdd]

theorem srcReqD_eq (s : State) (srcReq : Bool) :
    srcReqD s srcReq = (srcReq ^^ s.srcFsm.isOdd) := by
  rw [srcReqD]
  cases s.srcFsm <;> cases srcReq <;> rfl

/-- An instant moves the ring on. -/
theorem ring_step (s : State) (i : Instant SrcEdge DstEdge) (hack : s.dstAckQ = s.dstFsm.isOdd) :
    ring (step s i) = shift (mask i) s.srcReqQ (ring s) := by
  obtain ⟨src, dst⟩ := i
  simp only [ring, step, mask, shift, List.cons.injEq, and_true]
  refine ⟨?_, ?_, ?_, ?_, ?_, ?_⟩
  · cases dst with
    | none => rfl
    | some e => cases h : e.late <;> simp [Flop2Sync.sample, Flop2Sync.step, h]
  · cases dst <;> rfl
  · cases dst with
    | none => rfl
    | some e => exact dstFsmNs_isOdd s e.dstAck
  · cases src with
    | none => rfl
    | some e => cases h : e.late <;> simp [Flop2Sync.sample, Flop2Sync.step, h, hack]
  · cases src <;> rfl
  · cases src with
    | none => rfl
    | some e => exact srcFsmNs_isOdd s e.srcReq

/-- A new request starts where the one before it ended. -/
theorem At.step (h : At s k) (hi : Keeps s i) : At (step s i) (next k i) := by
  have hring := ring_step s i h.ack
  rw [h.ring] at hring
  have hack : (SyncReqack.step s i).dstAckQ = (SyncReqack.step s i).dstFsm.isOdd := by
    cases hdst : i.dst with
    | none => simpa [SyncReqack.step, hdst] using h.ack
    | some e =>
        have hneeds := hi.ackNeedsReq e hdst
        simpa [SyncReqack.step, hdst] using dstAckD_eq s hneeds
  have hle := h.le
  have hpending := h.pending_iff
  by_cases hnew : k = 6 ∧ (i.src.any fun e => e.srcReq)
  · obtain ⟨rfl, hany⟩ := hnew
    obtain ⟨e, hsrc, hreq⟩ := Option.any_eq_true _ _ |>.1 hany
    have hidle : s.srcReqQ = s.srcFsm.isOdd := by
      cases hs : s.srcReqQ <;> cases hf : s.srcFsm.isOdd <;> simp_all [pending]
    have hlevel : (SyncReqack.step s i).srcReqQ = !s.srcReqQ := by
      simp [SyncReqack.step, hsrc, srcReqD_eq, hreq, hidle]
    have hnext : next 6 i = 0 := if_pos ⟨rfl, hany⟩
    rw [hnext]
    refine ⟨by omega, hack, ?_⟩
    rw [hring, hlevel, Nat.sub_self, cells_zero_right, shift_replicate, replicate_eq_cells]
  · have hlevel : (SyncReqack.step s i).srcReqQ = s.srcReqQ := by
      cases hsrc : i.src with
      | none => simp [SyncReqack.step, hsrc]
      | some e =>
          have hkept : (e.srcReq ^^ s.srcFsm.isOdd) = s.srcReqQ := by
            obtain hlt | rfl : k < 6 ∨ k = 6 := by omega
            · have hreq := hi.holdReq e hsrc (hpending.2 hlt)
              have hp := hpending.2 hlt
              rw [pending] at hp
              rw [hreq]
              revert hp
              cases s.srcReqQ <;> cases s.srcFsm.isOdd <;> simp
            · have hreq : e.srcReq = false := by simpa [hsrc] using hnew
              have hp : pending s = false := by simpa using hpending
              rw [pending] at hp
              rw [hreq]
              revert hp
              cases s.srcReqQ <;> cases s.srcFsm.isOdd <;> simp
          simpa [SyncReqack.step, hsrc, srcReqD_eq] using hkept
    have hnext : next k i = advance (mask i) k := if_neg hnew
    rw [hnext]
    refine ⟨advance_le (mask i) hle, hack, ?_⟩
    rw [hring, hlevel]
    exact shift_cells (mask i) s.srcReqQ hle

/-! ### One handshake on each side for every request -/

/-- The source side sees a handshake. -/
def srcDone (s : State) (i : Instant SrcEdge DstEdge) : Bool :=
  i.src.any fun e => srcHandshake s e.srcReq

/-- The destination side sees a handshake. -/
def dstDone (s : State) (i : Instant SrcEdge DstEdge) : Bool :=
  i.dst.any fun e => dstHandshake s e.dstAck

theorem At.srcDone_iff (h : At s k) :
    srcDone s i = true ↔ k = 5 ∧ (i.src.any fun e => e.srcReq) := by
  rw [srcDone, ← h.srcAck_iff]
  cases i.src with
  | none => simp
  | some e => simp [srcHandshake, and_comm]

theorem At.dstDone_iff (h : At s k) :
    dstDone s i = true ↔ k = 2 ∧ (i.dst.any fun e => e.dstAck) := by
  rw [dstDone, ← h.dstReq_iff]
  cases i.dst with
  | none => simp
  | some e => simp [dstHandshake]

/-- The request has had its handshake on the destination side only. -/
def halfway (k : ℕ) : ℕ := if k < 3 ∨ k = 6 then 0 else 1

theorem At.halfway_next (h : At s k) (i : Instant SrcEdge DstEdge) :
    halfway (next k i) + (srcDone s i).toNat = halfway k + (dstDone s i).toNat := by
  have hle := h.le
  have hsrc : srcDone s i = decide (k = 5 ∧ i.src.any fun e => e.srcReq) := by
    rw [Bool.eq_iff_iff, h.srcDone_iff, decide_eq_true_iff]
  have hdst : dstDone s i = decide (k = 2 ∧ i.dst.any fun e => e.dstAck) := by
    rw [Bool.eq_iff_iff, h.dstDone_iff, decide_eq_true_iff]
  have hnext : next k i = 0 ∧ k = 6 ∨ next k i = advance (mask i) k := by
    rw [next]
    split_ifs with hnew
    · exact .inl ⟨rfl, hnew.1⟩
    · exact .inr rfl
  obtain rfl | rfl | ⟨h2, h5⟩ : k = 2 ∨ k = 5 ∨ k ≠ 2 ∧ k ≠ 5 := by omega
  · have hadv : next 2 i = if i.dst.any fun e => e.dstAck then 3 else 2 := rfl
    rw [hsrc, hdst, hadv]
    cases i.dst.any fun e => e.dstAck <;> simp [halfway]
  · have hadv : next 5 i = if i.src.any fun e => e.srcReq then 6 else 5 := rfl
    rw [hsrc, hdst, hadv]
    cases i.src.any fun e => e.srcReq <;> simp [halfway]
  · have hsame : halfway (next k i) = halfway k := by
      obtain ⟨hz, rfl⟩ | hadv := hnext
      · rw [hz]
        rfl
      · have hlast := advance_le (mask i) hle
        change advance (mask i) k ≤ 6 at hlast
        rw [hadv, halfway, halfway]
        obtain hk | hk := advance_cases (mask i) k <;> split_ifs <;> omega
    rw [hsame, hsrc, hdst]
    simp [h2, h5]

/-- The handshakes of the two sides differ by how far the request has come. -/
theorem exists_at_run {is : List (Instant SrcEdge DstEdge)} (h : At s k)
    (hok : Allowed step Keeps s is) : ∃ n, At (run step s is) n ∧ halfway n + (outs step srcDone s is).count true =
      halfway k + (outs step dstDone s is).count true := by
  induction is generalizing s k with
  | nil => exact ⟨k, h, rfl⟩
  | cons i is ih =>
      obtain ⟨n, hn, hcount⟩ := ih (h.step hok.1) hok.2
      have hone := h.halfway_next i
      refine ⟨n, hn, ?_⟩
      rw [outs_cons, outs_cons, List.count_cons, List.count_cons]
      cases hs : srcDone s i <;> cases hd : dstDone s i <;> simp [hs, hd] at hone ⊢ <;> omega

/-- In every run in which both sides keep their promises the destination side has had one
handshake for each of the source side, and one more while the request is on its way back. -/
theorem handshakes_match {is : List (Instant SrcEdge DstEdge)}
    (h : Allowed step Keeps .reset is) :
    (outs step dstDone .reset is).count true = (outs step srcDone .reset is).count true +
      if (run step .reset is).srcFsm = (run step .reset is).dstFsm then 0 else 1 := by
  obtain ⟨n, hat, hcount⟩ := exists_at_run at_reset h
  have hidle : halfway 6 = 0 := rfl
  have hhalf : halfway n = if (run step .reset is).srcFsm = (run step .reset is).dstFsm
      then 0 else 1 := if_congr hat.fsm_eq_iff.symm rfl rfl
  omega

/-- A request, the edges of the destination clock that take it over, and those of the source clock
that take it back. -/
theorem handshakes_match_run :
    (outs step dstDone .reset [⟨some ⟨true, false⟩, none⟩, ⟨none, some ⟨false, true⟩⟩,
      ⟨none, some ⟨false, false⟩⟩, ⟨none, some ⟨false, false⟩⟩, ⟨none, some ⟨true, false⟩⟩]).count
        true = 0 + 1 :=
  handshakes_match (by decide)

/-! ### Every request is acknowledged -/

/-- The destination side acknowledges at once. -/
def Prompt (s : State) (i : Instant SrcEdge DstEdge) : Prop := ∀ e ∈ i.dst, e.dstAck = dstReq s

/-- The clock of the side ticks, and the first flop of its synchronizer is not late. -/
def OnTime : Side → Instant SrcEdge DstEdge → Prop
  | .src, i => ∃ e ∈ i.src, e.late = false
  | .dst, i => ∃ e ∈ i.dst, e.late = false

instance (s : State) (i : Instant SrcEdge DstEdge) : Decidable (Prompt s i) :=
  inferInstanceAs (Decidable (∀ e ∈ i.dst, e.dstAck = dstReq s))

instance : (side : Side) → (i : Instant SrcEdge DstEdge) → Decidable (OnTime side i)
  | .src, i => inferInstanceAs (Decidable (∃ e ∈ i.src, e.late = false))
  | .dst, i => inferInstanceAs (Decidable (∃ e ∈ i.dst, e.late = false))

/-- How many of the flops the request has come past. -/
def travelled (s : State) : ℕ := (ring s).count s.srcReqQ

theorem At.travelled_eq (h : At s k) : travelled s = k := by
  rw [travelled, h.ring, count_cells]

/-- The side whose clock takes on a request that has come past `k` flops. -/
def waits (k : ℕ) : Side := if k < 3 then .dst else .src

/-- The clock that a pending request waits for takes it on to the next flop. -/
theorem At.next_of_onTime (h : At s k) (hk : k < 6) (hkeeps : Keeps s i) (hprompt : Prompt s i)
    (ht : OnTime (waits k) i) : next k i = k + 1 := by
  have hpending := h.pending_iff.2 hk
  have hmoves : (mask i).getD k false = true := by
    rw [waits] at ht
    obtain hlt | hge : k < 3 ∨ 3 ≤ k := by omega
    · rw [if_pos hlt] at ht
      obtain ⟨e, hdst, hlate⟩ := ht
      rw [Option.mem_def] at hdst
      obtain rfl | rfl | rfl : k = 0 ∨ k = 1 ∨ k = 2 := by omega
      · simp [mask, hdst, hlate]
      · simp [mask, hdst]
      · have hack : e.dstAck = true := (hprompt e hdst).trans (h.dstReq_iff.2 rfl)
        simp [mask, hdst, hack]
    · rw [if_neg (by omega)] at ht
      obtain ⟨e, hsrc, hlate⟩ := ht
      rw [Option.mem_def] at hsrc
      obtain rfl | rfl | rfl : k = 3 ∨ k = 4 ∨ k = 5 := by omega
      · simp [mask, hsrc, hlate]
      · simp [mask, hsrc]
      · have hreq := hkeeps.holdReq e hsrc hpending
        simp [mask, hsrc, hreq]
  have hold : ¬(k = 6 ∧ i.src.any fun e => e.srcReq) := by omega
  rw [next, if_neg hold, advance, if_pos hmoves]

/-- A pending request stays one until the source side sees the handshake. -/
theorem At.next_of_pending (h : At s k) (hk : k < 6) (hdone : srcDone s i = false) :
    next k i < 6 ∧ (next k i = k ∨ next k i = k + 1) := by
  have hold : ¬(k = 6 ∧ i.src.any fun e => e.srcReq) := by omega
  have hadv := advance_cases (mask i) k
  rw [next, if_neg hold]
  refine ⟨?_, hadv⟩
  obtain hlt | rfl : k < 5 ∨ k = 5 := by omega
  · omega
  · have hreq : i.src.any (fun e => e.srcReq) = false := by
      by_contra hreq
      rw [h.srcDone_iff.2 ⟨rfl, by simpa using hreq⟩] at hdone
      exact Bool.noConfusion hdone
    have hstay : advance (mask i) 5 = 5 := if_neg (by simpa [mask] using hreq)
    omega

/-- A round of both clocks takes a request on until it is acknowledged. -/
theorem settles : Settles step (fun s i => (Keeps s i ∧ Prompt s i) ∧ srcDone s i = false) OnTime
    (fun s => ∃ k < 6, At s k) (fun s => 6 - travelled s) (fun s => waits (travelled s)) := by
  refine Settles.of_position ?_ ?_ ?_ ?_
  · rintro s i ⟨⟨hkeeps, -⟩, hdone⟩ ⟨k, hk, hat⟩
    exact ⟨next k i, (hat.next_of_pending hk hdone).1, hat.step hkeeps⟩
  · rintro s ⟨k, hk, hat⟩
    rwa [hat.travelled_eq]
  · rintro s i ⟨⟨hkeeps, -⟩, hdone⟩ ⟨k, hk, hat⟩
    rw [(hat.step hkeeps).travelled_eq, hat.travelled_eq]
    exact (hat.next_of_pending hk hdone).2
  · rintro s i ⟨⟨hkeeps, hprompt⟩, -⟩ ⟨k, hk, hat⟩ ht
    rw [hat.travelled_eq] at ht
    rw [(hat.step hkeeps).travelled_eq, hat.travelled_eq]
    exact hat.next_of_onTime hk hkeeps hprompt ht

/-- A request that both sides serve as they promised is acknowledged within six rounds of the two
clocks. -/
theorem acknowledged {js : List (Instant SrcEdge DstEdge)}
    {rounds : List (List (Instant SrcEdge DstEdge))}
    (hjs : Allowed step Keeps .reset js) (hpending : pending (run step .reset js) = true)
    (hok : Allowed step (fun s i => Keeps s i ∧ Prompt s i) (run step .reset js) rounds.flatten)
    (hboth : ∀ round ∈ rounds, Both OnTime round) (hlen : 6 ≤ rounds.length) :
    true ∈ outs step srcDone (run step .reset js) rounds.flatten := by
  obtain ⟨k, hat, -⟩ := exists_at_run at_reset hjs
  have hk := hat.pending_iff.1 hpending
  by_contra hnone
  have hall := hok.and (allowed_of_outs hnone)
  have hμ : 6 - travelled (run step .reset js) ≤ rounds.length := by omega
  have hend := settles.settled hall ⟨k, hk, hat⟩ hboth hμ
  obtain ⟨n, hn, hat'⟩ := hall.invariant _ settles.keeps ⟨k, hk, hat⟩
  rw [hat'.travelled_eq] at hend
  omega

/-- Six rounds in each of which both clocks tick at once. -/
theorem acknowledged_run : true ∈ outs step srcDone
    (run step .reset [⟨some ⟨true, false⟩, none⟩])
    ([[⟨some ⟨true, false⟩, some ⟨false, false⟩⟩], [⟨some ⟨true, false⟩, some ⟨false, false⟩⟩],
      [⟨some ⟨true, false⟩, some ⟨true, false⟩⟩], [⟨some ⟨true, false⟩, some ⟨false, false⟩⟩],
      [⟨some ⟨true, false⟩, some ⟨false, false⟩⟩],
      [⟨some ⟨true, false⟩, some ⟨false, false⟩⟩]] : List (List _)).flatten :=
  acknowledged (by decide) (by decide) (by decide) (by decide) (by decide)

end SyncReqack

end UsbDev
