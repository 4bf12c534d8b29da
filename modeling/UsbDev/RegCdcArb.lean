import UsbDev.RegCdc

/-!
# Registers that the hardware changes too

`prim_reg_cdc_arb` with `DstWrReq = 1`. The changes that the hardware makes and the
software accesses take their turns in one sequence of handshakes. Accesses are
delivered once whatever the hardware does, and the software side catches up with the
hardware.
-/
namespace UsbDev.RegCdc

open Clocked TwoClocks

variable {w : ℕ}

namespace Arb

/-- `req_sel_e`. -/
inductive ReqSel where
  | swReq
  | hwReq
  deriving DecidableEq, Repr

/-- The registers with `DstWrReq = 1`, those of `prim_reg_cdc_arb` among them. -/
structure State (w : ℕ) where
  src : SrcRegs w
  req : PulseSync.State
  idleQ : Bool
  dstReqQ : Bool
  dstQs : BitVec w
  idQ : ReqSel
  sync : SyncReqack.State
  deriving DecidableEq, Repr

/-- Register values under both resets. -/
def State.reset (resetVal : BitVec w) : State w :=
  ⟨.reset resetVal, .reset, true, false, resetVal, .swReq, .reset⟩

/-- The inputs at an edge of `clk_dst_i`: the register of the hardware, the value that it takes
next, and which of the two synchronizers are late. -/
structure DstEdge (w : ℕ) where
  update : Bool
  ds : BitVec w
  qs : BitVec w
  lateReq : Bool
  lateAck : Bool
  deriving DecidableEq, Repr

abbrev Input (w : ℕ) := Instant (SrcEdge w) (DstEdge w)

variable {resetVal bitMask : BitVec w} {s : State w} {i : Input w}

def dstUpdate (s : State w) (e : DstEdge w) : Bool := e.update && s.dstQs != e.ds

/-- `dst_req_i`. -/
def dstReqI (s : State w) : Bool := PulseSync.dstPulse s.req

def dstReq (s : State w) : Bool := s.dstReqQ || dstReqI s

/-- `dst_req_o`. -/
def dstReqO (s : State w) : Bool := s.idleQ && dstReq s

def dstLatD (s : State w) (e : DstEdge w) : Bool := s.idleQ && (dstReq s || dstUpdate s e)

def dstLatQ (s : State w) (e : DstEdge w) : Bool :=
  s.idleQ && !(dstReq s || dstUpdate s e) && s.dstQs != e.qs

def dstUpdateReq (s : State w) (e : DstEdge w) : Bool := !s.idleQ || dstLatD s e || dstLatQ s e

def dstUpdateAck (s : State w) : Bool := SyncReqack.srcAck s.sync

def idleD (s : State w) (e : DstEdge w) : Bool :=
  if s.idleQ then !(dstLatD s e || dstLatQ s e) else dstUpdateAck s

def dstReqD (s : State w) (e : DstEdge w) : Bool :=
  if s.dstReqQ && dstLatD s e then false
  else if dstReqI s && !s.idleQ then true else s.dstReqQ

def dstQsD (s : State w) (e : DstEdge w) : BitVec w :=
  if dstLatD s e then e.ds else if dstLatQ s e then e.qs else s.dstQs

def idD (s : State w) (e : DstEdge w) : ReqSel :=
  if dstUpdateAck s then .swReq
  else if dstReq s && dstLatD s e then .swReq
  else if !dstReq s && dstLatD s e then .hwReq
  else if dstLatQ s e then .hwReq else s.idQ

/-- The handshake reaches the software side. -/
def srcReq (s : State w) : Bool := SyncReqack.dstReq s.sync

/-- `src_ack_o`. -/
def srcAck (s : State w) : Bool := srcReq s && s.idQ == .swReq

/-- `src_update_o`. -/
def srcUpdate (s : State w) : Bool := srcReq s && s.idQ == .hwReq

def dstToSrc (s : State w) : Bool :=
  s.src.busyQ && srcAck s || srcUpdate s && !s.src.busy (srcAck s)

/-- The handshake is between the domains with their parts exchanged, and acknowledged at once. -/
def syncEdges (s : State w) (i : Input w) : Instant SyncReqack.SrcEdge SyncReqack.DstEdge where
  src := i.dst.map fun e => ⟨dstUpdateReq s e, e.lateAck⟩
  dst := i.src.map fun e => ⟨srcReq s, e.late⟩

/-- One instant. -/
def step (bitMask : BitVec w) (s : State w) (i : Input w) : State w where
  src := match i.src with
    | some e => s.src.step bitMask e (srcAck s) (dstToSrc s) s.dstQs
    | none => s.src
  req := PulseSync.step s.req ⟨i.src.map SrcEdge.req, i.dst.map fun e => e.lateReq⟩
  idleQ := match i.dst with
    | some e => idleD s e
    | none => s.idleQ
  dstReqQ := match i.dst with
    | some e => dstReqD s e
    | none => s.dstReqQ
  dstQs := match i.dst with
    | some e => dstQsD s e
    | none => s.dstQs
  idQ := match i.dst with
    | some e => idD s e
    | none => s.idQ
  sync := SyncReqack.step s.sync (syncEdges s i)

def Spaced (s : State w) (i : Input w) : Prop := ∀ e ∈ i.src, s.src.Spaced (srcAck s) e

instance (s : State w) (i : Input w) : Decidable (Spaced s i) :=
  inferInstanceAs (Decidable (∀ e ∈ i.src, s.src.Spaced (srcAck s) e))

/-- The access that starts in an instant. -/
def issued (bitMask : BitVec w) (_ : State w) (i : Input w) : Option (Txn w) :=
  i.src.bind fun e => e.issued bitMask

/-- The access that the other side sees at an edge of its clock. -/
def delivered (s : State w) (i : Input w) : Option (Txn w) :=
  i.dst.bind fun _ => if dstReqO s then some s.src.txn else none

/-- The handshake under way is the one of a software access and has not reached the software
side. -/
def Served (s : State w) (k : ℕ) : Prop := k ≤ 2 ∧ s.idQ = .swReq

/-- An access is on its way over, kept until the handshake before it ends, or served. -/
inductive Phase (s : State w) (p k : ℕ) : Prop where
  | free (busy : s.src.busyQ = false) (req : p = 3) (kept : s.dstReqQ = false)
      (served : ¬Served s k)
  | sent (busy : s.src.busyQ = true) (req : p < 3) (kept : s.dstReqQ = false)
      (served : ¬Served s k)
  | kept (busy : s.src.busyQ = true) (req : p = 3) (kept : s.dstReqQ = true)
      (served : ¬Served s k)
  | served (busy : s.src.busyQ = true) (req : p = 3) (kept : s.dstReqQ = false)
      (served : Served s k)

/-- The pulse of the last access has come past `p` flops and the handshake past `k`. While there is
no access the software side shows what the last handshake brought. -/
structure At (s : State w) (p k : ℕ) : Prop where
  req : PulseSync.At s.req p
  sync : SyncReqack.At s.sync k
  idle : s.idleQ = true ↔ k = 6
  phase : Phase s p k
  shown : s.src.busyQ = false → 3 ≤ k → s.src.q = s.dstQs

theorem at_reset : At (.reset resetVal) 3 6 where
  req := PulseSync.at_reset
  sync := SyncReqack.at_reset
  idle := by simp [State.reset]
  phase := .free rfl rfl rfl (by simp [Served])
  shown := fun _ _ => rfl

/-- Where the pulse is after an instant. -/
def nextReq (p : ℕ) (i : Input w) : ℕ :=
  PulseSync.next p ⟨i.src.map SrcEdge.req, i.dst.map fun e => e.lateReq⟩

/-- Where the handshake is after an instant. -/
def nextSync (s : State w) (k : ℕ) (i : Input w) : ℕ := SyncReqack.next k (syncEdges s i)

namespace At
variable {p k : ℕ}

theorem dstReqI_eq (h : At s p k) : dstReqI s = decide (p = 2) := by
  rw [Bool.eq_iff_iff, decide_eq_true_iff]
  exact h.req.dstPulse_iff

theorem srcReq_eq (h : At s p k) : srcReq s = decide (k = 2) := by
  rw [Bool.eq_iff_iff, decide_eq_true_iff]
  exact h.sync.dstReq_iff

theorem dstUpdateAck_eq (h : At s p k) : dstUpdateAck s = decide (k = 5) := by
  rw [Bool.eq_iff_iff, decide_eq_true_iff]
  exact h.sync.srcAck_iff

theorem idleQ_eq (h : At s p k) : s.idleQ = decide (k = 6) := by
  rw [Bool.eq_iff_iff, decide_eq_true_iff]
  exact h.idle

/-- The handshake is used as it may be. -/
theorem keeps (h : At s p k) (i : Input w) : SyncReqack.Keeps s.sync (syncEdges s i) where
  holdReq := by
    intro e he hpending
    have hk := h.sync.pending_iff.1 hpending
    have hidle : s.idleQ = false := by
      rw [h.idleQ_eq]
      simpa using hk.ne
    obtain ⟨d, hdst, rfl⟩ := Option.map_eq_some_iff.1 he
    simp [dstUpdateReq, hidle]
  ackNeedsReq := by
    intro e he hack
    obtain ⟨d, hsrc, rfl⟩ := Option.map_eq_some_iff.1 he
    exact hack

theorem sync_step (h : At s p k) (i : Input w) :
    SyncReqack.At (Arb.step bitMask s i).sync (nextSync s k i) := h.sync.step (h.keeps i)

/-! Where the handshake goes. -/

theorem nextSync_idle (h : At s p 6) (i : Input w) :
    nextSync s 6 i = if i.dst.any (fun e => dstLatD s e || dstLatQ s e) then 0 else 6 := by
  have hidle : s.idleQ = true := h.idle.2 rfl
  rw [nextSync, SyncReqack.next]
  cases hdst : i.dst with
  | none => simp [syncEdges, hdst, advance, SyncReqack.mask]
  | some e => simp [syncEdges, hdst, advance, SyncReqack.mask, dstUpdateReq, hidle]

theorem nextSync_of_lt (i : Input w) (hk : k < 6) :
    nextSync s k i = advance (SyncReqack.mask (syncEdges s i)) k := if_neg (by omega)

theorem nextSync_cases (i : Input w) (hk : k < 6) :
    nextSync s k i = k ∨ nextSync s k i = k + 1 := by
  rw [nextSync_of_lt i hk]
  exact advance_cases _ k

theorem nextSync_two (h : At s p 2) (i : Input w) :
    nextSync s 2 i = if i.src.isSome then 3 else 2 := by
  have hreq : srcReq s = true := by simp [h.srcReq_eq]
  rw [nextSync_of_lt i (by omega), advance]
  cases hsrc : i.src with
  | none => simp [SyncReqack.mask, syncEdges, hsrc]
  | some e => simp [SyncReqack.mask, syncEdges, hsrc, hreq]

theorem nextSync_five (h : At s p 5) (i : Input w) :
    nextSync s 5 i = if i.dst.isSome then 6 else 5 := by
  have hidle : s.idleQ = false := by simp [h.idleQ_eq]
  rw [nextSync_of_lt i (by omega), advance]
  cases hdst : i.dst with
  | none => simp [SyncReqack.mask, syncEdges, hdst]
  | some e => simp [SyncReqack.mask, syncEdges, hdst, dstUpdateReq, hidle]

/-! What the registers of the other side do. -/

theorem dstQs_step (bitMask : BitVec w) (h : At s p k) (hk : k < 6) (i : Input w) :
    (Arb.step bitMask s i).dstQs = s.dstQs := by
  have hidle : s.idleQ = false := by simpa [h.idleQ_eq] using hk.ne
  cases hdst : i.dst with
  | none => simp [Arb.step, hdst]
  | some e => simp [Arb.step, hdst, dstQsD, dstLatD, dstLatQ, hidle]

theorem idQ_step (bitMask : BitVec w) (h : At s p k) (hk : k < 5) (i : Input w) :
    (Arb.step bitMask s i).idQ = s.idQ := by
  have hidle : s.idleQ = false := by
    rw [h.idleQ_eq, decide_eq_false_iff_not]
    omega
  have hack : dstUpdateAck s = false := by simpa [h.dstUpdateAck_eq] using hk.ne
  cases hdst : i.dst with
  | none => simp [Arb.step, hdst]
  | some e => simp [Arb.step, hdst, idD, dstLatD, dstLatQ, hidle, hack]

theorem dstReqQ_step (bitMask : BitVec w) (h : At s p k) (hk : k < 6) (i : Input w) :
    (Arb.step bitMask s i).dstReqQ = (s.dstReqQ || i.dst.isSome && decide (p = 2)) := by
  have hidle : s.idleQ = false := by simpa [h.idleQ_eq] using hk.ne
  cases hdst : i.dst with
  | none => simp [Arb.step, hdst]
  | some e =>
      have hlat : dstLatD s e = false := by simp [dstLatD, hidle]
      by_cases hp : p = 2 <;> simp [Arb.step, hdst, dstReqD, hlat, hidle, h.dstReqI_eq, hp]

/-- What an idle handshake does: it serves a software access, takes over a change of the hardware,
or stays idle. -/
theorem idle_step (bitMask : BitVec w) (h : At s p 6) (i : Input w) :
    (∃ e, i.dst = some e ∧ dstReq s = true ∧ nextSync s 6 i = 0 ∧
      (Arb.step bitMask s i).dstReqQ = false ∧ (Arb.step bitMask s i).idQ = .swReq ∧
      (Arb.step bitMask s i).dstQs = e.ds) ∨
    (∃ e, i.dst = some e ∧ dstReq s = false ∧ nextSync s 6 i = 0 ∧
      (Arb.step bitMask s i).dstReqQ = false ∧ (Arb.step bitMask s i).idQ = .hwReq ∧
      (dstUpdate s e = true ∧ (Arb.step bitMask s i).dstQs = e.ds ∨
        dstUpdate s e = false ∧ s.dstQs ≠ e.qs ∧ (Arb.step bitMask s i).dstQs = e.qs)) ∨
    ((∀ e, i.dst = some e → dstReq s = false ∧ dstUpdate s e = false ∧ s.dstQs = e.qs) ∧
      nextSync s 6 i = 6 ∧ (Arb.step bitMask s i).dstReqQ = s.dstReqQ ∧
      (Arb.step bitMask s i).idQ = s.idQ ∧ (Arb.step bitMask s i).dstQs = s.dstQs) := by
  have hidle : s.idleQ = true := h.idle.2 rfl
  have hack : dstUpdateAck s = false := by simp [h.dstUpdateAck_eq]
  rw [h.nextSync_idle]
  cases hdst : i.dst with
  | none => simp [Arb.step, hdst]
  | some e =>
      cases hreq : dstReq s with
      | true =>
          have hlat : dstLatD s e = true := by simp [dstLatD, hidle, hreq]
          left
          refine ⟨e, rfl, rfl, by simp [hlat], ?_, ?_, ?_⟩
          · cases hq : s.dstReqQ <;> simp [Arb.step, hdst, dstReqD, hlat, hidle, hq]
          · simp [Arb.step, hdst, idD, hack, hreq, hlat]
          · simp [Arb.step, hdst, dstQsD, hlat]
      | false =>
          have hq : s.dstReqQ = false := by
            rw [dstReq, Bool.or_eq_false_iff] at hreq
            exact hreq.1
          have hlatD : dstLatD s e = dstUpdate s e := by simp [dstLatD, hidle, hreq]
          have hlatQ : dstLatQ s e = (!dstUpdate s e && s.dstQs != e.qs) := by
            simp [dstLatQ, hidle, hreq]
          right
          cases hupdate : dstUpdate s e with
          | true =>
              rw [hupdate] at hlatD
              left
              refine ⟨e, rfl, rfl, by simp [hlatD], ?_, ?_, .inl ⟨hupdate, ?_⟩⟩
              · simp [Arb.step, hdst, dstReqD, hidle, hq]
              · simp [Arb.step, hdst, idD, hack, hreq, hlatD]
              · simp [Arb.step, hdst, dstQsD, hlatD]
          | false =>
              rw [hupdate] at hlatD hlatQ
              by_cases hdiff : s.dstQs = e.qs
              · right
                have hlat : dstLatQ s e = false := by simp [hlatQ, hdiff]
                refine ⟨fun d hd => ?_, by simp [hlatD, hlat], ?_, ?_, ?_⟩
                · obtain rfl := Option.some.inj hd
                  exact ⟨rfl, hupdate, hdiff⟩
                · simp [Arb.step, hdst, dstReqD, hidle, hq]
                · simp [Arb.step, hdst, idD, hack, hlatD, hlat]
                · simp [Arb.step, hdst, dstQsD, hlatD, hlat]
              · left
                have hlat : dstLatQ s e = true := by simpa [hlatQ] using hdiff
                refine ⟨e, rfl, rfl, by simp [hlat], ?_, ?_, .inr ⟨hupdate, hdiff, ?_⟩⟩
                · simp [Arb.step, hdst, dstReqD, hidle, hq]
                · simp [Arb.step, hdst, idD, hack, hlatD, hlat]
                · simp [Arb.step, hdst, dstQsD, hlatD, hlat]

end At

/-! What the registers of the software side do. -/

theorem src_step_of_none (hsrc : i.src = none) : (step bitMask s i).src = s.src := by
  simp [step, hsrc]

theorem src_step_of_req (bitMask : BitVec w) {e : SrcEdge w} (hsrc : i.src = some e) (hreq : e.req = true) :
    (step bitMask s i).src.busyQ = true ∧ (step bitMask s i).src.txn = e.txn bitMask := by
  simp [step, hsrc, SrcRegs.step, SrcRegs.txn, SrcEdge.txn, hreq]

theorem src_step_of_ack {e : SrcEdge w} (hsrc : i.src = some e) (hreq : e.req = false)
    (hbusy : s.src.busyQ = true) (hack : srcAck s = true) :
    (step bitMask s i).src.busyQ = false ∧ (step bitMask s i).src.q = s.dstQs := by
  simp [step, hsrc, SrcRegs.step, hreq, dstToSrc, hbusy, hack]

/-- A busy register keeps its access and does not take over a change of the hardware. -/
theorem src_step_of_busy (hnew : ∀ e ∈ i.src, e.req = false) (hbusy : s.src.busyQ = true)
    (hack : srcAck s = false) : (step bitMask s i).src = s.src := by
  cases hsrc : i.src with
  | none => exact src_step_of_none hsrc
  | some e =>
      have hreq := hnew e hsrc
      simp [step, hsrc, SrcRegs.step, hreq, dstToSrc, hbusy, hack, SrcRegs.busy]
      rw [← hbusy]

theorem src_step_of_free (hnew : ∀ e ∈ i.src, e.req = false) (hbusy : s.src.busyQ = false) :
    (step bitMask s i).src.busyQ = false ∧ (step bitMask s i).src.q =
      if i.src.isSome && srcUpdate s then s.dstQs else s.src.q := by
  cases hsrc : i.src with
  | none => simp [src_step_of_none hsrc, hbusy]
  | some e =>
      have hreq := hnew e hsrc
      simp [step, hsrc, SrcRegs.step, hreq, dstToSrc, hbusy, SrcRegs.busy]

theorem At.srcAck_iff {p k : ℕ} (h : At s p k) : srcAck s = true ↔ k = 2 ∧ Served s k := by
  rw [srcAck, h.srcReq_eq, Bool.and_eq_true, decide_eq_true_iff, beq_iff_eq]
  exact ⟨fun ⟨hk, hid⟩ => ⟨hk, hk.le, hid⟩, fun ⟨hk, hs⟩ => ⟨hk, hs.2⟩⟩

/-- An access starts only where the one before it ends. -/
theorem At.start {p k : ℕ} (h : At s p k) (hi : Spaced s i) {e : SrcEdge w}
    (hsrc : i.src = some e) (hreq : e.req = true) :
    p = 3 ∧ s.dstReqQ = false ∧ (Served s k → k = 2) := by
  have hfree : s.src.busyQ = true → k = 2 ∧ Served s k := by
    intro hbusy
    by_contra hno
    have hack : srcAck s = false := by simpa using mt h.srcAck_iff.1 hno
    rw [hi e hsrc (by simp [SrcRegs.busy, hbusy, hack])] at hreq
    exact Bool.noConfusion hreq
  cases h.phase with
  | free _ hp hq hs => exact ⟨hp, hq, fun hserved => absurd hserved hs⟩
  | sent hbusy _ _ hs => exact absurd (hfree hbusy).2 hs
  | kept hbusy _ _ hs => exact absurd (hfree hbusy).2 hs
  | served hbusy hp hq _ => exact ⟨hp, hq, fun _ => (hfree hbusy).1⟩

/-- An access is served from the start of its handshake until the software side has seen it. -/
theorem At.served_step {p k : ℕ} (h : At s p k) (hs : Served (Arb.step bitMask s i) (nextSync s k i)) :
    Served s k ∧ ¬(k = 2 ∧ i.src.isSome) ∨ k = 6 ∧ i.dst.isSome ∧ dstReq s = true := by
  obtain ⟨hk', hid⟩ := hs
  have hle := h.sync.le
  obtain rfl | hlt : k = 6 ∨ k < 6 := by omega
  · obtain ⟨e, hdst, hreq, -⟩ | ⟨e, -, -, -, -, hhw, -⟩ | ⟨-, hstay, -⟩ := h.idle_step bitMask i
    · exact .inr ⟨rfl, by simp [hdst], hreq⟩
    · rw [hhw] at hid
      exact ReqSel.noConfusion hid
    · omega
  · have hcases := At.nextSync_cases (s := s) i hlt
    have hlow : k ≤ 2 := by omega
    rw [h.idQ_step _ (by omega)] at hid
    refine .inl ⟨⟨hlow, hid⟩, fun ⟨h2, hsrc⟩ => ?_⟩
    subst h2
    rw [h.nextSync_two, if_pos hsrc] at hk'
    omega

/-- An access is kept while another handshake is under way. -/
theorem At.kept_step (bitMask : BitVec w) {p k : ℕ} (h : At s p k) (i : Input w) :
    (Arb.step bitMask s i).dstReqQ =
      if k = 6 then s.dstReqQ && i.dst.isNone else s.dstReqQ || i.dst.isSome && decide (p = 2) := by
  have hle := h.sync.le
  split_ifs with hk
  · subst hk
    obtain ⟨e, hdst, -, -, hq, -⟩ | ⟨e, hdst, -, -, hq, -⟩ | ⟨hnone, -, hq, -⟩ :=
      h.idle_step bitMask i
    · simp [hq, hdst]
    · simp [hq, hdst]
    · rw [hq]
      cases hdst : i.dst with
      | none => simp
      | some e =>
          have hreq := (hnone e hdst).1
          rw [dstReq, Bool.or_eq_false_iff] at hreq
          simp [hreq.1]
  · exact h.dstReqQ_step bitMask (by omega) i

theorem At.idle_iff_step {p k : ℕ} (h : At s p k) (i : Input w) :
    (Arb.step bitMask s i).idleQ = true ↔ nextSync s k i = 6 := by
  have hle := h.sync.le
  obtain rfl | rfl | hlt : k = 6 ∨ k = 5 ∨ k < 5 := by omega
  · have hidle : s.idleQ = true := h.idle.2 rfl
    rw [h.nextSync_idle]
    cases hdst : i.dst with
    | none => simp [Arb.step, hdst, hidle]
    | some e => cases hlat : dstLatD s e || dstLatQ s e <;> simp [Arb.step, hdst, idleD, hidle, hlat]
  · have hidle : s.idleQ = false := by simp [h.idleQ_eq]
    have hack : dstUpdateAck s = true := by simp [h.dstUpdateAck_eq]
    rw [h.nextSync_five]
    cases hdst : i.dst <;> simp [Arb.step, hdst, idleD, hidle, hack]
  · have hidle : s.idleQ = false := by
      rw [h.idleQ_eq, decide_eq_false_iff_not]
      omega
    have hack : dstUpdateAck s = false := by simpa [h.dstUpdateAck_eq] using hlt.ne
    have hcases := At.nextSync_cases (s := s) i (show k < 6 by omega)
    have hstay : (Arb.step bitMask s i).idleQ = false := by
      cases hdst : i.dst <;> simp [Arb.step, hdst, idleD, hidle, hack]
    rw [hstay]
    simp
    omega

/-- A free register shows what the last handshake brought. -/
theorem At.shown_step {p k : ℕ} (h : At s p k) (hnew : ∀ e ∈ i.src, e.req = false)
    (hbusy : s.src.busyQ = false) (hk' : 3 ≤ nextSync s k i) :
    (Arb.step bitMask s i).src.q = (Arb.step bitMask s i).dstQs := by
  have hle := h.sync.le
  have hserved : ¬Served s k := by
    cases h.phase with
    | free _ _ _ hs => exact hs
    | sent hb | kept hb | served hb => simp [hbusy] at hb
  rw [(src_step_of_free hnew hbusy).2]
  obtain hlt | rfl | hgt | rfl : k < 2 ∨ k = 2 ∨ (2 < k ∧ k < 6) ∨ k = 6 := by omega
  · have hcases := At.nextSync_cases (s := s) i (show k < 6 by omega)
    omega
  · rw [h.nextSync_two] at hk'
    have hsrc : i.src.isSome = true := by
      by_contra hsrc
      rw [if_neg hsrc] at hk'
      omega
    have hid : s.idQ = .hwReq := by
      cases hid : s.idQ with
      | swReq => exact absurd ⟨le_rfl, hid⟩ hserved
      | hwReq => rfl
    have hupdate : srcUpdate s = true := by simp [srcUpdate, h.srcReq_eq, hid]
    rw [hsrc, hupdate, h.dstQs_step _ (by omega)]
    rfl
  · have hupdate : srcUpdate s = false := by simp [srcUpdate, h.srcReq_eq, show k ≠ 2 by omega]
    rw [hupdate, Bool.and_false, h.dstQs_step _ hgt.2]
    exact h.shown hbusy (by omega)
  · have hupdate : srcUpdate s = false := by simp [srcUpdate, h.srcReq_eq]
    rw [hupdate, Bool.and_false]
    obtain ⟨e, -, -, hz, -⟩ | ⟨e, -, -, hz, -⟩ | ⟨-, -, -, -, hqs⟩ :=
      h.idle_step bitMask i
    · omega
    · omega
    · rw [hqs]
      exact h.shown hbusy (by omega)

theorem noPulse (hnew : ∀ e ∈ i.src, e.req = false) : i.src.map SrcEdge.req ≠ some true := by
  intro hpulse
  obtain ⟨e, he, hr⟩ := Option.map_eq_some_iff.1 hpulse
  simp [hnew e he] at hr

theorem At.dstReq_eq {p k : ℕ} (h : At s p k) : dstReq s = (s.dstReqQ || decide (p = 2)) := by
  rw [dstReq, h.dstReqI_eq]

/-- A waiting access is served as soon as the handshake is idle. -/
theorem At.served_of_idle (bitMask : BitVec w) {p : ℕ} (h : At s p 6) (hdst : i.dst.isSome)
    (hreq : dstReq s = true) : Served (Arb.step bitMask s i) (nextSync s 6 i) := by
  obtain ⟨e, -, -, hz, -, hid, -⟩ | ⟨e, -, hno, -⟩ | ⟨hnone, -⟩ := h.idle_step bitMask i
  · exact ⟨by omega, hid⟩
  · simp [hreq] at hno
  · obtain ⟨e, he⟩ := Option.isSome_iff_exists.1 hdst
    simp [hreq] at hnone
    exact absurd he (hnone e)

theorem At.phase_step_of_req {p k : ℕ} (h : At s p k) (hi : Spaced s i) {e : SrcEdge w}
    (hsrc : i.src = some e) (hreq : e.req = true) :
    Phase (Arb.step bitMask s i) (nextReq p i) (nextSync s k i) := by
  obtain ⟨hp, hq, hserved⟩ := h.start hi hsrc hreq
  have hnext : nextReq p i = 0 := PulseSync.next_of_pulse (by simp [hsrc, hreq])
  refine .sent (src_step_of_req bitMask hsrc hreq).1 (by omega) ?_ fun hs => ?_
  · rw [h.kept_step bitMask, hq, hp]
    split_ifs <;> simp
  · obtain ⟨hold, hnot⟩ | ⟨-, -, hnow⟩ := h.served_step hs
    · exact hnot ⟨hserved hold, by simp [hsrc]⟩
    · simp [h.dstReq_eq, hq, hp] at hnow

/-- The register stays busy while the access has not been served. -/
theorem At.busy_stays (bitMask : BitVec w) {p k : ℕ} (h : At s p k)
    (hnew : ∀ e ∈ i.src, e.req = false) (hs : ¬Served s k) (hbusy : s.src.busyQ = true) :
    (Arb.step bitMask s i).src.busyQ = true := by
  have hack : srcAck s = false := by simpa using mt h.srcAck_iff.1 fun hack => hs hack.2
  rw [src_step_of_busy hnew hbusy hack, hbusy]

/-- An access that is on its way over arrives and is served, or kept if a handshake is under way. -/
theorem At.phase_step_of_sent (bitMask : BitVec w) {p k : ℕ} (h : At s p k)
    (hnew : ∀ e ∈ i.src, e.req = false) (hbusy : s.src.busyQ = true) (hp : p < 3)
    (hq : s.dstReqQ = false) (hs : ¬Served s k) :
    Phase (Arb.step bitMask s i) (nextReq p i) (nextSync s k i) := by
  have hpulse := noPulse hnew
  have hkept := h.kept_step bitMask i
  have hstay := h.busy_stays bitMask hnew hs hbusy
  cases hdst : i.dst with
  | none =>
      have hnext : nextReq p i = p := PulseSync.next_of_dst_none hpulse (by simp [hdst])
      refine .sent hstay (by omega) ?_ fun hserved => ?_
      · rw [hkept, hq, hdst]
        split_ifs <;> simp
      · obtain ⟨hold, -⟩ | ⟨-, hsome, -⟩ := h.served_step hserved
        · exact hs hold
        · simp [hdst] at hsome
  | some e =>
      obtain rfl | hlt : p = 2 ∨ p < 2 := by omega
      · have hnext : nextReq 2 i = 3 :=
          PulseSync.next_two hpulse (show _ = some e.lateReq by simp [hdst])
        have hreq : dstReq s = true := by simp [h.dstReq_eq]
        by_cases hk : k = 6
        · subst hk
          exact .served hstay hnext (by simp [hkept, hq])
            (h.served_of_idle bitMask (by simp [hdst]) hreq)
        · refine .kept hstay hnext (by simp [hkept, hk, hdst]) fun hserved => ?_
          obtain ⟨hold, -⟩ | ⟨h6, -⟩ := h.served_step hserved
          · exact hs hold
          · exact hk h6
      · have hnext : nextReq p i = p ∨ nextReq p i = p + 1 := PulseSync.next_cases hpulse
        refine .sent hstay (by omega) ?_ fun hserved => ?_
        · rw [hkept, hq, decide_eq_false hlt.ne]
          split_ifs <;> simp
        · obtain ⟨hold, -⟩ | ⟨-, -, hnow⟩ := h.served_step hserved
          · exact hs hold
          · simp [h.dstReq_eq, hq, hlt.ne] at hnow

/-- An access that is kept is served when the handshake is idle. -/
theorem At.phase_step_of_kept (bitMask : BitVec w) {k : ℕ} (h : At s 3 k)
    (hnew : ∀ e ∈ i.src, e.req = false) (hbusy : s.src.busyQ = true) (hq : s.dstReqQ = true)
    (hs : ¬Served s k) : Phase (Arb.step bitMask s i) (nextReq 3 i) (nextSync s k i) := by
  have hthree : nextReq 3 i = 3 := PulseSync.next_three (noPulse hnew)
  have hkept := h.kept_step bitMask i
  have hstay := h.busy_stays bitMask hnew hs hbusy
  have hreq : dstReq s = true := by simp [h.dstReq_eq, hq]
  by_cases hstart : k = 6 ∧ i.dst.isSome
  · obtain ⟨rfl, hdst⟩ := hstart
    refine .served hstay hthree ?_ (h.served_of_idle bitMask hdst hreq)
    rw [hkept, if_pos rfl]
    cases hd : i.dst <;> simp [hd] at hdst ⊢
  · refine .kept hstay hthree ?_ fun hserved => ?_
    · rw [hkept, hq]
      split_ifs with hk
      · cases hd : i.dst <;> simp [hd, hk] at hstart ⊢
      · simp
    · obtain ⟨hold, -⟩ | ⟨h6, hsome, -⟩ := h.served_step hserved
      · exact hs hold
      · exact hstart ⟨h6, hsome⟩

/-- An access that is served ends when the software side sees the handshake. -/
theorem At.phase_step_of_served (bitMask : BitVec w) {k : ℕ} (h : At s 3 k)
    (hnew : ∀ e ∈ i.src, e.req = false) (hbusy : s.src.busyQ = true) (hq : s.dstReqQ = false)
    (hs : Served s k) : Phase (Arb.step bitMask s i) (nextReq 3 i) (nextSync s k i) := by
  have hthree : nextReq 3 i = 3 := PulseSync.next_three (noPulse hnew)
  have hk2 := hs.1
  have hkept : (Arb.step bitMask s i).dstReqQ = false := by
    rw [h.kept_step, hq]
    split_ifs <;> simp
  by_cases hseen : k = 2 ∧ i.src.isSome
  · obtain ⟨e, hsrc⟩ := Option.isSome_iff_exists.1 hseen.2
    have hack := h.srcAck_iff.2 ⟨hseen.1, hs⟩
    refine .free (src_step_of_ack hsrc (hnew e hsrc) hbusy hack).1 hthree hkept fun hserved => ?_
    obtain ⟨-, hnot⟩ | ⟨h6, -⟩ := h.served_step hserved
    · exact hnot hseen
    · omega
  · have hregs : (Arb.step bitMask s i).src.busyQ = true := by
      cases hsrc : i.src with
      | none => rw [src_step_of_none hsrc, hbusy]
      | some e =>
          have hack : srcAck s = false := by
            simpa using mt h.srcAck_iff.1 fun hack => hseen ⟨hack.1, by simp [hsrc]⟩
          rw [src_step_of_busy hnew hbusy hack, hbusy]
    have hcases := At.nextSync_cases (s := s) i (show k < 6 by omega)
    refine .served hregs hthree hkept ⟨?_, (h.idQ_step _ (by omega) i).trans hs.2⟩
    by_contra hgt
    obtain rfl : k = 2 := by omega
    rw [h.nextSync_two, if_neg fun hsrc => hseen ⟨rfl, hsrc⟩] at hgt
    omega

/-- Each instant takes an access on or leaves it where it is. -/
theorem At.phase_step {p k : ℕ} (h : At s p k) (hi : Spaced s i) :
    Phase (Arb.step bitMask s i) (nextReq p i) (nextSync s k i) := by
  by_cases hreq : ∃ e, i.src = some e ∧ e.req = true
  · obtain ⟨e, hsrc, hreq⟩ := hreq
    exact h.phase_step_of_req hi hsrc hreq
  have hnew : ∀ e ∈ i.src, e.req = false := by
    intro e he
    by_contra hne
    exact hreq ⟨e, he, by simpa using hne⟩
  cases h.phase with
  | free hbusy hp hq hs =>
      subst hp
      have hthree : nextReq 3 i = 3 := PulseSync.next_three (noPulse hnew)
      refine .free (src_step_of_free hnew hbusy).1 hthree ?_ fun hserved => ?_
      · rw [h.kept_step, hq]
        split_ifs <;> simp
      · obtain ⟨hold, -⟩ | ⟨-, -, hnow⟩ := h.served_step hserved
        · exact hs hold
        · simp [h.dstReq_eq, hq] at hnow
  | sent hbusy hp hq hs => exact h.phase_step_of_sent bitMask hnew hbusy hp hq hs
  | kept hbusy hp hq hs =>
      subst hp
      exact h.phase_step_of_kept bitMask hnew hbusy hq hs
  | served hbusy hp hq hs =>
      subst hp
      exact h.phase_step_of_served bitMask hnew hbusy hq hs

/-- Each instant keeps what is said of an access and of the handshake. -/
theorem At.step {p k : ℕ} (h : At s p k) (hi : Spaced s i) :
    At (Arb.step bitMask s i) (nextReq p i) (nextSync s k i) where
  req := by
    refine h.req.step fun hpulse => ?_
    obtain ⟨e, hsrc, hreq⟩ := Option.map_eq_some_iff.1 hpulse
    exact (h.start hi hsrc hreq).1
  sync := h.sync_step i
  idle := h.idle_iff_step i
  phase := h.phase_step hi
  shown := by
    intro hbusy' hk'
    have hnew : ∀ e ∈ i.src, e.req = false := by
      intro e he
      by_contra hne
      simp [(src_step_of_req bitMask he (by simpa using hne)).1] at hbusy'
    cases hbusy : s.src.busyQ with
    | false => exact h.shown_step hnew hbusy hk'
    | true =>
        have hack : srcAck s = true := by
          by_contra hack
          rw [src_step_of_busy hnew hbusy (by simpa using hack), hbusy] at hbusy'
          exact Bool.noConfusion hbusy'
        obtain ⟨rfl, -⟩ := h.srcAck_iff.1 hack
        cases hsrc : i.src with
        | none =>
            rw [src_step_of_none hsrc, hbusy] at hbusy'
            exact Bool.noConfusion hbusy'
        | some e =>
            rw [(src_step_of_ack hsrc (hnew e hsrc) hbusy hack).2, h.dstQs_step _ (by omega)]

/-! ### Every access is delivered once -/

/-- What was issued and is not delivered yet. -/
def held (s : State w) : List (Txn w) :=
  if PulseSync.underway s.req || s.dstReqQ then [s.src.txn] else []

theorem At.held_eq {p k : ℕ} (h : At s p k) :
    held s = if p < 3 ∨ s.dstReqQ = true then [s.src.txn] else [] := by
  refine if_congr ?_ rfl rfl
  rw [Bool.or_eq_true, h.req.underway_iff]

theorem At.delivered_eq {p k : ℕ} (h : At s p k) (i : Input w) :
    delivered s i =
      if i.dst.isSome ∧ k = 6 ∧ (s.dstReqQ = true ∨ p = 2) then some s.src.txn else none := by
  rw [delivered, dstReqO, h.dstReq_eq, h.idleQ_eq]
  cases i.dst <;> simp

/-- An access that is not delivered keeps its data. -/
theorem At.txn_step {p k : ℕ} (h : At s p k) (hnew : ∀ e ∈ i.src, e.req = false)
    (hheld : p < 3 ∨ s.dstReqQ = true) : (Arb.step bitMask s i).src.txn = s.src.txn := by
  have hstay (hs : ¬Served s k) (hbusy : s.src.busyQ = true) :
      (Arb.step bitMask s i).src.txn = s.src.txn := by
    have hack : srcAck s = false := by simpa using mt h.srcAck_iff.1 fun hack => hs hack.2
    rw [src_step_of_busy hnew hbusy hack]
  cases h.phase with
  | free _ hp hq _ => simp [hp, hq] at hheld
  | sent hbusy _ _ hs => exact hstay hs hbusy
  | kept hbusy _ _ hs => exact hstay hs hbusy
  | served _ hp hq _ => simp [hp, hq] at hheld

/-- An access that was held is delivered or held on. -/
theorem At.held_step (bitMask : BitVec w) {p k : ℕ} (h : At s p k)
    (hnew : ∀ e ∈ i.src, e.req = false) :
    (nextReq p i < 3 ∨ (Arb.step bitMask s i).dstReqQ = true) ↔ (p < 3 ∨ s.dstReqQ = true) ∧
      ¬(i.dst.isSome ∧ k = 6 ∧ (s.dstReqQ = true ∨ p = 2)) := by
  have hpulse := noPulse hnew
  have hp := h.req.le
  rw [h.kept_step]
  cases hdst : i.dst with
  | none =>
      have hnext : nextReq p i = p := PulseSync.next_of_dst_none hpulse (by simp [hdst])
      simp [hnext]
  | some e =>
      obtain rfl | rfl | hlt : p = 3 ∨ p = 2 ∨ p < 2 := by omega
      · have hnext : nextReq 3 i = 3 := PulseSync.next_three hpulse
        by_cases hk : k = 6 <;> simp [hnext, hk]
      · have hnext : nextReq 2 i = 3 :=
          PulseSync.next_two hpulse (show _ = some e.lateReq by simp [hdst])
        by_cases hk : k = 6 <;> simp [hnext, hk]
      · have hnext : nextReq p i = p ∨ nextReq p i = p + 1 := PulseSync.next_cases hpulse
        have hq : s.dstReqQ = false := by
          cases h.phase with
          | free _ hp3 => omega
          | sent _ _ hq => exact hq
          | kept _ hp3 => omega
          | served _ hp3 => omega
        have hmoved : nextReq p i < 3 := by omega
        have hold : p < 3 := by omega
        simp [hmoved, hold, hq, hlt.ne]

theorem At.ledger_step {p k : ℕ} (h : At s p k) (hi : Spaced s i) :
    held s ++ (issued bitMask s i).toList =
      (delivered s i).toList ++ held (Arb.step bitMask s i) := by
  rw [h.held_eq, (h.step hi).held_eq, h.delivered_eq]
  by_cases hreq : ∃ e, i.src = some e ∧ e.req = true
  · obtain ⟨e, hsrc, hreq⟩ := hreq
    obtain ⟨rfl, hq, -⟩ := h.start hi hsrc hreq
    have hnext : nextReq 3 i = 0 := PulseSync.next_of_pulse (by simp [hsrc, hreq])
    have htxn := (src_step_of_req (s := s) bitMask hsrc hreq).2
    simp [hq, hnext, issued, SrcEdge.issued, hsrc, hreq, htxn]
  · have hnew : ∀ e ∈ i.src, e.req = false := by
      intro e he
      by_contra hne
      exact hreq ⟨e, he, by simpa using hne⟩
    have hissued : issued bitMask s i = none := by
      cases hsrc : i.src with
      | none => simp [issued, hsrc]
      | some e => simp [issued, SrcEdge.issued, hsrc, hnew e hsrc]
    have hiff := h.held_step bitMask hnew
    rw [hissued, Option.toList_none, List.append_nil]
    by_cases hgone : i.dst.isSome ∧ k = 6 ∧ (s.dstReqQ = true ∨ p = 2)
    · have hheld : p < 3 ∨ s.dstReqQ = true := by
        obtain ⟨-, -, hq | hp⟩ := hgone
        · exact .inr hq
        · exact .inl (by omega)
      rw [if_pos hheld, if_pos hgone, if_neg fun hnext => (hiff.1 hnext).2 hgone]
      rfl
    · rw [if_neg hgone]
      by_cases hheld : p < 3 ∨ s.dstReqQ = true
      · rw [if_pos hheld, if_pos (hiff.2 ⟨hheld, hgone⟩), h.txn_step hnew hheld]
        rfl
      · rw [if_neg hheld, if_neg fun hnext => hheld (hiff.1 hnext).1]
        rfl

/-- As with `Passthru`, whatever the hardware does to the register: the other side sees the
accesses that were issued, in order, each once and with its data. -/
theorem arb_delivers_once {is : List (Input w)}
    (h : Allowed (step bitMask) Spaced (.reset resetVal) is) :
    ∃ rest, log (step bitMask) (issued bitMask) (.reset resetVal) is =
        log (step bitMask) delivered (.reset resetVal) is ++ rest ∧
      (rest = [] ∨ rest = [(run (step bitMask) (.reset resetVal) is).src.txn] ∧
        (run (step bitMask) (.reset resetVal) is).src.busyQ = true) := by
  have hstart : ∃ p k, At (.reset resetVal) p k := ⟨3, 6, at_reset⟩
  have hledger := h.ledger (fun s => ∃ p k, At s p k) held
    (fun s i hi ⟨p, k, hat⟩ => ⟨⟨_, _, hat.step hi⟩, hat.ledger_step hi⟩) hstart
  obtain ⟨p, k, hat⟩ := h.invariant (fun s => ∃ p k, At s p k)
    (fun s i hi ⟨p, k, hat⟩ => ⟨_, _, hat.step hi⟩) hstart
  refine ⟨_, hledger, ?_⟩
  rw [hat.held_eq]
  cases hat.phase with
  | free _ hp hq => exact .inl (by simp [hp, hq])
  | sent hbusy hp => exact .inr ⟨if_pos (.inl hp), hbusy⟩
  | kept hbusy _ hq => exact .inr ⟨if_pos (.inr hq), hbusy⟩
  | served _ hp hq => exact .inl (by simp [hp, hq])

/-- A read that arrives while the register of the hardware changes to 1, and the cycles in which
first the change and then the read cross over. -/
def readRun : List (Input 2) :=
  ⟨some ⟨false, false, true, 0, false⟩, none⟩ :: ⟨none, some ⟨true, 1, 0, false, false⟩⟩ ::
    List.replicate 12 ⟨some ⟨false, false, false, 0, false⟩, some ⟨false, 1, 1, false, false⟩⟩

theorem arb_delivers_once_readRun :
    log (step 3) delivered (.reset (0 : BitVec 2)) readRun = [(⟨false, true, false⟩, 0)] := by
  obtain ⟨rest, hlog, rfl | ⟨-, hbusy⟩⟩ := @arb_delivers_once 2 0 3 readRun (by decide)
  · rw [List.append_nil] at hlog
    exact hlog.symm.trans (by decide)
  · exact absurd hbusy (by decide)

/-! ### The software side catches up with the hardware -/

/-- Neither side changes anything: the register of the hardware keeps the value `v`, and no access
starts. -/
structure Quiet (v : BitVec w) (i : Input w) : Prop where
  noReq : ∀ e ∈ i.src, e.req = false
  ds : ∀ e ∈ i.dst, e.ds = v
  qs : ∀ e ∈ i.dst, e.qs = v

/-- The clock of the side ticks, and no first flop is late. -/
def OnTime : Side → Input w → Prop
  | .src, i => ∃ e ∈ i.src, e.late = false
  | .dst, i => ∃ e ∈ i.dst, e.lateReq = false ∧ e.lateAck = false

instance (v : BitVec w) (i : Input w) : Decidable (Quiet v i) :=
  decidable_of_iff ((∀ e ∈ i.src, e.req = false) ∧ (∀ e ∈ i.dst, e.ds = v) ∧ ∀ e ∈ i.dst, e.qs = v)
    ⟨fun h => ⟨h.1, h.2.1, h.2.2⟩, fun h => ⟨h.1, h.2, h.3⟩⟩

instance : (side : Side) → (i : Input w) → Decidable (OnTime side i)
  | .src, i => inferInstanceAs (Decidable (∃ e ∈ i.src, e.late = false))
  | .dst, i => inferInstanceAs (Decidable (∃ e ∈ i.dst, e.lateReq = false ∧ e.lateAck = false))

/-- How many of the flops the pulse has come past. -/
def travelledReq (s : State w) : ℕ := (PulseSync.row s.req).count s.req.srcLevel

/-- What is left to do until the software side shows `v`: the rest of the way of the pulse and of
the handshake, and a whole handshake for each reason to start one. -/
def remaining (v : BitVec w) (s : State w) : ℕ :=
  3 - travelledReq s + (6 - SyncReqack.travelled s.sync) + (if s.dstQs = v then 0 else 7) +
    if PulseSync.underway s.req || s.dstReqQ then 7 else 0

/-- The clock that takes the handshake on, or starts one. -/
def waits (s : State w) : Side := if SyncReqack.travelled s.sync < 3 then .src else .dst

theorem At.remaining_eq {p k : ℕ} (h : At s p k) (v : BitVec w) :
    remaining v s = 3 - p + (6 - k) + (if s.dstQs = v then 0 else 7) +
      if p < 3 ∨ s.dstReqQ = true then 7 else 0 := by
  have hreq : travelledReq s = p := by rw [travelledReq, h.req.row, count_cells]
  have hheld : (PulseSync.underway s.req || s.dstReqQ) = true ↔ p < 3 ∨ s.dstReqQ = true := by
    rw [Bool.or_eq_true, h.req.underway_iff]
  rw [remaining, hreq, h.sync.travelled_eq, if_congr hheld rfl rfl]

theorem At.waits_eq {p k : ℕ} (h : At s p k) : waits s = if k < 3 then .src else .dst := by
  rw [waits, h.sync.travelled_eq]

/-- A handshake under way goes on when its clock ticks. -/
theorem At.nextSync_of_onTime {p k : ℕ} (h : At s p k) (hk : k < 6)
    (ht : OnTime (if k < 3 then .src else .dst) i) : nextSync s k i = k + 1 := by
  obtain hlt | hge : k < 3 ∨ 3 ≤ k := by omega
  · rw [if_pos hlt] at ht
    obtain ⟨e, hsrc, hlate⟩ := ht
    rw [Option.mem_def] at hsrc
    obtain rfl | rfl | rfl : k = 0 ∨ k = 1 ∨ k = 2 := by omega
    · rw [At.nextSync_of_lt i hk]
      simp [advance, SyncReqack.mask, syncEdges, hsrc, hlate]
    · rw [At.nextSync_of_lt i hk]
      simp [advance, SyncReqack.mask, syncEdges, hsrc]
    · rw [h.nextSync_two, hsrc]
      rfl
  · rw [if_neg (by omega)] at ht
    obtain ⟨e, hdst, -, hlate⟩ := ht
    rw [Option.mem_def] at hdst
    obtain rfl | rfl | rfl : k = 3 ∨ k = 4 ∨ k = 5 := by omega
    · rw [At.nextSync_of_lt i hk]
      simp [advance, SyncReqack.mask, syncEdges, hdst, hlate]
    · rw [At.nextSync_of_lt i hk]
      simp [advance, SyncReqack.mask, syncEdges, hdst]
    · rw [h.nextSync_five, hdst]
      rfl

/-- In an instant there is less to do, or all is as it was. -/
theorem At.remaining_step (bitMask : BitVec w) {p k : ℕ} {v : BitVec w} (h : At s p k) (hi : Quiet v i) :
    remaining v (Arb.step bitMask s i) < remaining v s ∨
      remaining v (Arb.step bitMask s i) = remaining v s ∧
        waits (Arb.step bitMask s i) = waits s ∧
        (remaining v s ≠ 0 → ¬OnTime (waits s) i) := by
  have hat' : At (Arb.step bitMask s i) (nextReq p i) (nextSync s k i) :=
    h.step fun e he _ => hi.noReq e he
  have hheld := h.held_step bitMask hi.noReq
  have hp : nextReq p i = p ∨ nextReq p i = p + 1 := PulseSync.next_cases (noPulse hi.noReq)
  have hple := h.req.le
  have hkle := h.sync.le
  have hple' := hat'.req.le
  rw [h.remaining_eq, hat'.remaining_eq, h.waits_eq, hat'.waits_eq]
  obtain rfl | hk : k = 6 ∨ k < 6 := by omega
  · obtain ⟨e, hdst, hreq, hz, -, -, hqs⟩ | ⟨e, hdst, hreq, hz, -, -, hqs⟩ | ⟨hnone, hstay, -, -, hqs⟩ :=
      h.idle_step bitMask i
    · rw [h.dstReq_eq, Bool.or_eq_true, decide_eq_true_iff] at hreq
      have hgone : ¬(nextReq p i < 3 ∨ (Arb.step bitMask s i).dstReqQ = true) := fun hnext =>
        (hheld.1 hnext).2 ⟨by simp [hdst], rfl, hreq⟩
      have hold : p < 3 ∨ s.dstReqQ = true := by
        obtain hq | hp2 := hreq
        · exact .inr hq
        · exact .inl (by omega)
      rw [hqs, hi.ds e hdst, if_pos rfl, if_neg hgone, if_pos hold]
      left
      omega
    · rw [h.dstReq_eq, Bool.or_eq_false_iff, decide_eq_false_iff_not] at hreq
      have hiff : (nextReq p i < 3 ∨ (Arb.step bitMask s i).dstReqQ = true) ↔
          p < 3 ∨ s.dstReqQ = true := by
        rw [hheld]
        simp [hreq.1, hreq.2]
      have hv : (Arb.step bitMask s i).dstQs = v ∧ s.dstQs ≠ v := by
        obtain ⟨hupdate, hnow⟩ | ⟨-, hne, hnow⟩ := hqs
        · rw [dstUpdate, Bool.and_eq_true, bne_iff_ne, hi.ds e hdst] at hupdate
          exact ⟨hnow.trans (hi.ds e hdst), hupdate.2⟩
        · rw [hi.qs e hdst] at hne
          exact ⟨hnow.trans (hi.qs e hdst), hne⟩
      rw [if_congr hiff rfl rfl, if_pos hv.1, if_neg hv.2]
      left
      omega
    · have hiff : (nextReq p i < 3 ∨ (Arb.step bitMask s i).dstReqQ = true) ↔
          p < 3 ∨ s.dstReqQ = true := by
        rw [hheld]
        refine and_iff_left fun ⟨hsome, _, hreq⟩ => ?_
        obtain ⟨e, hdst⟩ := Option.isSome_iff_exists.1 hsome
        have hno := (hnone e hdst).1
        rw [h.dstReq_eq, Bool.or_eq_false_iff, decide_eq_false_iff_not] at hno
        simp [hno.1, hno.2] at hreq
      rw [if_congr hiff rfl rfl, hstay, hqs]
      obtain hsame | hmoved := hp
      · right
        rw [hsame]
        refine ⟨rfl, rfl, fun hne ht => ?_⟩
        obtain ⟨e, hdst, hlate, -⟩ := ht
        obtain ⟨hno, -, hv⟩ := hnone e hdst
        rw [h.dstReq_eq, Bool.or_eq_false_iff, decide_eq_false_iff_not] at hno
        rw [hv, hi.qs e hdst, if_pos rfl] at hne
        have hp3 : p < 3 := by
          by_contra hge
          rw [if_neg (by simp [hge, hno.1])] at hne
          omega
        have hmoved : nextReq p i = p + 1 :=
          PulseSync.next_of_onTime hp3 (noPulse hi.noReq) (show _ = some false by
            rw [Option.mem_def] at hdst
            simp [hdst, hlate])
        omega
      · left
        omega
  · have hcases := At.nextSync_cases (s := s) i hk
    have hsame := h.dstQs_step bitMask hk i
    have hiff : (nextReq p i < 3 ∨ (Arb.step bitMask s i).dstReqQ = true) ↔
        p < 3 ∨ s.dstReqQ = true := by
      rw [hheld]
      simp [hk.ne]
    rw [hsame, if_congr hiff rfl rfl]
    by_cases hstay : nextReq p i = p ∧ nextSync s k i = k
    · right
      rw [hstay.1, hstay.2]
      refine ⟨rfl, rfl, fun _ ht => ?_⟩
      have hmoved := h.nextSync_of_onTime hk ht
      omega
    · left
      omega

theorem settles (v : BitVec w) : Settles (step bitMask) (fun _ i => Quiet v i) OnTime
    (fun s => ∃ p k, At s p k) (remaining v) waits where
  keeps := fun s i hi ⟨p, k, hat⟩ => ⟨_, _, hat.step fun e he _ => hi.noReq e he⟩
  stays := by
    rintro s i hi ⟨p, k, hat⟩
    obtain hlt | ⟨heq, hwaits, -⟩ := hat.remaining_step bitMask hi
    · exact .inl hlt
    · exact .inr ⟨heq, hwaits⟩
  falls := by
    rintro s i hi ⟨p, k, hat⟩ hne ht
    obtain hlt | ⟨-, -, hno⟩ := hat.remaining_step bitMask hi
    · exact hlt
    · exact absurd ht (hno hne)

/-- When the register of the hardware stays as it is and software starts no access, then within 23
rounds of the two clocks the software side shows that register and is not busy. -/
theorem shows_hardware {v : BitVec w} {js : List (Input w)} {rounds : List (List (Input w))}
    (hjs : Allowed (step bitMask) Spaced (.reset resetVal) js)
    (hquiet : ∀ i ∈ rounds.flatten, Quiet v i)
    (hboth : ∀ round ∈ rounds, Both OnTime round) (hlen : 23 ≤ rounds.length) :
    (run (step bitMask) (.reset resetVal) (js ++ rounds.flatten)).src.q = v ∧
      (run (step bitMask) (.reset resetVal) (js ++ rounds.flatten)).src.busyQ = false := by
  obtain ⟨p, k, hat⟩ := hjs.invariant (fun s => ∃ p k, At s p k)
    (fun s i hi ⟨p, k, hat⟩ => ⟨_, _, hat.step hi⟩) ⟨3, 6, at_reset⟩
  have hall := allowed_of_forall (step bitMask) (run (step bitMask) (.reset resetVal) js) hquiet
  have hstart : remaining v (run (step bitMask) (.reset resetVal) js) ≤ rounds.length := by
    rw [hat.remaining_eq]
    split_ifs <;> omega
  have hend := (settles v).settled hall ⟨p, k, hat⟩ hboth hstart
  obtain ⟨p', k', hat'⟩ := hall.invariant _ (settles v).keeps ⟨p, k, hat⟩
  rw [run_append]
  have hp' := hat'.req.le
  have hk' := hat'.sync.le
  rw [hat'.remaining_eq] at hend
  have hv : (run (step bitMask) (run (step bitMask) (.reset resetVal) js) rounds.flatten).dstQs = v := by
    by_contra hv
    rw [if_neg hv] at hend
    omega
  have hk6 : k' = 6 := by omega
  subst hk6
  cases hat'.phase with
  | free hbusy => exact ⟨(hat'.shown hbusy (by omega)).trans hv, hbusy⟩
  | sent _ hlt => exact absurd hend (by omega)
  | kept _ _ hq => exact absurd hend (by simp [hq])
  | served _ _ _ hs => exact absurd hs.1 (by omega)

/-- The hardware keeps the value 2 while software reads the register. -/
theorem shows_hardware_run :
    (run (step 3) (.reset 0) ([⟨some ⟨false, false, true, 0, false⟩, none⟩] ++ (List.replicate 23
      [⟨some ⟨false, false, false, 0, false⟩, some ⟨false, 2, 2, false, false⟩⟩]).flatten)).src.q =
        (2 : BitVec 2) ∧
      (run (step 3) (.reset 0) ([⟨some ⟨false, false, true, 0, false⟩, none⟩] ++
        (List.replicate 23 [⟨some ⟨false, false, false, 0, false⟩,
          some ⟨false, (2 : BitVec 2), 2, false, false⟩⟩]).flatten)).src.busyQ = false :=
  shows_hardware (by decide) (by decide) (by decide) (by decide)

end Arb

end UsbDev.RegCdc
