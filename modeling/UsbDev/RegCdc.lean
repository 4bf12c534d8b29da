import UsbDev.ReqAck

/-!
# Registers in another clock domain

`prim_reg_cdc` keeps a register of the other clock domain for software. A software
access is sent across once, with its data, and the register reads as busy until it is
acknowledged; where the hardware can change the register, `prim_reg_cdc_arb` puts the
changes and the software accesses in one sequence of handshakes.
-/
namespace UsbDev.RegCdc

open Clocked TwoClocks

variable {w : ℕ}

/-! ### The software side -/

/-- `txn_bits_q`. -/
structure TxnBits where
  we : Bool
  re : Bool
  regwen : Bool
  deriving DecidableEq, Repr

/-- The inputs at an edge of `clk_src_i`; the first flop of what comes back may be late. -/
structure SrcEdge (w : ℕ) where
  regwen : Bool
  we : Bool
  re : Bool
  wd : BitVec w
  late : Bool
  deriving DecidableEq, Repr

/-- `src_req`. -/
def SrcEdge.req (e : SrcEdge w) : Bool := e.we || e.re

/-- The registers of the software side. -/
structure SrcRegs (w : ℕ) where
  busyQ : Bool
  q : BitVec w
  txnBitsQ : TxnBits
  deriving DecidableEq, Repr

def SrcRegs.reset (resetVal : BitVec w) : SrcRegs w := ⟨false, resetVal, ⟨false, false, false⟩⟩

/-- `busy`. -/
def SrcRegs.busy (s : SrcRegs w) (srcAck : Bool) : Bool := s.busyQ && !srcAck

/-- An edge of `clk_src_i` with what comes from the other side. -/
def SrcRegs.step (bitMask : BitVec w) (s : SrcRegs w) (e : SrcEdge w) (srcAck dstToSrc : Bool)
    (dstQs : BitVec w) : SrcRegs w where
  busyQ := if e.req then true else if srcAck then false else s.busyQ
  q := if e.req then e.wd &&& bitMask else if dstToSrc then dstQs else s.q
  txnBitsQ :=
    if e.req then ⟨e.we, e.re, e.regwen⟩
    else if dstToSrc then ⟨false, false, false⟩ else s.txnBitsQ

/-- A software access and its data. -/
abbrev Txn (w : ℕ) := TxnBits × BitVec w

/-- The access that starts at an edge of `clk_src_i`. -/
def SrcEdge.txn (bitMask : BitVec w) (e : SrcEdge w) : Txn w :=
  (⟨e.we, e.re, e.regwen⟩, e.wd &&& bitMask)

def SrcEdge.issued (bitMask : BitVec w) (e : SrcEdge w) : Option (Txn w) :=
  if e.req then some (e.txn bitMask) else none

def SrcRegs.txn (s : SrcRegs w) : Txn w := (s.txnBitsQ, s.q)

/-- `BusySrcReqChk_A`: no access starts while another is under way. -/
def SrcRegs.Spaced (s : SrcRegs w) (srcAck : Bool) (e : SrcEdge w) : Prop :=
  s.busy srcAck = true → e.req = false

instance (s : SrcRegs w) (srcAck : Bool) (e : SrcEdge w) : Decidable (s.Spaced srcAck e) :=
  inferInstanceAs (Decidable (s.busy srcAck = true → e.req = false))

/-! ### Registers that only software changes -/

namespace Passthru

/-- The registers with `DstWrReq = 0`. -/
structure State (w : ℕ) where
  src : SrcRegs w
  req : PulseSync.State
  ack : PulseSync.State
  deriving DecidableEq, Repr

/-- Register values under both resets. -/
def State.reset (resetVal : BitVec w) : State w := ⟨.reset resetVal, .reset, .reset⟩

/-- An edge of `clk_dst_i`, where the first flop of the request may be late. -/
structure DstEdge where
  late : Bool
  deriving DecidableEq, Repr

/-- The clock edges of an instant, and `dst_qs_i` at the one of `clk_src_i`. -/
abbrev Input (w : ℕ) := Instant (SrcEdge w × BitVec w) DstEdge

variable {resetVal bitMask : BitVec w} {s : State w} {i : Input w}

/-- `src_ack`. -/
def srcAck (s : State w) : Bool := PulseSync.dstPulse s.ack

/-- `dst_req`. -/
def dstReq (s : State w) : Bool := PulseSync.dstPulse s.req

def dstToSrc (s : State w) : Bool := s.src.busyQ && srcAck s

/-- One instant. -/
def step (bitMask : BitVec w) (s : State w) (i : Input w) : State w where
  src := match i.src with
    | some (e, dstQs) => s.src.step bitMask e (srcAck s) (dstToSrc s) dstQs
    | none => s.src
  req := PulseSync.step s.req ⟨i.src.map fun e => e.1.req, i.dst.map fun e => e.late⟩
  ack := PulseSync.step s.ack ⟨i.dst.map fun _ => dstReq s, i.src.map fun e => e.1.late⟩

def Spaced (s : State w) (i : Input w) : Prop := ∀ e ∈ i.src, s.src.Spaced (srcAck s) e.1

instance (s : State w) (i : Input w) : Decidable (Spaced s i) :=
  inferInstanceAs (Decidable (∀ e ∈ i.src, s.src.Spaced (srcAck s) e.1))

/-- The access that starts in an instant. -/
def issued (bitMask : BitVec w) (_ : State w) (i : Input w) : Option (Txn w) :=
  i.src.bind fun e => e.1.issued bitMask

/-- The access that the other side sees at an edge of its clock. -/
def delivered (s : State w) (i : Input w) : Option (Txn w) :=
  i.dst.bind fun _ => if dstReq s then some s.src.txn else none

/-- The way of an access to the other side and of its acknowledgement back. -/
def ring (s : State w) : List Bool := PulseSync.row s.req ++ PulseSync.row s.ack

/-- The last access, or its acknowledgement, has come past `k` of the six flops. -/
structure At (s : State w) (k : ℕ) : Prop where
  le : k ≤ 6
  level : s.ack.srcLevel = s.req.dstLevelQ
  ring : ring s = cells s.req.srcLevel k (6 - k)
  busy : s.src.busyQ = true ↔ k < 6

/-- The flops that move on in an instant. -/
def mask (i : Input w) : List Bool :=
  [i.dst.any fun e => !e.late, i.dst.isSome, i.dst.isSome,
    i.src.any fun e => !e.1.late, i.src.isSome, i.src.isSome]

/-- Where the last access is after an instant. -/
def next (k : ℕ) (i : Input w) : ℕ :=
  if i.src.any fun e => e.1.req then 0 else advance (mask i) k

theorem at_reset : At (.reset resetVal) 6 := ⟨le_rfl, rfl, rfl, by simp [State.reset, SrcRegs.reset]⟩

namespace At
variable {k : ℕ}

theorem cell (h : At s k) {j : ℕ} (hj : j < 6) :
    (Passthru.ring s).getD j false = if j < k then s.req.srcLevel else !s.req.srcLevel := by
  rw [h.ring]
  exact getD_cells s.req.srcLevel h.le hj

theorem dstReq_iff (h : At s k) : dstReq s = true ↔ k = 2 := by
  have hq : s.req.sync.q = _ := h.cell (j := 1) (by omega)
  have hlevel : s.req.dstLevelQ = _ := h.cell (j := 2) (by omega)
  rw [dstReq, PulseSync.dstPulse, PulseSync.dstLevel, hq, hlevel]
  split_ifs <;> simp <;> omega

theorem srcAck_iff (h : At s k) : srcAck s = true ↔ k = 5 := by
  have hq : s.ack.sync.q = _ := h.cell (j := 4) (by omega)
  have hlevel : s.ack.dstLevelQ = _ := h.cell (j := 5) (by omega)
  have hle := h.le
  rw [srcAck, PulseSync.dstPulse, PulseSync.dstLevel, hq, hlevel]
  split_ifs <;> simp <;> omega

theorem underway_iff (h : At s k) : PulseSync.underway s.req = true ↔ k < 3 := by
  have hlevel : s.req.dstLevelQ = _ := h.cell (j := 2) (by omega)
  rw [PulseSync.underway, hlevel]
  split_ifs <;> simp <;> omega

end At

/-- An instant moves the ring on. -/
theorem ring_step (bitMask : BitVec w) (s : State w) (i : Input w)
    (hlevel : s.ack.srcLevel = s.req.dstLevelQ) :
    ring (step bitMask s i) = shift (mask i) s.req.srcLevel (ring s) := by
  obtain ⟨src, dst⟩ := i
  simp only [ring, PulseSync.row, step, PulseSync.step, mask, List.cons_append, List.nil_append,
    shift, List.cons.injEq, and_true]
  refine ⟨?_, ?_, ?_, ?_, ?_, ?_⟩
  · cases dst with
    | none => rfl
    | some e => cases h : e.late <;> simp [Flop2Sync.sample, Flop2Sync.step, h]
  · cases dst <;> rfl
  · cases dst <;> rfl
  · cases src with
    | none => rfl
    | some e => cases h : e.1.late <;> simp [Flop2Sync.sample, Flop2Sync.step, h, hlevel]
  · cases src <;> rfl
  · cases src <;> rfl

theorem level_step (bitMask : BitVec w) (s : State w) (i : Input w)
    (hlevel : s.ack.srcLevel = s.req.dstLevelQ) :
    (step bitMask s i).ack.srcLevel = (step bitMask s i).req.dstLevelQ := by
  obtain ⟨src, dst⟩ := i
  cases dst with
  | none => exact hlevel
  | some e =>
      simp only [step, PulseSync.step, Option.map_some, dstReq, PulseSync.dstPulse, hlevel]
      simp

/-- An access starts only where the one before it ends. -/
theorem At.start {k : ℕ} (h : At s k) (hi : Spaced s i) {e : SrcEdge w × BitVec w}
    (hsrc : i.src = some e) (hreq : e.1.req = true) : 5 ≤ k ∧ advance (mask i) k = 6 := by
  have hle := h.le
  have hfree : ¬s.src.busy (srcAck s) = true := by
    intro hbusy
    rw [hi e hsrc hbusy] at hreq
    exact Bool.noConfusion hreq
  have h5 : 5 ≤ k := by
    by_contra hlt
    have hbusy := h.busy.2 (by omega)
    have hack : ¬srcAck s = true := fun hack => by
      have hk := h.srcAck_iff.1 hack
      omega
    exact hfree (by simp [SrcRegs.busy, hbusy, hack])
  refine ⟨h5, ?_⟩
  obtain rfl | rfl : k = 5 ∨ k = 6 := by omega
  · simp [advance, mask, hsrc]
  · rfl

/-- The register is busy until the acknowledgement is back. -/
theorem At.busy_step {k : ℕ} (h : At s k) (hnew : ¬i.src.any (fun e => e.1.req) = true) :
    (Passthru.step bitMask s i).src.busyQ = true ↔ advance (mask i) k < 6 := by
  have hle := h.le
  have hlast := advance_le (mask i) hle
  rw [show (mask i).length = 6 from rfl] at hlast
  have hbusyQ : (Passthru.step bitMask s i).src.busyQ =
      if i.src.isSome && srcAck s then false else s.src.busyQ := by
    cases hsrc : i.src with
    | none => simp [Passthru.step, hsrc]
    | some e =>
        have hreq : e.1.req = false := by simpa [hsrc] using hnew
        simp [Passthru.step, hsrc, SrcRegs.step, hreq]
  obtain rfl | hne : k = 5 ∨ k ≠ 5 := by omega
  · have hmove : advance (mask i) 5 = if i.src.isSome then 6 else 5 := rfl
    rw [hbusyQ, hmove, h.srcAck_iff.2 rfl]
    cases i.src with
    | none => simpa using h.busy
    | some e => simp
  · have hack : srcAck s = false := by simpa using mt h.srcAck_iff.1 hne
    have hsame : advance (mask i) k < 6 ↔ k < 6 := by
      obtain hcase | hcase := advance_cases (mask i) k <;> omega
    rw [hbusyQ, hack, Bool.and_false, hsame]
    exact h.busy

theorem At.step {k : ℕ} (h : At s k) (hi : Spaced s i) : At (step bitMask s i) (next k i) := by
  have hring := ring_step bitMask s i h.level
  have hshift := shift_cells (mask i) s.req.srcLevel h.le
  rw [show (mask i).length = 6 from rfl] at hshift
  rw [h.ring, hshift] at hring
  have hlevel := level_step bitMask s i h.level
  have hlast := advance_le (mask i) h.le
  by_cases hnew : i.src.any (fun e => e.1.req) = true
  · obtain ⟨e, hsrc, hreq⟩ := Option.any_eq_true _ _ |>.1 hnew
    obtain ⟨-, hend⟩ := h.start hi hsrc hreq
    have htoggle : (Passthru.step bitMask s i).req.srcLevel = !s.req.srcLevel := by
      simp [Passthru.step, PulseSync.step, hsrc, hreq]
    rw [next, if_pos hnew]
    refine ⟨by omega, hlevel, ?_, ?_⟩
    · rw [hring, htoggle, hend, Nat.sub_self, cells_zero_right, replicate_eq_cells]
    · simp [Passthru.step, hsrc, SrcRegs.step, hreq]
  · have hsame : (Passthru.step bitMask s i).req.srcLevel = s.req.srcLevel := by
      cases hsrc : i.src with
      | none => simp [Passthru.step, PulseSync.step, hsrc]
      | some e => simp_all [Passthru.step, PulseSync.step]
    rw [next, if_neg hnew]
    exact ⟨hlast, hlevel, by rw [hring, hsame], h.busy_step hnew⟩

/-! ### Every access is delivered once -/

/-- What was issued and is not delivered yet. -/
def held (s : State w) : List (Txn w) := if PulseSync.underway s.req then [s.src.txn] else []

/-- An access keeps its data until the acknowledgement is back. -/
theorem At.txn_step (bitMask : BitVec w) {k : ℕ} (h : At s k) (hk : k ≠ 5)
    (hnew : ¬i.src.any (fun e => e.1.req) = true) :
    (Passthru.step bitMask s i).src.txn = s.src.txn := by
  have hack : srcAck s = false := by simpa using mt h.srcAck_iff.1 hk
  cases hsrc : i.src with
  | none => simp [Passthru.step, hsrc]
  | some e =>
      have hreq : e.1.req = false := by simpa [hsrc] using hnew
      simp [Passthru.step, hsrc, SrcRegs.step, SrcRegs.txn, hreq, hack, dstToSrc]

theorem At.ledger_step {k : ℕ} (h : At s k) (hi : Spaced s i) :
    held s ++ (issued bitMask s i).toList =
      (delivered s i).toList ++ held (Passthru.step bitMask s i) := by
  have hheld : held s = if k < 3 then [s.src.txn] else [] := if_congr h.underway_iff rfl rfl
  have hheld' : held (Passthru.step bitMask s i) =
      if next k i < 3 then [(Passthru.step bitMask s i).src.txn] else [] :=
    if_congr (h.step hi).underway_iff rfl rfl
  have hdelivered : delivered s i = if k = 2 then i.dst.map fun _ => s.src.txn else none := by
    have hreq : dstReq s = decide (k = 2) := by
      rw [Bool.eq_iff_iff, h.dstReq_iff, decide_eq_true_iff]
    rw [delivered, hreq]
    by_cases hk : k = 2 <;> cases i.dst <;> simp [hk]
  rw [hheld, hheld', hdelivered]
  by_cases hnew : i.src.any (fun e => e.1.req) = true
  · obtain ⟨e, hsrc, hreq⟩ := Option.any_eq_true _ _ |>.1 hnew
    obtain ⟨h5, -⟩ := h.start hi hsrc hreq
    rw [next, if_pos hnew, if_neg (by omega), if_neg (by omega)]
    simp [issued, SrcEdge.issued, hsrc, hreq, Passthru.step, SrcRegs.step, SrcRegs.txn, SrcEdge.txn]
  · have hissued : issued bitMask s i = none := by
      cases hsrc : i.src with
      | none => simp [issued, hsrc]
      | some e => simp_all [issued, SrcEdge.issued]
    rw [next, if_neg hnew, hissued, Option.toList_none, List.append_nil]
    obtain hlt | rfl | hgt : k < 2 ∨ k = 2 ∨ 3 ≤ k := by omega
    · have htxn := h.txn_step bitMask (by omega) hnew
      have hnext : advance (mask i) k < 3 := by
        obtain hcase | hcase := advance_cases (mask i) k <;> omega
      rw [if_pos (by omega), if_pos hnext, if_neg (by omega), htxn]
      rfl
    · have htxn := h.txn_step bitMask (by omega) hnew
      have hmove : advance (mask i) 2 = if i.dst.isSome then 3 else 2 := rfl
      rw [htxn, hmove]
      cases i.dst <;> simp
    · have hnext : ¬advance (mask i) k < 3 := by
        obtain hcase | hcase := advance_cases (mask i) k <;> omega
      rw [if_neg (by omega), if_neg hnext, if_neg (by omega)]
      rfl

/-- In every run of spaced accesses the other side sees those that were issued, in order, each
once and with its data; at most one, which the register holds as long as it is busy, is still to
come. -/
theorem passthru_delivers_once {is : List (Input w)}
    (h : Allowed (step bitMask) Spaced (.reset resetVal) is) :
    ∃ rest, log (step bitMask) (issued bitMask) (.reset resetVal) is =
        log (step bitMask) delivered (.reset resetVal) is ++ rest ∧
      (rest = [] ∨ rest = [(run (step bitMask) (.reset resetVal) is).src.txn] ∧
        (run (step bitMask) (.reset resetVal) is).src.busyQ = true) := by
  have hstart : ∃ k, At (.reset resetVal) k := ⟨6, at_reset⟩
  have hledger := h.ledger (fun s => ∃ k, At s k) held
    (fun s i hi ⟨k, hat⟩ => ⟨⟨next k i, hat.step hi⟩, hat.ledger_step hi⟩) hstart
  obtain ⟨k, hat⟩ := h.invariant (fun s => ∃ k, At s k)
    (fun s i hi ⟨k, hat⟩ => ⟨next k i, hat.step hi⟩) hstart
  refine ⟨_, hledger, ?_⟩
  by_cases hk : k < 3
  · exact .inr ⟨if_pos (hat.underway_iff.2 hk), hat.busy.2 (by omega)⟩
  · exact .inl (if_neg fun hunderway => hk (hat.underway_iff.1 hunderway))

/-- Software writes 2 to a register of two bits, and the other clock ticks four times. -/
theorem passthru_delivers_once_run :
    ∃ rest : List (Txn 2), [(TxnBits.mk true false false, (2 : BitVec 2))] =
        [(TxnBits.mk true false false, (2 : BitVec 2))] ++ rest ∧
      (rest = [] ∨ rest = [(TxnBits.mk true false false, (2 : BitVec 2))] ∧ true = true) :=
  @passthru_delivers_once 2 0 3 [⟨some (⟨false, true, false, 2, false⟩, 0), none⟩,
    ⟨none, some ⟨true⟩⟩, ⟨none, some ⟨false⟩⟩, ⟨none, some ⟨false⟩⟩, ⟨none, some ⟨false⟩⟩] (by decide)

/-! ### Every access is acknowledged -/

/-- The clock of the side ticks, and the first flop behind the other side is not late. -/
def OnTime : Side → Input w → Prop
  | .src, i => ∃ e ∈ i.src, e.1.late = false
  | .dst, i => ∃ e ∈ i.dst, e.late = false

instance : (side : Side) → (i : Input w) → Decidable (OnTime side i)
  | .src, i => inferInstanceAs (Decidable (∃ e ∈ i.src, e.1.late = false))
  | .dst, i => inferInstanceAs (Decidable (∃ e ∈ i.dst, e.late = false))

/-- The software side sees the acknowledgement. -/
def acked (s : State w) (i : Input w) : Bool := i.src.isSome && srcAck s

/-- How many of the flops the last access has come past. -/
def travelled (s : State w) : ℕ := (ring s).count s.req.srcLevel

theorem At.travelled_eq {k : ℕ} (h : At s k) : travelled s = k := by
  rw [travelled, h.ring, count_cells]

/-- The side whose clock takes on an access that has come past `k` flops. -/
def waits (k : ℕ) : Side := if k < 3 then .dst else .src

/-- No access starts before the acknowledgement is seen. -/
theorem At.next_of_busy {k : ℕ} (h : At s k) (hk : k < 6) (hi : Spaced s i)
    (hacked : acked s i = false) : next k i = advance (mask i) k ∧ next k i < 6 := by
  have hnew : ¬i.src.any (fun e => e.1.req) = true := by
    intro hnew
    obtain ⟨e, hsrc, hreq⟩ := Option.any_eq_true _ _ |>.1 hnew
    obtain ⟨h5, -⟩ := h.start hi hsrc hreq
    have hack := h.srcAck_iff.2 (by omega)
    simp [acked, hsrc, hack] at hacked
  rw [next, if_neg hnew]
  refine ⟨rfl, ?_⟩
  obtain rfl | hne : k = 5 ∨ k ≠ 5 := by omega
  · rw [acked, h.srcAck_iff.2 rfl, Bool.and_true] at hacked
    have hstay : advance (mask i) 5 = 5 := by simp [advance, mask, hacked]
    omega
  · obtain hcase | hcase := advance_cases (mask i) k <;> omega

theorem At.next_of_onTime {k : ℕ} (h : At s k) (hk : k < 6) (hi : Spaced s i)
    (hacked : acked s i = false) (ht : OnTime (waits k) i) : next k i = k + 1 := by
  rw [waits] at ht
  rw [(h.next_of_busy hk hi hacked).1]
  obtain hlt | hge : k < 3 ∨ 3 ≤ k := by omega
  · rw [if_pos hlt] at ht
    obtain ⟨e, hdst, hlate⟩ := ht
    rw [Option.mem_def] at hdst
    obtain rfl | rfl | rfl : k = 0 ∨ k = 1 ∨ k = 2 := by omega
    all_goals simp [advance, mask, hdst, hlate]
  · rw [if_neg (by omega)] at ht
    obtain ⟨e, hsrc, hlate⟩ := ht
    rw [Option.mem_def] at hsrc
    obtain rfl | rfl | rfl : k = 3 ∨ k = 4 ∨ k = 5 := by omega
    all_goals simp [advance, mask, hsrc, hlate]

/-- A round of both clocks takes an access on until it is acknowledged. -/
theorem settles : Settles (step bitMask) (fun s i => Spaced s i ∧ acked s i = false) OnTime
    (fun s => ∃ k < 6, At s k) (fun s => 6 - travelled s) (fun s => waits (travelled s)) := by
  refine Settles.of_position ?_ ?_ ?_ ?_
  · rintro s i ⟨hi, hacked⟩ ⟨k, hk, hat⟩
    exact ⟨next k i, (hat.next_of_busy hk hi hacked).2, hat.step hi⟩
  · rintro s ⟨k, hk, hat⟩
    rwa [hat.travelled_eq]
  · rintro s i ⟨hi, hacked⟩ ⟨k, hk, hat⟩
    rw [(hat.step hi).travelled_eq, hat.travelled_eq, (hat.next_of_busy hk hi hacked).1]
    exact advance_cases (mask i) k
  · rintro s i ⟨hi, hacked⟩ ⟨k, hk, hat⟩ ht
    rw [hat.travelled_eq] at ht
    rw [(hat.step hi).travelled_eq, hat.travelled_eq]
    exact hat.next_of_onTime hk hi hacked ht

/-- A busy register is acknowledged within six rounds of the two clocks. -/
theorem acked_in_time {js : List (Input w)} {rounds : List (List (Input w))}
    (h : Allowed (step bitMask) Spaced (.reset resetVal) (js ++ rounds.flatten))
    (hbusy : (run (step bitMask) (.reset resetVal) js).src.busyQ = true)
    (hboth : ∀ round ∈ rounds, Both OnTime round) (hlen : 6 ≤ rounds.length) :
    true ∈ outs (step bitMask) acked (run (step bitMask) (.reset resetVal) js) rounds.flatten := by
  rw [allowed_append] at h
  obtain ⟨k, hat⟩ := h.1.invariant (fun s => ∃ k, At s k)
    (fun s i hi ⟨k, hat⟩ => ⟨next k i, hat.step hi⟩) ⟨6, at_reset⟩
  have hk := hat.busy.1 hbusy
  by_contra hnone
  have hall := h.2.and (allowed_of_outs hnone)
  have hend := settles.settled hall ⟨k, hk, hat⟩ hboth (by omega)
  obtain ⟨n, hn, hat'⟩ := hall.invariant _ settles.keeps ⟨k, hk, hat⟩
  rw [hat'.travelled_eq] at hend
  omega

/-- Software writes 1, and both clocks tick at once six times. -/
theorem acked_in_time_run : true ∈ outs (step 3) acked
    (run (step 3) (.reset 0) [⟨some (⟨false, true, false, (1 : BitVec 2), false⟩, 0), none⟩])
    (List.replicate 6 [⟨some (⟨false, false, false, 0, false⟩, 0), some ⟨false⟩⟩]).flatten :=
  acked_in_time (by decide) (by decide) (by decide) (by decide)

end Passthru

end UsbDev.RegCdc
