import UsbDev.AonWake
import UsbDev.BusResponses
import UsbDev.RegCdc

/-!
# From a bus write to the wake-up detector

The register `wake_control` as a whole: the bus with its check of the requests, the
crossing to the always-on clock, and the detector that the fields of the register
command. Since the bus does not accept a write while the register is busy, each
accepted write arrives, once and in order, however the two clocks run.
-/
namespace UsbDev.WakeControl

open Clocked TwoClocks RegCdc

/-! ### The connected modules -/

/-- The inputs at an edge of `clk_i`; the first flop of the acknowledgement may be late. -/
structure BusEdge where
  tl : Tlul.H2D
  regRdata : BitVec 32
  wakeEventsBusy : Bool
  usb : Option PacketRam.Req
  late : Bool
  deriving DecidableEq, Repr

/-- The inputs at an edge of `clk_aon_i`; the first flop of the request may be late. -/
structure AonEdge where
  usbDp : Bool
  usbDn : Bool
  usbSense : Bool
  usbdevPullupEn : AonWake.Pullups
  late : Bool
  deriving DecidableEq, Repr

abbrev Input := Instant BusEdge AonEdge

structure State where
  top : RegTop.State
  cdc : Passthru.State 2
  wake : AonWake.State

/-- Register values under both resets. -/
def State.reset (req : AdapterSram.Req) (mask : BitVec 4) (rsp : AdapterSram.Rsp)
    (mem : BitVec 9 → BitVec 32) (sramRdata : BitVec 32) : State :=
  ⟨.reset req mask rsp mem sramRdata, .reset 0, .reset⟩

/-- The bus sees the register as busy by `wake_control_busy`. -/
def topInput (s : State) (e : BusEdge) : RegTop.Input :=
  ⟨e.tl, e.regRdata, s.cdc.src.busyQ, e.wakeEventsBusy, e.usb⟩

/-- `wake_control_we`. -/
def wakeControlWe (s : State) (e : BusEdge) : Bool :=
  RegTop.writeEnable s.top (topInput s e) RegTop.wakeControl

/-- The ports of `u_wake_control_cdc` on the side of software; the two fields are not read back. -/
def cdcEdge (s : State) (e : BusEdge) : SrcEdge 2 × BitVec 2 :=
  (⟨false, wakeControlWe s e, false,
    (RegTop.regTl s.top (topInput s e)).aData.extractLsb' 0 2, e.late⟩, 0)

/-- `aon_wake_control_we`. -/
def aonWakeControlWe (s : State) : Bool := s.cdc.src.txnBitsQ.we && Passthru.dstReq s.cdc

/-- `aon_wake_control_wdata`. -/
def aonWakeControlWdata (s : State) : BitVec 2 := s.cdc.src.q

/-- `usb_aon_suspend_req_o` and `usb_aon_wake_ack_o` command the detector. -/
def wakeInput (s : State) (e : AonEdge) : AonWake.Input where
  usbDp := e.usbDp
  usbDn := e.usbDn
  usbSense := e.usbSense
  usbdevPullupEn := e.usbdevPullupEn
  wakeAckAon := aonWakeControlWe s && (aonWakeControlWdata s).getLsbD 1
  suspendReqAon := aonWakeControlWe s && (aonWakeControlWdata s).getLsbD 0

def cdcInput (s : State) (i : Input) : Passthru.Input 2 :=
  ⟨i.src.map (cdcEdge s), i.dst.map fun e => ⟨e.late⟩⟩

/-- One instant. -/
def step (s : State) (i : Input) : State where
  top := match i.src with
    | some e => RegTop.step s.top (topInput s e)
    | none => s.top
  cdc := Passthru.step 3 s.cdc (cdcInput s i)
  wake := match i.dst with
    | some e => AonWake.step s.wake (wakeInput s e)
    | none => s.wake

/-- The write to `wake_control` that the bus accepts and does not refuse. -/
def written (s : State) (i : Input) : Option (BitVec 2) :=
  i.src.bind fun e =>
    if RegTop.acceptReq s.top (topInput s e) && RegTop.regSteer e.tl && e.tl.isPut &&
        !RegTop.refused e.tl && RegTop.regHit (topInput s e) RegTop.wakeControl then
      some (e.tl.aData.extractLsb' 0 2)
    else none

/-- The write that the detector sees. -/
def seen (s : State) (i : Input) : Option (BitVec 2) :=
  i.dst.bind fun _ => if aonWakeControlWe s then some (aonWakeControlWdata s) else none

variable {s : State} {i : Input}

/-! ### The bus and the crossing -/

theorem wakeControlWe_eq (s : State) (e : BusEdge) : wakeControlWe s e =
    (RegTop.acceptReq s.top (topInput s e) && RegTop.regSteer e.tl && e.tl.isPut &&
      !RegTop.refused e.tl && RegTop.regHit (topInput s e) RegTop.wakeControl) := by
  rw [wakeControlWe, RegTop.writeEnable_eq,
    show RegTop.readOnly.contains RegTop.wakeControl = false from rfl]
  exact Bool.and_comm _ _

/-- A busy register is not written. -/
theorem spaced (s : State) (i : Input) : Passthru.Spaced s.cdc (cdcInput s i) := by
  intro e he hbusy
  obtain ⟨b, -, rfl⟩ := Option.map_eq_some_iff.1 he
  rw [SrcRegs.busy, Bool.and_eq_true] at hbusy
  rw [SrcEdge.req, cdcEdge, Bool.or_false, Bool.eq_false_iff]
  intro hwe
  rw [wakeControlWe_eq, Bool.and_eq_true, Bool.and_eq_true, Bool.and_eq_true,
    Bool.and_eq_true] at hwe
  obtain ⟨⟨⟨⟨hacc, hsteer⟩, -⟩, -⟩, hhit⟩ := hwe
  have hreg : RegTop.regBusy (topInput s b) = false := by
    rw [RegTop.acceptReq, RegTop.aReady, show (topInput s b).tl = b.tl from rfl, hsteer, if_pos rfl,
      AdapterReg.aReady] at hacc
    simp_all
  have hvalid : b.tl.aValid = true := by
    rw [RegTop.acceptReq, Bool.and_eq_true] at hacc
    exact hacc.1
  rw [RegTop.regHit] at hhit
  rw [RegTop.regBusy, if_pos hhit, show (topInput s b).tl = b.tl from rfl, hvalid,
    Bool.and_true] at hreg
  exact Bool.false_ne_true (hreg.symm.trans hbusy.1)

/-- What the bus accepts starts an access of the crossing. -/
theorem issued_eq (s : State) (i : Input) : Passthru.issued 3 s.cdc (cdcInput s i) =
    (written s i).map fun d => (⟨true, false, false⟩, d) := by
  obtain ⟨src, dst⟩ := i
  cases src with
  | none => rfl
  | some e =>
      have hmask : ∀ d : BitVec 2, d &&& 3 = d := by decide
      rw [Passthru.issued, cdcInput, Option.map_some, Option.bind_some, SrcEdge.issued, SrcEdge.req,
        cdcEdge,
        Bool.or_false, wakeControlWe_eq, written, Option.bind_some, SrcEdge.txn, hmask]
      cases hcond : (RegTop.acceptReq s.top (topInput s e) && RegTop.regSteer e.tl && e.tl.isPut &&
          !RegTop.refused e.tl && RegTop.regHit (topInput s e) RegTop.wakeControl) with
      | false => rfl
      | true =>
          rw [Bool.and_eq_true, Bool.and_eq_true, Bool.and_eq_true, Bool.and_eq_true] at hcond
          obtain ⟨⟨⟨⟨hacc, hsteer⟩, -⟩, -⟩, -⟩ := hcond
          rw [RegTop.regTl_of_accept hacc hsteer]
          rfl

/-- The crossing after `k` of its six flops, with a write on its way. -/
structure At (s : State) (k : ℕ) : Prop where
  cdc : Passthru.At s.cdc k
  we : k < 3 → s.cdc.src.txnBitsQ.we = true

/-- Where the last write is after an instant. -/
def next (s : State) (k : ℕ) (i : Input) : ℕ := Passthru.next k (cdcInput s i)

theorem at_reset (req : AdapterSram.Req) (mask : BitVec 4) (rsp : AdapterSram.Rsp)
    (mem : BitVec 9 → BitVec 32) (sramRdata : BitVec 32) :
    At (.reset req mask rsp mem sramRdata) 6 :=
  ⟨Passthru.at_reset, fun h => absurd h (by decide)⟩

/-- Only a write starts an access. -/
theorem any_req (s : State) (i : Input) :
    (cdcInput s i).src.any (fun e => e.1.req) = (written s i).isSome := by
  have hissued : (Passthru.issued 3 s.cdc (cdcInput s i)).isSome =
      (cdcInput s i).src.any fun e => e.1.req := by
    rw [Passthru.issued]
    cases (cdcInput s i).src with
    | none => rfl
    | some e => cases hreq : e.1.req <;> simp [SrcEdge.issued, hreq]
  rw [← hissued, issued_eq, Option.isSome_map]

/-- An access that starts carries the write. -/
theorem txn_of_written {d : BitVec 2} (h : written s i = some d) :
    (step s i).cdc.src.txn = (⟨true, false, false⟩, d) := by
  have hissued := issued_eq s i
  rw [h, Option.map_some, Passthru.issued, Option.bind_eq_some_iff] at hissued
  obtain ⟨e, hsrc, he⟩ := hissued
  cases hreq : e.1.req with
  | false => simp [SrcEdge.issued, hreq] at he
  | true =>
      rw [SrcEdge.issued, hreq, if_pos rfl, Option.some.injEq] at he
      rw [← he, step, Passthru.step, hsrc]
      simp [SrcRegs.step, SrcRegs.txn, SrcEdge.txn, hreq]

theorem At.step {k : ℕ} (h : At s k) : At (WakeControl.step s i) (next s k i) := by
  refine ⟨h.cdc.step (spaced s i), fun hlt => ?_⟩
  cases hw : written s i with
  | some d =>
      have htxn := txn_of_written hw
      exact congrArg (fun t : Txn 2 => t.1.we) htxn
  | none =>
      have hnew : ¬(cdcInput s i).src.any (fun e => e.1.req) = true := by
        rw [any_req, hw]
        simp
      rw [next, Passthru.next, if_neg hnew] at hlt
      have hk : k < 3 := by
        obtain hcase | hcase := advance_cases (Passthru.mask (cdcInput s i)) k <;> omega
      have htxn := h.cdc.txn_step 3 (by omega) hnew
      exact (congrArg (fun t : Txn 2 => t.1.we) htxn).trans (h.we hk)

/-! ### Every write arrives once -/

/-- What was written and the detector has not seen. -/
def held (s : State) : List (BitVec 2) := (Passthru.held s.cdc).map Prod.snd

theorem At.seen_eq {k : ℕ} (h : At s k) :
    seen s i = (Passthru.delivered s.cdc (cdcInput s i)).map Prod.snd := by
  rw [seen, Passthru.delivered, cdcInput, aonWakeControlWe]
  cases i.dst with
  | none => rfl
  | some e =>
      cases hreq : Passthru.dstReq s.cdc with
      | false => simp
      | true =>
          have hk := h.cdc.dstReq_iff.1 hreq
          simp [h.we (by omega), aonWakeControlWdata, SrcRegs.txn]

theorem At.ledger_step {k : ℕ} (h : At s k) :
    held s ++ (written s i).toList = (seen s i).toList ++ held (WakeControl.step s i) := by
  have hcdc : Passthru.held s.cdc ++ (Passthru.issued 3 s.cdc (cdcInput s i)).toList =
      (Passthru.delivered s.cdc (cdcInput s i)).toList ++
        Passthru.held (WakeControl.step s i).cdc := h.cdc.ledger_step (spaced s i)
  have hledger := congrArg (List.map Prod.snd) hcdc
  have hwritten : (written s i).toList =
      (Passthru.issued 3 s.cdc (cdcInput s i)).toList.map Prod.snd := by
    rw [issued_eq]
    cases written s i <;> rfl
  rw [List.map_append, List.map_append, ← hwritten, ← Option.toList_map, ← h.seen_eq] at hledger
  exact hledger

theorem At.held_eq {k : ℕ} (h : At s k) :
    held s = if k < 3 then [aonWakeControlWdata s] else [] := by
  rw [held, Passthru.held, apply_ite (List.map Prod.snd)]
  exact if_congr h.cdc.underway_iff rfl rfl

theorem allowed (s : State) (is : List Input) : Allowed step (fun _ _ => True) s is :=
  allowed_of_forall step s fun _ _ => trivial

/-- What is written is seen or held. -/
theorem At.ledger_run {k : ℕ} (h : At s k) (is : List Input) :
    held s ++ log WakeControl.step written s is =
      log WakeControl.step seen s is ++ held (run WakeControl.step s is) :=
  (allowed s is).ledger (fun s => ∃ k, At s k) held
    (fun _ _ _ ⟨_, hat⟩ => ⟨⟨_, hat.step⟩, hat.ledger_step⟩) ⟨k, h⟩

/-- What the detector does with a write: it starts on a request to suspend, and ends on an
acknowledgement. -/
def commanded (active : Bool) (wdata : BitVec 2) : Bool :=
  if active then !wdata.getLsbD 1 else wdata.getLsbD 0

/-- The detector is active as the writes that it has seen say. -/
theorem active_step (s : State) (i : Input) : (step s i).wake.wakeDetectActive =
    (seen s i).toList.foldl commanded s.wake.wakeDetectActive := by
  rw [step, seen]
  cases i.dst with
  | none => rfl
  | some e =>
      simp only [Option.bind_some, AonWake.step, AonWake.wakeDetectActiveD, wakeInput]
      cases aonWakeControlWe s <;> cases s.wake.wakeDetectActive <;> simp [commanded]

section
variable {req : AdapterSram.Req} {mask : BitVec 4} {rsp : AdapterSram.Rsp}
  {mem : BitVec 9 → BitVec 32} {sramRdata : BitVec 32}

theorem at_run (is : List Input) : ∃ k, At (run step (.reset req mask rsp mem sramRdata) is) k :=
  (allowed (.reset req mask rsp mem sramRdata) is).invariant (fun s => ∃ k, At s k)
    (fun _ _ _ ⟨_, hat⟩ => ⟨_, hat.step⟩) ⟨6, at_reset req mask rsp mem sramRdata⟩

/-- In every interleaving of the two clocks, whatever the host, the USB side and the pins do, the
detector sees the accepted writes of `wake_control` in order and each once, except that the last may
still be on its way; and whether it is active follows from those it has seen. -/
theorem writes_arrive (is : List Input) :
    ∃ rest, log step written (.reset req mask rsp mem sramRdata) is =
        log step seen (.reset req mask rsp mem sramRdata) is ++ rest ∧ rest.length ≤ 1 ∧
      (run step (.reset req mask rsp mem sramRdata) is).wake.wakeDetectActive =
        (log step seen (.reset req mask rsp mem sramRdata) is).foldl commanded false := by
  have hledger := (at_reset req mask rsp mem sramRdata).ledger_run is
  have hactive := (allowed (.reset req mask rsp mem sramRdata) is).foldl
    (fun s => s.wake.wakeDetectActive) (fun _ => True)
    (fun s i _ _ => ⟨trivial, active_step s i⟩) trivial
  obtain ⟨k, hat⟩ : ∃ k, At (run step (.reset req mask rsp mem sramRdata) is) k := at_run is
  refine ⟨_, hledger, ?_, hactive⟩
  rw [hat.held_eq]
  split_ifs <;> simp

/-! ### And in time -/

/-- The clock of the side ticks, and the first flop of the request is not late. -/
def OnTime : Side → Input → Prop
  | .src, i => i.src.isSome
  | .dst, i => ∃ e ∈ i.dst, e.late = false

instance : (side : Side) → (i : Input) → Decidable (OnTime side i)
  | .src, i => inferInstanceAs (Decidable (i.src.isSome = true))
  | .dst, i => inferInstanceAs (Decidable (∃ e ∈ i.dst, e.late = false))

/-- How far the last write has come. -/
def travelled (s : State) : ℕ := Passthru.travelled s.cdc

theorem At.travelled_eq {k : ℕ} (h : At s k) : travelled s = k := h.cdc.travelled_eq

/-- A write that is on its way excludes another one. -/
theorem At.next_eq {k : ℕ} (h : At s k) (hk : k < 3) :
    next s k i = advance (Passthru.mask (cdcInput s i)) k := by
  rw [next, Passthru.next, if_neg]
  intro hnew
  obtain ⟨e, hsrc, hreq⟩ := Option.any_eq_true _ _ |>.1 hnew
  obtain ⟨h5, -⟩ := h.cdc.start (spaced s i) hsrc hreq
  omega

theorem At.seen_of_two (h : At s 2) (hseen : seen s i = none) : i.dst = none := by
  rw [seen, aonWakeControlWe, h.we (by omega), h.cdc.dstReq_iff.2 rfl] at hseen
  cases hdst : i.dst with
  | none => rfl
  | some e => simp [hdst] at hseen

theorem At.next_lt {k : ℕ} (h : At s k) (hk : k < 3) (hseen : seen s i = none) :
    next s k i < 3 := by
  rw [h.next_eq hk]
  obtain rfl | hne : k = 2 ∨ k ≠ 2 := by omega
  · have hdst := h.seen_of_two hseen
    simp [advance, Passthru.mask, cdcInput, hdst]
  · obtain hcase | hcase := advance_cases (Passthru.mask (cdcInput s i)) k <;> omega

/-- An edge of the always-on clock takes a write on. -/
theorem settles : Settles step (fun s i => seen s i = none) OnTime (fun s => ∃ k < 3, At s k)
    (fun s => 3 - travelled s) (fun _ => .dst) := by
  refine @Settles.of_position _ _ _ _ _ _ _ _ (fun _ => .dst) ?_ ?_ ?_ ?_
  · rintro s i hseen ⟨k, hk, hat⟩
    exact ⟨next s k i, hat.next_lt hk hseen, hat.step⟩
  · rintro s ⟨k, hk, hat⟩
    rwa [hat.travelled_eq]
  · rintro s i - ⟨k, hk, hat⟩
    rw [hat.step.travelled_eq, hat.travelled_eq, hat.next_eq hk]
    exact advance_cases _ k
  · rintro s i - ⟨k, hk, hat⟩ ⟨e, hdst, hlate⟩
    rw [hat.step.travelled_eq, hat.travelled_eq, hat.next_eq hk]
    rw [Option.mem_def] at hdst
    obtain rfl | rfl | rfl : k = 0 ∨ k = 1 ∨ k = 2 := by omega
    all_goals simp [advance, Passthru.mask, cdcInput, hdst, hlate]

/-- A write that is on its way is seen within three rounds. -/
theorem At.seen_of_rounds {k : ℕ} (h : At s k) (hk : k < 3) {rounds : List (List Input)}
    (hboth : ∀ round ∈ rounds, Both OnTime round) (hlen : 3 ≤ rounds.length) :
    log WakeControl.step seen s rounds.flatten ≠ [] := by
  intro hnone
  have hwaits := allowed_of_log hnone
  have hend := settles.settled hwaits ⟨k, hk, h⟩ hboth (by omega)
  obtain ⟨n, hn, hat⟩ := hwaits.invariant _ settles.keeps ⟨k, hk, h⟩
  rw [hat.travelled_eq] at hend
  omega

/-- A write that is accepted is seen by the detector within three rounds of the two clocks. -/
theorem writes_in_time {is : List Input} {rounds : List (List Input)}
    (hboth : ∀ round ∈ rounds, Both OnTime round) (hlen : 3 ≤ rounds.length) :
    log step written (.reset req mask rsp mem sramRdata) is <+:
      log step seen (.reset req mask rsp mem sramRdata) (is ++ rounds.flatten) := by
  have hledger : log step written (.reset req mask rsp mem sramRdata) is = _ :=
    (at_reset req mask rsp mem sramRdata).ledger_run is
  obtain ⟨k, hat⟩ : ∃ k, At (run step (.reset req mask rsp mem sramRdata) is) k := at_run is
  rw [log_append, hledger, hat.held_eq]
  refine (List.prefix_append_right_inj _).2 ?_
  split_ifs with hk
  · have hrest := hat.ledger_run rounds.flatten
    obtain ⟨d, ds, hlog⟩ := List.exists_cons_of_ne_nil (hat.seen_of_rounds hk hboth hlen)
    rw [hat.held_eq, if_pos hk, hlog] at hrest
    have hhead : aonWakeControlWdata (run step (.reset req mask rsp mem sramRdata) is) = d :=
      (List.cons.inj hrest).1
    rw [hlog, hhead]
    exact List.prefix_append [d] ds
  · exact List.nil_prefix

/-- Software asks for suspension, and both clocks tick three times. -/
theorem writes_in_time_run :
    log step written (.reset .zero 0 .zero (fun _ => 0) 0)
        [⟨some ⟨RegTop.hostReq Tlul.putFullData 0x90 1, 0, false, none, false⟩, none⟩] <+:
      log step seen (.reset .zero 0 .zero (fun _ => 0) 0)
        ([⟨some ⟨RegTop.hostReq Tlul.putFullData 0x90 1, 0, false, none, false⟩, none⟩] ++
          (List.replicate 3 [⟨some ⟨RegTop.hostReq Tlul.get 0x90 1, 0, false, none, false⟩,
            some ⟨true, false, true, .off, false⟩⟩]).flatten) :=
  writes_in_time (by decide) le_rfl

end

end UsbDev.WakeControl
