import UsbDev.OutTransaction
import Mathlib.Algebra.Order.Group.Multiset

/-!
# Ownership of packet buffers

A buffer id is in software's hands, waits in one of the available FIFOs, or is
named by an entry of the received buffer FIFO. The ledger adds to the device
what software owns and the histories of both sides. Since a buffer leaves its
available FIFO one cycle after its packet was posted, the ids that still wait
are the queue without the head that is about to leave.
-/
namespace UsbDev.Device

open Clocked UsbIf
open OutPe (XactState)

variable {N : ℕ} [NeZero N]

/-- The ids of an available FIFO whose packets have not been posted. -/
def waiting (s : State N) (setup : Bool) : List (BitVec 5) :=
  if avRready s setup then (avQueue s setup).tail else avQueue s setup

/-- The ids that entries of the received buffer FIFO name. -/
def received (s : State N) : List (BitVec 5) := s.rxFifo.toList.map (·.buffer)

/-- The id that software reads from the received buffer FIFO in this cycle. -/
def returned (s : State N) (i : Input N) : Option (BitVec 5) :=
  (s.rxFifo.popped (rxFifoIn s i)).map (·.buffer)

/-- The id of the packet posted in this cycle, if its kind is `setup`. -/
def postedId (s : State N) (i : Input N) (setup : Bool) : Option (BitVec 5) :=
  if rxWvalid s i && currentSetup s.out == setup then some (rxWdata s i).buffer else none

/-- The device, the ids that software owns, and what each side has done so far. -/
structure Ledger (N : ℕ) where
  dev : State N
  owned : Multiset (BitVec 5)
  accepted : Bool → List (BitVec 5)
  posted : List (RxEntry N)

namespace Ledger

/-- One cycle: software loses the ids that a FIFO accepts and regains the one it reads. -/
def step (l : Ledger N) (i : Input N) : Ledger N where
  dev := Device.step l.dev i
  owned := l.owned - ((avAccept l.dev i true).toList + (avAccept l.dev i false).toList) +
    (returned l.dev i).toList
  accepted := fun setup => l.accepted setup ++ (avAccept l.dev i setup).toList
  posted := l.posted ++ (rxPush l.dev i).toList

/-- Software hands over only ids that it owns and resets no FIFO; the receiver strobes no
byte in the cycle that ends a packet. -/
structure Allowed (l : Ledger N) (i : Input N) : Prop where
  owns : (i.sw.avsetupbuffer.toList + i.sw.avoutbuffer.toList : Multiset (BitVec 5)) ≤ l.owned
  noFifoReset : NoFifoReset i
  strobe_end : i.rx.dataPut = true → i.rx.pktEnd = false

/-- The ledger out of reset, with the ids `ids` in software's hands. -/
def reset (setup₀ : Fin 4 → BitVec 5) (out₀ : Fin 8 → BitVec 5) (rx₀ : Fin 8 → RxEntry N)
    (mem₀ : BitVec 9 → BitVec 32) (rdata₀ : BitVec 32) (ids : Multiset (BitVec 5)) : Ledger N where
  dev := State.reset setup₀ out₀ rx₀ mem₀ rdata₀
  owned := ids
  accepted := fun _ => []
  posted := []

end Ledger

/-! ### One cycle -/

omit [NeZero N] in
/-- A FIFO accepts what software writes, or nothing. -/
theorem avAccept_sublist (s : State N) (i : Input N) :
    (avAccept s i true).toList.Sublist i.sw.avsetupbuffer.toList ∧
      (avAccept s i false).toList.Sublist i.sw.avoutbuffer.toList := by
  constructor
  · cases hb : i.sw.avsetupbuffer <;> cases hw : s.avsetup.wready <;>
      simp [avAccept, SyncFifo.State.accepted, SyncFifo.State.incrWptr, avsetupIn, hb, hw]
  · cases hb : i.sw.avoutbuffer <;> cases hw : s.avout.wready <;>
      simp [avAccept, SyncFifo.State.accepted, SyncFifo.State.incrWptr, avoutIn, hb, hw]

omit [NeZero N] in
theorem avAccept_le (s : State N) (i : Input N) :
    ((avAccept s i true).toList + (avAccept s i false).toList : Multiset (BitVec 5)) ≤
      (i.sw.avsetupbuffer.toList + i.sw.avoutbuffer.toList : Multiset (BitVec 5)) :=
  add_le_add (Multiset.coe_le.mpr (avAccept_sublist s i).1.subperm)
    (Multiset.coe_le.mpr (avAccept_sublist s i).2.subperm)

/-- An acknowledged packet takes the head of the FIFO of its kind. -/
theorem avQueue_of_acked {s : State N} {i : Input N} (h : rxWvalid s i = true) :
    (avQueue s (currentSetup s.out)).head? = some (rxWdata s i).buffer := by
  have hfull := (OutPe.acked_cases h).2.2
  have hv : avRvalid s.out (outInput s i) = true := by
    have hf : outEpFull s.out (outInput s i) s.out.pe.outEpCurrent = false := hfull
    simp only [outEpFull, allOutBlocked, Bool.or_eq_false_iff] at hf
    simpa using hf.1.2
  rw [avRvalid_iff] at hv
  obtain ⟨b, rest, hq⟩ := List.exists_cons_of_ne_nil hv
  have hb : (avQueue s (currentSetup s.out)).head? = some b := by simp [hq]
  have hdata : (rxWdata s i).buffer = b := avRdata_of_head s i hb
  rw [hb, hdata]

/-- A FIFO that is asked for its head has one, and no packet is being accepted. -/
def Leaving (s : State N) : Prop :=
  ∀ setup, avRready s setup = true → phase s = .idle ∧ avQueue s setup ≠ []

/-- The waiting ids of a kind: those accepted join at the end, the one posted leaves in
front. -/
theorem waiting_step {s : State N} {i : Input N} (hf : NoFifoReset i) (hl : Leaving s)
    (setup : Bool) : waiting s setup ++ (avAccept s i setup).toList =
      (postedId s i setup).toList ++ waiting (step s i) setup := by
  have hq := avQueue_step s hf setup
  have hnext : waiting (step s i) setup =
      if rxWvalid s i && (currentSetup s.out == setup) then (avQueue (step s i) setup).tail
      else avQueue (step s i) setup := by
    rw [waiting, avRready_step]
  rw [hnext]
  cases hr : avRready s setup with
  | true =>
      obtain ⟨hidle, hne⟩ := hl setup hr
      have hquiet : rxWvalid s i = false := rxWvalid_eq_false i (by simp [hidle])
      obtain ⟨b, rest, hbr⟩ := List.exists_cons_of_ne_nil hne
      have hpop := avPop_of_head i hr (b := b) (by simp [hbr])
      rw [hpop, hbr] at hq
      simp only [Option.toList_some, List.cons_append, List.nil_append, List.cons.injEq,
        true_and] at hq
      simp [hquiet, postedId, waiting, hr, hbr, hq]
  | false =>
      rw [avPop_eq_none s i setup hr, Option.toList_none, List.nil_append] at hq
      by_cases hp : (rxWvalid s i && (currentSetup s.out == setup)) = true
      · have hp' := hp
        simp only [Bool.and_eq_true, beq_iff_eq] at hp'
        have hhead := avQueue_of_acked hp'.1
        rw [hp'.2] at hhead
        obtain ⟨rest, hbr⟩ : ∃ rest, avQueue s setup = (rxWdata s i).buffer :: rest := by
          cases hc : avQueue s setup with
          | nil => simp [hc] at hhead
          | cons c rest =>
              rw [hc] at hhead
              simp only [List.head?_cons, Option.some.injEq] at hhead
              exact ⟨rest, by rw [hhead]⟩
        simp [hp, postedId, waiting, hr, hq, hbr]
      · simp [hp, postedId, waiting, hr, hq]

/-- The posted entries: the new one joins at the end, software reads in front. -/
theorem received_step (s : State N) {i : Input N} (hf : NoFifoReset i) :
    (returned s i).toList ++ received (step s i) =
      received s ++ ((postedId s i true).toList ++ (postedId s i false).toList) := by
  have hq := s.rxFifo.popped_append_toList_step (rxFifoIn s i) hf.2.2
  have hpush : s.rxFifo.accepted (rxFifoIn s i) = rxPush s i := rfl
  have hids : (rxPush s i).toList.map (·.buffer) =
      (postedId s i true).toList ++ (postedId s i false).toList := by
    cases ha : rxWvalid s i with
    | false => simp [rxPush, postedId, ha]
    | true =>
        rw [rxPush_of_acked ha]
        cases hc : currentSetup s.out <;> simp [postedId, ha, hc]
  rw [hpush] at hq
  have hmap := congrArg (List.map fun e : RxEntry N => e.buffer) hq
  simp only [List.map_append, hids] at hmap
  have hret : (returned s i).toList =
      ((s.rxFifo.popped (rxFifoIn s i)).toList).map fun e => e.buffer := by
    unfold returned
    cases s.rxFifo.popped (rxFifoIn s i) <;> rfl
  rw [hret]
  exact hmap

/-! ### Every run -/

namespace Ledger

/-- All ids, wherever they are. -/
def everywhere (l : Ledger N) : Multiset (BitVec 5) :=
  l.owned + waiting l.dev true + waiting l.dev false + received l.dev

structure Invariant (ids : Multiset (BitVec 5)) (l : Ledger N) : Prop where
  total : l.everywhere = ids
  history : ∀ setup, l.accepted setup =
    ((l.posted.filter fun e => e.setup == setup).map (·.buffer)) ++ waiting l.dev setup
  leaving : ∀ setup, avRready l.dev setup = true → phase l.dev = .idle ∧
    l.dev.out.stdWrite = false ∧ ∃ e, l.posted.getLast? = some e ∧ e.setup = setup ∧
      (avQueue l.dev setup).head? = some e.buffer
  dataPut : phase l.dev ≠ .rcvdDataStart → phase l.dev ≠ .idle →
    l.dev.out.pe.outEpDataPut = false

theorem invariant_reset (setup₀ out₀ rx₀ mem₀ rdata₀) (ids : Multiset (BitVec 5)) :
    Invariant ids (reset (N := N) setup₀ out₀ rx₀ mem₀ rdata₀ ids) where
  total := by
    simp [everywhere, reset, waiting, avRready, avQueue, received, State.reset, OutState.reset,
      SyncFifo.State.toList_reset]
  history := by
    intro setup
    cases setup <;> simp [reset, waiting, avRready, avQueue, State.reset, OutState.reset,
      SyncFifo.State.toList_reset]
  leaving := by
    intro setup h
    cases setup <;> exact Bool.noConfusion h
  dataPut := fun _ _ => rfl

namespace Invariant

variable {ids : Multiset (BitVec 5)} {l : Ledger N} {i : Input N}

omit [NeZero N] in
theorem leaves (h : Invariant ids l) : Leaving l.dev := by
  intro setup hr
  obtain ⟨hidle, -, e, -, -, hhead⟩ := h.leaving setup hr
  refine ⟨hidle, ?_⟩
  rintro hq
  simp [hq] at hhead

/-- What a cycle moves from one place arrives in another. -/
theorem total_step (h : Invariant ids l) (ha : Allowed l i) : (l.step i).everywhere = ids := by
  have hs := waiting_step ha.noFifoReset h.leaves true
  have ho := waiting_step ha.noFifoReset h.leaves false
  have hr := received_step l.dev ha.noFifoReset
  have hle := (avAccept_le l.dev i).trans ha.owns
  rw [← h.total]
  ext b
  have hs' := congrArg (List.count b) hs
  have ho' := congrArg (List.count b) ho
  have hr' := congrArg (List.count b) hr
  have hle' := Multiset.count_le_of_le b hle
  simp only [List.count_append] at hs' ho' hr'
  simp only [Multiset.count_add, Multiset.coe_count] at hle'
  simp only [everywhere, step, Multiset.count_add, Multiset.count_sub, Multiset.coe_count]
  omega

theorem history_step (h : Invariant ids l) (ha : Allowed l i) (setup : Bool) :
    (l.step i).accepted setup =
      (((l.step i).posted.filter fun e => e.setup == setup).map (·.buffer)) ++
        waiting (l.step i).dev setup := by
  have hw := waiting_step ha.noFifoReset h.leaves setup
  have hpush : ((rxPush l.dev i).toList.filter fun e => e.setup == setup).map (·.buffer) =
      (postedId l.dev i setup).toList := by
    cases hv : rxWvalid l.dev i with
    | false => simp [rxPush, postedId, hv]
    | true =>
        have hsetup : (rxWdata l.dev i).setup = currentSetup l.dev.out := rfl
        rw [rxPush_of_acked hv]
        by_cases hk : currentSetup l.dev.out = setup <;> simp [postedId, hv, hsetup, hk]
  simp only [step, List.filter_append, List.map_append, hpush, h.history setup,
    List.append_assoc, hw]

theorem leaving_step (h : Invariant ids l) (ha : Allowed l i) (setup : Bool)
    (hr : avRready (l.step i).dev setup = true) : phase (l.step i).dev = .idle ∧
      (l.step i).dev.out.stdWrite = false ∧ ∃ e, (l.step i).posted.getLast? = some e ∧
        e.setup = setup ∧ (avQueue (l.step i).dev setup).head? = some e.buffer := by
  have hr' : avRready (Device.step l.dev i) setup = true := hr
  rw [avRready_step, Bool.and_eq_true, beq_iff_eq] at hr'
  obtain ⟨hv, hsetup⟩ := hr'
  have hend := (OutPe.acked_cases hv).1
  have hput : l.dev.out.pe.outEpDataPut = false := by
    refine h.dataPut ?_ ?_ <;> unfold phase <;> rcases hend with hs | hs <;> simp [hs]
  refine ⟨phase_step_dataEnd hend, ?_, rxWdata l.dev i, ?_, hsetup, ?_⟩
  · have : (l.step i).dev.out.stdWrite = if i.linkReset then false else stdWriteD l.dev.out := rfl
    rw [this]
    split_ifs
    · rfl
    · simp [stdWriteD, hput]
  · simp [step, rxPush_of_acked hv]
  · have hready : avRready l.dev setup = false := by
      by_contra hready
      have hidle := (h.leaving setup (by simpa using hready)).1
      unfold phase at hidle
      rcases hend with hs | hs <;> simp [hs] at hidle
    have hhead := avQueue_of_acked hv
    rw [hsetup] at hhead
    exact head_avQueue_step ha.noFifoReset hready hhead

theorem dataPut_step (ha : Allowed l i)
    (hd : phase (l.step i).dev ≠ .rcvdDataStart) (hidle : phase (l.step i).dev ≠ .idle) :
    (l.step i).dev.out.pe.outEpDataPut = false := by
  have hput : (l.step i).dev.out.pe.outEpDataPut =
      (phase l.dev == .rcvdDataStart && i.rx.dataPut) := rfl
  rw [hput]
  by_cases hs : phase l.dev = .rcvdDataStart
  · cases he : i.rx.pktEnd with
    | true =>
        have hstrobe : i.rx.dataPut = false := by
          by_contra hstrobe
          simp [ha.strobe_end (by simpa using hstrobe)] at he
        simp [hstrobe]
    | false =>
        have hn := phase_step_dataStart hs he
        change phase (Device.step l.dev i) ≠ _ at hd hidle
        rw [hn] at hd hidle
        split_ifs at hd hidle <;> simp at hd hidle
  · simp [hs]

theorem step (h : Invariant ids l) (ha : Allowed l i) : Invariant ids (l.step i) where
  total := h.total_step ha
  history := h.history_step ha
  leaving := h.leaving_step ha
  dataPut := dataPut_step ha

/-- The USB side writes to an id that still waits. -/
theorem usbWrite_waiting (h : Invariant ids l) {a : BitVec 9} (hw : usbWrite l.dev i = some a) :
    ∃ setup, (waiting l.dev setup).head? = some (bufferOf a) := by
  refine ⟨currentSetup l.dev.out, ?_⟩
  unfold usbWrite at hw
  split_ifs at hw with hm
  simp only [Option.some.injEq] at hw
  have hv : avRvalid l.dev.out (outInput l.dev i) = true := by
    simp only [memWrite, Bool.and_eq_true] at hm
    exact hm.1
  rw [avRvalid_iff] at hv
  obtain ⟨b, rest, hq⟩ := List.exists_cons_of_ne_nil hv
  have hhead : (avQueue l.dev (currentSetup l.dev.out)).head? = some b := by simp [hq]
  have hb : bufferOf a = b := by
    rw [← hw, memWaddr, bufferOf_append]
    exact avRdata_of_head l.dev i hhead
  have hready : avRready l.dev (currentSetup l.dev.out) = false := by
    by_contra hready
    obtain ⟨hidle, hstd, -⟩ := h.leaving _ (by simpa using hready)
    have hquiet : (outComb l.dev.out (outInput l.dev i)).acked = false :=
      rxWvalid_eq_false i (by simp [hidle])
    simp [memWrite, hstd, hquiet] at hm
  rw [hb, waiting, hready]
  simpa using hhead

end Invariant

/-- What every run keeps of the buffers `ids`. -/
structure Owned (ids : Multiset (BitVec 5)) (l : Ledger N) : Prop where
  /-- No id is lost, and none is in two places. -/
  places : l.everywhere = ids ∧ l.everywhere.Nodup
  /-- The ids accepted by an available FIFO leave it in order, each into one entry. -/
  history : ∀ setup, l.accepted setup =
    ((l.posted.filter fun e => e.setup == setup).map (·.buffer)) ++ waiting l.dev setup
  /-- A FIFO shows more than what waits only in the cycle after a packet was posted: its head,
  the buffer of that packet, which leaves in this cycle. -/
  leaving : ∀ setup, waiting l.dev setup ≠ avQueue l.dev setup →
    (∃ e, l.posted.getLast? = some e ∧ e.setup = setup ∧
      avQueue l.dev setup = e.buffer :: waiting l.dev setup) ∧
    ∀ i other, waiting (l.step i).dev other = avQueue (l.step i).dev other
  /-- A packet is acknowledged only when the received buffer FIFO takes it. -/
  stored : ∀ i, rxWvalid l.dev i = true → l.dev.rxFifo.wready = true
  /-- The USB side writes to the head of an available FIFO, which is in no entry and not
  software's. -/
  written : ∀ i a, usbWrite l.dev i = some a →
    (∃ setup, (waiting l.dev setup).head? = some (bufferOf a)) ∧
      bufferOf a ∉ received l.dev ∧ bufferOf a ∉ l.owned

/-- Packet buffer ownership along every run out of reset. -/
theorem owned_of_reachable {setup₀ : Fin 4 → BitVec 5} {out₀ : Fin 8 → BitVec 5}
    {rx₀ : Fin 8 → RxEntry N} {mem₀ : BitVec 9 → BitVec 32} {rdata₀ : BitVec 32}
    {ids : Multiset (BitVec 5)} (hids : ids.Nodup) {l : Ledger N}
    (h : Reachable step Allowed (reset setup₀ out₀ rx₀ mem₀ rdata₀ ids) l) : Owned ids l := by
  have hinv : Invariant ids l := by
    refine h.invariant (Invariant ids) (invariant_reset _ _ _ _ _ ids) ?_
    intro l i hi hl
    exact hl.step hi
  have hnodup : l.everywhere.Nodup := by rwa [hinv.total]
  refine ⟨⟨hinv.total, hnodup⟩, hinv.history, ?_, ?_, ?_⟩
  · intro setup hne
    have hr : avRready l.dev setup = true := by
      by_contra hr
      simp [waiting, hr] at hne
    obtain ⟨hidle, -, e, hlast, hsetup, hhead⟩ := hinv.leaving setup hr
    refine ⟨⟨e, hlast, hsetup, ?_⟩, ?_⟩
    · cases hq : avQueue l.dev setup with
      | nil => simp [hq] at hhead
      | cons b rest =>
          rw [hq] at hhead
          simp only [List.head?_cons, Option.some.injEq] at hhead
          simp [waiting, hr, hq, hhead]
    · intro i other
      have hready : avRready (l.step i).dev other = false :=
        avRready_step_of_phase i (by simp [hidle]) other
      simp [waiting, hready]
  · intro i hv
    have hpush := rxPush_of_acked hv
    unfold rxPush at hpush
    split_ifs at hpush with hw
    simp only [Bool.and_eq_true] at hw
    exact hw.2
  · intro i a hw
    obtain ⟨setup, hhead⟩ := hinv.usbWrite_waiting hw
    have hcount := Multiset.nodup_iff_count_le_one.mp hnodup (bufferOf a)
    have hwait : 1 ≤ (waiting l.dev setup).count (bufferOf a) :=
      List.one_le_count_iff.mpr (List.mem_of_head? hhead)
    simp only [everywhere, Multiset.count_add, Multiset.coe_count] at hcount
    refine ⟨⟨setup, hhead⟩, fun hmem => ?_, fun hmem => ?_⟩
    · have hrec := List.one_le_count_iff.mpr hmem
      cases setup <;> omega
    · have hown := Multiset.one_le_count_iff_mem.mpr hmem
      cases setup <;> omega

/-- The ledger of a device out of reset whose software owns the buffers 3 and 5. -/
def cleared : Ledger 12 :=
  reset (fun _ => 0) (fun _ => 0) (fun _ => ⟨0, false, 0, 0⟩) (fun _ => 0) 0 {3, 5}

theorem owned_of_reachable_supply : Owned {3, 5} (run step cleared supply) := by
  refine owned_of_reachable (by decide)
    ((((Reachable.init.step _ ?_).step _ ?_).step _ ?_).step _ ?_)
  all_goals exact ⟨by decide, ⟨rfl, rfl, rfl⟩, by decide⟩

end Ledger

end UsbDev.Device
