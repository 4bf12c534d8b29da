import UsbDev.OutTransaction
import UsbDev.SetupHandshake

/-!
# The last entry of the received buffer FIFO

OUT packets leave the last entry of the FIFO free, so a full FIFO ends in a SETUP
packet. A SETUP transaction that finds no room has therefore met a FIFO with a
SETUP packet in it, in the cycle in which the engine looked.
-/
namespace UsbDev.Device

open Clocked UsbIf
open OutPe (XactState)

section
variable {N : ℕ} [NeZero N] {s : State N} {i : Input N}

/-! ### A full FIFO -/

/-- A regular OUT packet is posted only when at least two entries are free. -/
theorem length_lt_of_push {entry : RxEntry N} (h : rxPush s i = some entry)
    (hsetup : entry.setup = false) : s.rxFifo.toList.length < 7 := by
  rw [rxPush] at h
  split_ifs at h with hacked
  obtain rfl := Option.some.inj h
  have hcur : currentSetup s.out = false := hsetup
  simp only [Bool.and_eq_true] at hacked
  have hfull : outEpFull s.out (outInput s i) s.out.pe.outEpCurrent = false :=
    (OutPe.acked_cases hacked.1).2.2
  simp only [outEpFull, allOutBlocked, rxWready, hcur, Bool.or_eq_false_iff, Bool.not_eq_false',
    Bool.false_eq_true, if_false] at hfull
  have hready : rxWreadyOut s = true := hfull.1.1
  simp only [rxWreadyOut, Bool.and_eq_true, decide_eq_true_eq] at hready
  rw [← s.rxFifo.depth_eq_length]
  exact hready.2

/-- The youngest entry of a full FIFO is a SETUP packet. -/
def EndsInSetup (s : State N) : Prop :=
  s.rxFifo.toList.length = 8 → ∃ entry, s.rxFifo.toList.getLast? = some entry ∧ entry.setup = true

theorem EndsInSetup.step (h : EndsInSetup s) (i : Input N) : EndsInSetup (step s i) := by
  intro hlen
  have hfifo : (Device.step s i).rxFifo = s.rxFifo.step (rxFifoIn s i) := rfl
  have hpush : s.rxFifo.accepted (rxFifoIn s i) = rxPush s i := rfl
  cases hc : (rxFifoIn s i).clr with
  | true =>
      rw [hfifo, s.rxFifo.toList_step_clr _ hc] at hlen
      exact absurd hlen (by simp)
  | false =>
      have hstep := s.rxFifo.popped_append_toList_step (rxFifoIn s i) hc
      rw [hpush, ← hfifo] at hstep
      have hle : s.rxFifo.toList.length ≤ 8 := by
        rw [s.rxFifo.length_toList]
        exact s.rxFifo.count_le
      have hsum := congrArg List.length hstep
      simp only [List.length_append] at hsum
      have hlast := congrArg List.getLast? hstep
      have hne : (Device.step s i).rxFifo.toList ≠ [] := by
        rintro hnil
        rw [hnil] at hlen
        exact absurd hlen (by simp)
      rw [List.getLast?_append_of_ne_nil _ hne] at hlast
      rw [hlast]
      cases hp : rxPush s i with
      | none =>
          rw [hp] at hsum
          simp only [Option.toList_none, List.length_nil, List.append_nil] at hsum ⊢
          exact h (by omega)
      | some entry =>
          rw [hp] at hsum
          simp only [Option.toList_some, List.length_singleton] at hsum
          refine ⟨entry, by simp, ?_⟩
          by_contra hsetup
          have hlt := length_lt_of_push hp (by simpa using hsetup)
          omega

theorem endsInSetup_of_reachable {avsetup : Fin 4 → BitVec 5} {avout : Fin 8 → BitVec 5}
    {rx : Fin 8 → RxEntry N} {mem : BitVec 9 → BitVec 32} {rdata : BitVec 32}
    (h : Reachable step (fun _ _ => True) (State.reset avsetup avout rx mem rdata) s) :
    EndsInSetup s := by
  refine h.invariant EndsInSetup ?_ fun s i _ hs => hs.step i
  intro hlen
  have hnil : (State.reset avsetup avout rx mem rdata).rxFifo.toList = [] :=
    SyncFifo.State.toList_reset rx
  rw [hnil] at hlen
  exact absurd hlen (by simp)

/-! ### A SETUP transaction without room -/

/-- The FIFO is full and a SETUP packet that software has not read is in it. -/
def HoldsSetup (s : State N) : Prop :=
  s.rxFifo.toList.length = 8 ∧ ∃ entry ∈ s.rxFifo.toList, entry.setup = true

omit [NeZero N] in
/-- Out of reset the FIFO takes a SETUP packet unless it holds one already. -/
theorem wready_of_not_holdsSetup (h : EndsInSetup s) (hu : s.rxFifo.underRst = false)
    (hno : ¬ HoldsSetup s) : s.rxFifo.wready = true := by
  have hfull : s.rxFifo.full = false := by
    rw [← Bool.not_eq_true, s.rxFifo.full_iff, ← s.rxFifo.length_toList]
    intro hlen
    obtain ⟨entry, hlast, hsetup⟩ := h hlen
    exact hno ⟨hlen, entry, List.mem_of_getLast? hlast, hsetup⟩
  simp [SyncFifo.State.wready, hfull, hu]

namespace SetupTransaction

variable {x : SetupTransaction N}

/-- The states in which the device meets the cycles after the token. -/
def Meets (x : SetupTransaction N) (s q : State N) : Prop :=
  ∃ as bs, x.window = as ++ bs ∧ q = run step (run step s x.token.cycles) as

/-- A buffer for a SETUP packet is there all the time. -/
def Supplied (x : SetupTransaction N) (s : State N) : Prop :=
  ∀ q, x.Meets s q → q.avsetup.rvalid = true

/-- A valid DATA packet has been received for the transaction, and is not accepted. -/
def Refused (x : SetupTransaction N) (s : State N) : Prop :=
  phase (step (x.atEnd s) x.data.last) = .rcvdDataEnd ∧
    rxWvalid (step (x.atEnd s) x.data.last) x.after = false

/-- The transaction is on its way and nothing has kept its data from being stored. -/
def OnTrack (e : Fin N) (s : State N) : Prop :=
  AwaitsSetup e s ∧ (phase s = .rcvdDataStart → s.out.pe.nakOutTransaction = false)

omit [NeZero N] in
/-- Room and a buffer are all that a SETUP packet needs. -/
theorem full_eq_false {e : Fin N} (h : s.out.pe.outEpCurrent = e)
    (hset : s.out.pe.outEpSetup e = true) (hw : s.rxFifo.wready = true)
    (hv : s.avsetup.rvalid = true) (i : Input N) :
    (peInput s i).full s.out.pe.outEpCurrent = false := by
  have hcur : currentSetup s.out = true := by rw [currentSetup, h, hset]
  simp [peInput, outPeInput, outEpFull, allOutBlocked, rxWready, avRvalid, hcur, outInput, hw, hv,
    h, hset]

theorem nak_step {e : Fin N} (h : OnTrack e s) (hw : s.rxFifo.wready = true)
    (hv : s.avsetup.rvalid = true) (i : Input N) (hs : phase s = .rcvdDataStart) :
    (step s i).out.pe.nakOutTransaction = false := by
  obtain hidle | ⟨-, hcur, -, hset⟩ := h.1
  · rw [hs] at hidle
    cases hidle
  · have hfull := full_eq_false hcur hset hw hv i
    simp only [step_pe, OutPe.step, hfull, h.2 hs, Bool.and_false, Bool.false_eq_true, if_false]
    split_ifs <;> rfl

theorem OnTrack.step {e : Fin N} (h : OnTrack e s) (hw : s.rxFifo.wready = true)
    (hv : s.avsetup.rvalid = true) (he : i.rx.pktEnd = false) : OnTrack e (step s i) := by
  refine ⟨awaitsSetup_step h.1 he, fun hnext => ?_⟩
  obtain hidle | ⟨hs | hs, -⟩ := h.1
  · rw [phase_step_idle hidle he] at hnext
    cases hnext
  · have hs' : s.out.pe.outXactState = .rcvdOut := hs
    simp [step_pe, OutPe.step, hs']
  · exact nak_step h hw hv i hs

/-- While the FIFO has room the transaction stays on track up to the end of its data. -/
theorem onTrack_run {e : Fin N} (hs : OnTrack e s) (is : List (Input N))
    (he : ∀ i ∈ is, i.rx.pktEnd = false)
    (hroom : ∀ as i bs, is = as ++ i :: bs → (run Device.step s as).rxFifo.wready = true ∧
      (run Device.step s as).avsetup.rvalid = true) : OnTrack e (run Device.step s is) := by
  induction is generalizing s with
  | nil => exact hs
  | cons i is ih =>
      obtain ⟨hw, hv⟩ := hroom [] i is rfl
      refine ih (hs.step hw hv (he i (by simp))) (fun j hj => he j (by simp [hj])) ?_
      rintro as j bs rfl
      exact hroom (i :: as) j bs rfl

/-- A token leaves no transaction that receives data. -/
theorem onTrack_token (x : SetupTransaction N) (s : State N) :
    OnTrack x.ep (run step s x.token.cycles) :=
  ⟨x.awaitsSetup_token s, fun h => absurd h (phase_packet s x.token)⟩

theorem underRst_run (s : State N) {is : List (Input N)} (h : is ≠ []) :
    (run step s is).rxFifo.underRst = false := by
  obtain ⟨as, i, rfl⟩ := (List.eq_nil_or_concat' is).resolve_left h
  rw [run_append]
  rfl

/-- A SETUP transaction with a buffer that is refused has met a full FIFO with a SETUP packet in
it. -/
theorem holdsSetup_of_refused {avsetup : Fin 4 → BitVec 5} {avout : Fin 8 → BitVec 5}
    {rx : Fin 8 → RxEntry N} {mem : BitVec 9 → BitVec 32} {rdata : BitVec 32}
    (h : Reachable step (fun _ _ => True) (State.reset avsetup avout rx mem rdata) s)
    (hsup : x.Supplied s) (href : x.Refused s) : ∃ q, x.Meets s q ∧ HoldsSetup q := by
  by_contra hnone
  simp only [not_exists, not_and] at hnone
  have hroom : ∀ q, x.Meets s q → q.rxFifo.wready = true ∧ q.avsetup.rvalid = true := by
    rintro q ⟨as, bs, hsplit, rfl⟩
    have hmeets : x.Meets s (run step (run step s x.token.cycles) as) := ⟨as, bs, hsplit, rfl⟩
    refine ⟨wready_of_not_holdsSetup ?_ ?_ (hnone _ hmeets), hsup _ hmeets⟩
    · exact endsInSetup_of_reachable ((h.run _ fun _ _ _ => trivial).run _ fun _ _ _ => trivial)
    · rw [← run_append]
      exact underRst_run s (by simp [Packet.cycles])
  have htrack : OnTrack x.ep (x.atEnd s) := by
    have hat : x.atEnd s = run step (run step s x.token.cycles) (x.gap ++ x.data.front) := by
      rw [run_append]
      rfl
    rw [hat]
    refine onTrack_run (x.onTrack_token s) _ ?_ ?_
    · intro i hi
      rcases List.mem_append.1 hi with hi | hi
      · exact (x.gap_noEvent i hi).2
      · exact x.data.front_pktEnd i hi
    · intro as i bs hsplit
      refine hroom _ ⟨as, i :: bs ++ [x.data.last, x.after], ?_, rfl⟩
      rw [window, ← List.append_assoc, hsplit, List.append_assoc]
  have hatEnd : x.Meets s (x.atEnd s) :=
    ⟨x.gap ++ x.data.front, [x.data.last, x.after], by simp [window], by rw [run_append]; rfl⟩
  have hlast : x.Meets s (step (x.atEnd s) x.data.last) :=
    ⟨x.gap ++ x.data.front ++ [x.data.last], [x.after], by simp [window], by
      simp [run_append, atEnd]⟩
  obtain ⟨hphase, hrefused⟩ := href
  have hstart : phase (x.atEnd s) = .rcvdDataStart := by
    obtain hidle | hs := phase_front (run step (run step s x.token.cycles) x.gap) x.data
    · have hnext := phase_step_idle_end (i := x.data.last) hidle
      have hatEnd' : run step (run step (run step s x.token.cycles) x.gap) x.data.front =
        x.atEnd s := rfl
      rw [hatEnd', hphase] at hnext
      obtain hnext | ⟨hnext, -⟩ := hnext <;> cases hnext
    · exact hs
  obtain ⟨hw, hv⟩ := hroom _ hatEnd
  have hnak := nak_step htrack hw hv x.data.last hstart
  obtain hidle | ⟨-, hcur, hxact, hset⟩ := htrack.1
  · rw [hstart] at hidle
    cases hidle
  obtain ⟨hw', hv'⟩ := hroom _ hlast
  have hdata := (x.comb_last s hstart).resolve_left fun hleft => by
    have hn := Device.phase_step (x.atEnd s) x.data.last
    rw [hleft.1, hphase] at hn
    split_ifs at hn
  have htok : ∀ d, x.data.last.rx.tokenReceived d = false := by
    intro d
    rw [← Bool.not_eq_true]
    intro ht
    have hnot := RxSignals.dataPacketReceived_of_tokenReceived ht
    rw [hdata.1] at hnot
    exact absurd hnot (by decide)
  have hstart' : (x.atEnd s).out.pe.outXactState = .rcvdDataStart := hstart
  have hxs : (OutPe.comb (x.atEnd s).out.pe (peInput (x.atEnd s) x.data.last)).xactStart =
      false := by
    rw [← Bool.not_eq_true]
    intro hxs
    rw [OutPe.idle_of_xactStart hxs] at hstart'
    cases hstart'
  have hcur' : (step (x.atEnd s) x.data.last).out.pe.outEpCurrent = x.ep := by
    simp [step_pe, OutPe.step, hxs, hcur]
  have hxact' : (step (x.atEnd s) x.data.last).out.pe.currentXactSetup = true := by
    simp [step_pe, OutPe.step, hxs, hxact]
  have hset' : (step (x.atEnd s) x.data.last).out.pe.outEpSetup x.ep = true := by
    simp [step_pe, OutPe.step, OutPe.Input.setupTokenReceived, OutPe.Input.outTokenReceived, htok,
      hset]
  have hfull := full_eq_false hcur' hset' hw' hv' x.after
  have hphase' : (step (x.atEnd s) x.data.last).out.pe.outXactState = .rcvdDataEnd := hphase
  have hacked : (OutPe.comb (step (x.atEnd s) x.data.last).out.pe
      (peInput (step (x.atEnd s) x.data.last) x.after)).acked = true := by
    simp [OutPe.comb, hphase', hxact', hnak, hfull]
  rw [rxWvalid_eq, hacked] at hrefused
  exact absurd hrefused (by decide)

end SetupTransaction

/-- In every reachable state a regular OUT packet is posted only with fewer than seven entries in
the FIFO, the youngest entry of a full FIFO is a SETUP packet, and a SETUP transaction with a
buffer is refused only when the engine has met a full FIFO with a SETUP packet in it. -/
theorem rx_reserve {avsetup : Fin 4 → BitVec 5} {avout : Fin 8 → BitVec 5}
    {rx : Fin 8 → RxEntry N} {mem : BitVec 9 → BitVec 32} {rdata : BitVec 32} (s : State N)
    (h : Reachable step (fun _ _ => True) (State.reset avsetup avout rx mem rdata) s) :
    (∀ i entry, rxPush s i = some entry → entry.setup = false → s.rxFifo.toList.length < 7) ∧
      (s.rxFifo.toList.length = 8 →
        ∃ entry, s.rxFifo.toList.getLast? = some entry ∧ entry.setup = true) ∧
      (∀ x : SetupTransaction N, x.Supplied s → x.Refused s → ∃ q, x.Meets s q ∧ HoldsSetup q) :=
  ⟨fun _ _ hp hs => length_lt_of_push hp hs, endsInSetup_of_reachable h,
    fun _ hsup href => SetupTransaction.holdsSetup_of_refused h hsup href⟩

end

/-- A packet of two CRC bytes for endpoint `endp`, and its token. -/
def emptyPacket (token pid endp : BitVec 4) : List (Input 12) :=
  (tokenPacket token endp).cycles ++ (dataPacket pid endp [0, 0]).cycles ++
    [cycle (rxQuiet endp), cycle (rxQuiet endp)]

/-- Seven OUT packets and a SETUP packet, each with a buffer, and one more buffer for SETUP packets. -/
def eightPackets : List (Input 12) :=
  supply ++ (List.replicate 6 (cycle (rxQuiet 0) { avoutbuffer := some 6 })) ++
    ([usbPidData0, usbPidData1, usbPidData0, usbPidData1, usbPidData0, usbPidData1,
      usbPidData0].flatMap fun pid => emptyPacket usbPidOut pid 1) ++
    emptyPacket usbPidSetup usbPidData0 0 ++ [cycle (rxQuiet 0) { avsetupbuffer := some 7 }]

/-- A further SETUP packet. -/
def ninthPacket : SetupTransaction 12 :=
  { SetupTransaction.withData1 with
    data := dataPacket usbPidData0 0 [0x00#8, 0x00#8]
    data_endp := fun _ => rfl }

theorem supplied_ninthPacket : ninthPacket.Supplied (run step clearedDevice eightPackets) := by
  rintro q ⟨as, bs, hwindow, rfl⟩
  have hall : ∀ n ≤ ninthPacket.window.length,
      (run step (run step (run step clearedDevice eightPackets) ninthPacket.token.cycles)
        (ninthPacket.window.take n)).avsetup.rvalid = true := by decide +kernel
  have htake := hall as.length (by simp [hwindow])
  rwa [hwindow, List.take_left] at htake

/-- With a full FIFO the youngest entry is the SETUP packet, and a further one is refused for it. -/
theorem rx_reserve_ninthPacket :
    (∃ entry, (run step clearedDevice eightPackets).rxFifo.toList.getLast? = some entry ∧
      entry.setup = true) ∧ ninthPacket.Refused (run step clearedDevice eightPackets) ∧
      ∃ q, ninthPacket.Meets (run step clearedDevice eightPackets) q ∧ HoldsSetup q := by
  have hreach : Reachable step (fun _ _ => True) clearedDevice
      (run step clearedDevice eightPackets) := Reachable.init.run _ fun _ _ _ => trivial
  have hrefused : ninthPacket.Refused (run step clearedDevice eightPackets) := by
    constructor <;> decide +kernel
  obtain ⟨-, hyoungest, hholds⟩ := rx_reserve _ hreach
  exact ⟨hyoungest (by decide +kernel), hrefused, hholds _ supplied_ninthPacket hrefused⟩

end UsbDev.Device
