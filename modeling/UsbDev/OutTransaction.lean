import UsbDev.OutDataPath

/-!
# Accepted OUT and SETUP transactions

A transaction is followed from its token to the cycle after its acknowledgement.
While the DATA packet arrives the engine either still tracks every byte of it
(`Receiving`) or can no longer accept it (`Doomed`); a packet that is accepted
was never doomed, so nothing of it is lost.
-/
namespace UsbDev.Device

open Clocked UsbIf
open OutPe (XactState)

variable {N : ℕ} [NeZero N]

/-! ### What a run moves -/

/-- The RAM word that the USB side writes in this cycle. -/
def usbWrite (s : State N) (i : Input N) : Option (BitVec 9) :=
  if memWrite s.out (outInput s i) then some (memWaddr s.out (outInput s i)) else none

/-- The entries posted to the received buffer FIFO. -/
def posted (s : State N) (is : List (Input N)) : List (RxEntry N) := log step rxPush s is

/-- The ids taken from an available buffer FIFO. -/
def popped (s : State N) (is : List (Input N)) (setup : Bool) : List (BitVec 5) :=
  log step (fun s i => avPop s i setup) s is

/-- The RAM words that the USB side writes. -/
def written (s : State N) (is : List (Input N)) : List (BitVec 9) := log step usbWrite s is

/-- A run that posts and takes nothing and writes to no buffer but `b`. -/
structure Harmless (b : BitVec 5) (s : State N) (is : List (Input N)) : Prop where
  posted : posted s is = []
  popped : ∀ setup, popped s is setup = []
  written : ∀ a ∈ written s is, bufferOf a = b

theorem harmless_nil (b : BitVec 5) (s : State N) : Harmless b s [] :=
  ⟨rfl, fun _ => rfl, by simp [written]⟩

theorem Harmless.append {b : BitVec 5} {s : State N} {is js : List (Input N)}
    (h : Harmless b s is) (h' : Harmless b (run step s is) js) : Harmless b s (is ++ js) where
  posted := by
    have h1 := h.posted
    have h2 := h'.posted
    simp only [Device.posted, log_append] at h1 h2 ⊢
    simp [h1, h2]
  popped := by
    intro setup
    have h1 := h.popped setup
    have h2 := h'.popped setup
    simp only [Device.popped, log_append] at h1 h2 ⊢
    simp [h1, h2]
  written := by
    intro a ha
    simp only [Device.written, log_append, List.mem_append] at ha
    exact ha.elim (h.written a) (h'.written a)

/-- A cycle without acceptance, in which no FIFO is read. -/
theorem harmless_cycle {b : BitVec 5} {s : State N} {i : Input N} (ha : rxWvalid s i = false)
    (hr : ∀ setup, avRready s setup = false)
    (hw : memWrite s.out (outInput s i) = true → avRdata s.out (outInput s i) = b) :
    Harmless b s [i] where
  posted := by simp [posted, rxPush, ha]
  popped := by
    intro setup
    simp [popped, avPop_eq_none s i setup (hr setup)]
  written := by
    intro a hmem
    by_cases hm : memWrite s.out (outInput s i) = true
    · have hb := hw hm
      simp only [written, log_cons, log_nil, usbWrite, hm, if_true, Option.toList_some,
        List.append_nil, List.mem_singleton] at hmem
      rw [hmem, memWaddr, bufferOf_append, hb]
    · simp [written, usbWrite, hm] at hmem

theorem avRready_step (s : State N) (i : Input N) (setup : Bool) :
    avRready (step s i) setup = (rxWvalid s i && (currentSetup s.out == setup)) := by
  cases setup
  · have : avRready (step s i) false = (rxWvalid s i && !currentSetup s.out) := rfl
    rw [this]
    cases currentSetup s.out <;> rfl
  · have : avRready (step s i) true = (rxWvalid s i && currentSetup s.out) := rfl
    rw [this]
    cases currentSetup s.out <;> rfl

theorem avRready_step_of_phase {s : State N} (i : Input N)
    (h : phase s ≠ .rcvdDataEnd ∧ phase s ≠ .rcvdIsoDataEnd) (setup : Bool) :
    avRready (step s i) setup = false := by
  rw [avRready_step, rxWvalid_eq_false i h, Bool.false_and]

/-- An accepted packet is stored: the received buffer FIFO had room. -/
theorem rxPush_of_acked {s : State N} {i : Input N} (h : rxWvalid s i = true) :
    rxPush s i = some (rxWdata s i) := by
  have hfull := (OutPe.acked_cases h).2.2
  have hblocked : allOutBlocked s.out (outInput s i) = false := by
    have hf : outEpFull s.out (outInput s i) s.out.pe.outEpCurrent = false := hfull
    simp only [outEpFull, Bool.or_eq_false_iff] at hf
    exact hf.1
  have hready : s.rxFifo.wready = true := by
    simp only [allOutBlocked, rxWready, Bool.or_eq_false_iff, Bool.not_eq_false'] at hblocked
    have hw := hblocked.1
    split_ifs at hw
    · exact hw
    · have hw' : rxWreadyOut s = true := hw
      simp only [rxWreadyOut, Bool.and_eq_true] at hw'
      exact hw'.1
  simp [rxPush, h, hready]

/-- Whoever writes a word in this cycle writes it to the head of the selected FIFO. -/
theorem avRdata_of_memWrite {b : BitVec 5} {s : State N} {i : Input N}
    (hhead : ∀ c, (avQueue s (currentSetup s.out)).head? = some c → c = b)
    (hw : memWrite s.out (outInput s i) = true) : avRdata s.out (outInput s i) = b := by
  simp only [memWrite, Bool.and_eq_true] at hw
  have hne := (avRvalid_iff s i).1 hw.1
  obtain ⟨c, rest, hq⟩ := List.exists_cons_of_ne_nil hne
  have hc : (avQueue s (currentSetup s.out)).head? = some c := by simp [hq]
  rw [avRdata_of_head s i hc, hhead c hc]

theorem currentSetup_step {s : State N} {i : Input N} (h : i.rx.pktEnd = false) :
    currentSetup (step s i).out = currentSetup s.out := by
  obtain ⟨hsetup, hcur, -⟩ := OutPe.step_of_not_end (i := peInput s i) h s.out.pe
  rw [currentSetup, currentSetup, step_pe, hsetup, hcur]

/-- The endpoint and the kind of the transaction change only at the end of a packet. -/
theorem current_run (s : State N) (is : List (Input N)) (h : ∀ i ∈ is, i.rx.pktEnd = false) :
    (run step s is).out.pe.outEpCurrent = s.out.pe.outEpCurrent ∧
      currentSetup (run step s is).out = currentSetup s.out := by
  refine run_invariant (fun s' : State N => s'.out.pe.outEpCurrent = s.out.pe.outEpCurrent ∧
    currentSetup s'.out = currentSetup s.out) (fun i => i.rx.pktEnd = false) ?_ ⟨rfl, rfl⟩ is h
  rintro s' i hi ⟨hcur, hcs⟩
  have hstep := OutPe.step_of_not_end (i := peInput s' i) hi s'.out.pe
  rw [currentSetup_step hi, step_pe, hstep.2.1]
  exact ⟨hcur, hcs⟩

/-! ### Packets that cannot be accepted any more -/

/-- The engine can no longer accept a packet into buffer `b`. -/
def Doomed (b : BitVec 5) (s : State N) : Prop :=
  phase s = .idle ∨ (phase s = .rcvdOut ∨ phase s = .rcvdDataStart) ∧
    (∀ setup, avRready s setup = false) ∧
    (phase s = .rcvdDataStart ∧ s.out.pe.nakOutTransaction = true ∨
      ∃ c, c ≠ b ∧ (avQueue s (currentSetup s.out)).head? = some c)

/-- The cycles of a DATA packet before its end, or of the gap in front of it. -/
structure Quiet (b : BitVec 5) (i : Input N) : Prop where
  pktEnd : i.rx.pktEnd = false
  noFifoReset : NoFifoReset i
  noSwWrite : NoSwWrite b i

theorem phase_step_open {s : State N} {i : Input N}
    (hs : phase s = .rcvdOut ∨ phase s = .rcvdDataStart) (he : i.rx.pktEnd = false) :
    phase (step s i) = .idle ∨ phase (step s i) = .rcvdOut ∧ phase s = .rcvdOut ∨
      phase (step s i) = .rcvdDataStart := by
  obtain hs | hs := hs
  · rw [phase_step_rcvdOut hs]
    split_ifs <;> simp [hs]
  · rw [phase_step_dataStart hs he]
    split_ifs <;> simp

theorem doomed_step {b : BitVec 5} {s : State N} {i : Input N} (h : Doomed b s)
    (hi : Quiet b i) : Doomed b (step s i) := by
  rcases h with hs | ⟨hs, hr, hd⟩
  · exact .inl (phase_step_idle hs hi.pktEnd)
  · have hr' : ∀ setup, avRready (step s i) setup = false :=
      avRready_step_of_phase i (by rcases hs with hs | hs <;> simp [hs])
    rcases hd with ⟨hdata, hnak⟩ | ⟨c, hc, hhead⟩
    · rcases phase_step_open hs hi.pktEnd with hn | ⟨-, ho⟩ | hn
      · exact .inl hn
      · rw [hdata] at ho
        exact XactState.noConfusion ho
      · refine .inr ⟨.inr hn, hr', .inl ⟨hn, ?_⟩⟩
        rw [Passing.nak_step s i hdata, hnak]
        split_ifs <;> rfl
    · have hhead' := head_avQueue_step hi.noFifoReset (hr _) hhead
      rw [← currentSetup_step hi.pktEnd] at hhead'
      rcases phase_step_open hs hi.pktEnd with hn | ⟨hn, -⟩ | hn
      · exact .inl hn
      · exact .inr ⟨.inl hn, hr', .inr ⟨c, hc, hhead'⟩⟩
      · exact .inr ⟨.inr hn, hr', .inr ⟨c, hc, hhead'⟩⟩

theorem doomed_run {b : BitVec 5} {s : State N} (h : Doomed b s) (is : List (Input N))
    (hi : ∀ i ∈ is, Quiet b i) : Doomed b (run step s is) :=
  run_invariant (Doomed b) (Quiet b) (fun _ _ hi h => doomed_step h hi) h is hi

omit [NeZero N] in
/-- A packet that can still be accepted is on its way to buffer `b`. -/
theorem head_of_not_doomed {b : BitVec 5} {s : State N} (h : ¬Doomed b s)
    (hs : phase s = .rcvdOut ∨ phase s = .rcvdDataStart) (hr : ∀ setup, avRready s setup = false)
    (c : BitVec 5) (hc : (avQueue s (currentSetup s.out)).head? = some c) : c = b := by
  by_contra hne
  exact h (.inr ⟨hs, hr, .inr ⟨c, hne, hc⟩⟩)

/-! ### Waiting for the DATA packet -/

/-- The engine waits for a DATA packet. -/
structure Opened (s : State N) : Prop where
  rcvdOut : phase s = .rcvdOut
  dataPut : s.out.pe.outEpDataPut = false
  outMaxUsed : s.out.outMaxUsed.toNat ≤ 63
  rready : ∀ setup, avRready s setup = false

/-- The first cycle of a DATA packet: nothing of it has been strobed. -/
structure Started (s : State N) : Prop where
  dataStart : phase s = .rcvdDataStart
  dataPut : s.out.pe.outEpDataPut = false
  putAddr : s.out.pe.outEpPutAddr = 0
  stdWrite : s.out.stdWrite = false
  outMaxUsed : s.out.outMaxUsed.toNat ≤ 63
  rready : ∀ setup, avRready s setup = false

namespace Opened

variable {s : State N} {i : Input N}

theorem not_acked (h : Opened s) (i : Input N) : rxWvalid s i = false :=
  rxWvalid_eq_false i (by simp [h.rcvdOut])

/-- What is written while the engine waits is the last word of an earlier packet. -/
theorem harmless (h : Opened s) {b : BitVec 5} (hd : ¬Doomed b s) (i : Input N) :
    Harmless b s [i] :=
  harmless_cycle (h.not_acked i) h.rready
    (avRdata_of_memWrite (head_of_not_doomed hd (.inl h.rcvdOut) h.rready))

theorem outMaxUsed_step (h : Opened s) (i : Input N) :
    (step s i).out.outMaxUsed.toNat ≤ 63 := by
  obtain ⟨hack, hroll⟩ := open_of_phase (.inr h.rcvdOut) i
  rw [Device.outMaxUsed_step, outMaxUsedD_of_open hack hroll]
  split_ifs with hl hd
  · exact Nat.zero_le 63
  · exact absurd hd (by simp [h.dataPut])
  · exact absurd hd (by simp [h.dataPut])
  · exact absurd hd (by simp [h.dataPut])
  · exact h.outMaxUsed

theorem step (h : Opened s) (i : Input N) (hn : phase (step s i) = .rcvdOut) :
    Opened (Device.step s i) where
  rcvdOut := hn
  dataPut := by simp [dataPut_step, h.rcvdOut]
  outMaxUsed := h.outMaxUsed_step i
  rready := avRready_step_of_phase i (by simp [h.rcvdOut])

/-- The gap between the token and the DATA packet. -/
theorem gap (h : Opened s) {b : BitVec 5} (is : List (Input N))
    (hi : ∀ i ∈ is, NoEvent i ∧ Quiet b i) (hd : ¬Doomed b (run Device.step s is)) :
    Opened (run Device.step s is) ∧ Harmless b s is := by
  induction is generalizing s with
  | nil => exact ⟨h, harmless_nil b s⟩
  | cons i is ih =>
      have hrest : ∀ j ∈ is, NoEvent j ∧ Quiet b j := fun j hj => hi j (by simp [hj])
      have hnow : ¬Doomed b s := fun hnow => hd (doomed_run hnow _ fun j hj => (hi j hj).2)
      have hnext : ¬Doomed b (Device.step s i) := fun hnext =>
        hd (doomed_run hnext is fun j hj => (hrest j hj).2)
      have ho : phase (Device.step s i) = .rcvdOut := by
        have hphase := phase_step_rcvdOut h.rcvdOut (i := i)
        rw [(hi i (by simp)).1.1] at hphase
        simp only [Bool.false_eq_true, if_false] at hphase
        split_ifs at hphase
        · exact absurd (.inl hphase) hnext
        · exact absurd (.inl hphase) hnext
        · exact hphase
      obtain ⟨hopen, hharm⟩ := ih (h.step i ho) hrest hd
      exact ⟨hopen, (h.harmless hnow i).append hharm⟩

/-- The start of the DATA packet. -/
theorem start (h : Opened s) (i : Input N) (hn : phase (Device.step s i) = .rcvdDataStart) :
    Started (Device.step s i) where
  dataStart := hn
  dataPut := by simp [dataPut_step, h.rcvdOut]
  putAddr := by
    have hs : s.out.pe.outXactState = .rcvdOut := h.rcvdOut
    simp [step_pe, OutPe.step, hs]
  stdWrite := by
    have hstep : (Device.step s i).out.stdWrite =
        if i.linkReset then false else stdWriteD s.out := rfl
    simp [hstep, stdWriteD, h.dataPut]
  outMaxUsed := h.outMaxUsed_step i
  rready := avRready_step_of_phase i (by simp [h.rcvdOut])

end Opened

/-! ### Receiving the DATA packet -/

/-- The engine receives a DATA packet of which the bytes `L` have been strobed, and `Q` holds of
those that have passed. -/
structure Receiving (Q : List (BitVec 8) → State N → Prop) (L : List (BitVec 8)) (s : State N) :
    Prop where
  dataStart : phase s = .rcvdDataStart
  rready : ∀ setup, avRready s setup = false
  bytes : ∃ D, D ++ pending s = L ∧ Q D s

namespace Started

variable {s : State N}

omit [NeZero N] in
theorem receiving (h : Started s) {Q : List (BitVec 8) → State N → Prop} (hQ : Q [] s) :
    Receiving Q [] s :=
  ⟨h.dataStart, h.rready, [], by simp [pending, h.dataPut], hQ⟩

omit [NeZero N] in
theorem jammed_iff (h : Started s) : Jammed s ↔ s.out.outMaxUsed.toNat = 63 := by
  rw [Jammed, count_of_dataPut h.dataPut, ← BitVec.toNat_inj]
  rfl

omit [NeZero N] in
/-- With a counter that is not jammed every byte will be kept. -/
theorem stored (h : Started s) (hj : ¬Jammed s) (b : BitVec 5) : Stored b [] s where
  used := by
    have hu := h.outMaxUsed
    rw [h.jammed_iff] at hj
    exact .inl ⟨rfl, by omega⟩
  addr := by simp [h.putAddr]
  fullWord := by simp [h.stdWrite]
  head := by simp
  stored := by simp
  held := by simp

omit [NeZero N] in
/-- With a jammed counter none will. -/
theorem lost (h : Started s) (hj : Jammed s) (b : BitVec 5) : Lost b s.ram.mem [] s where
  used := by
    rw [h.jammed_iff] at hj
    simp [hj]
  stdWrite := h.stdWrite
  head := by simp
  kept := fun _ _ => rfl

end Started

namespace Receiving

variable {b : BitVec 5} {Q : List (BitVec 8) → State N → Prop} {L : List (BitVec 8)} {s : State N}
  {i : Input N}

/-- Either the byte is taken or the packet is doomed. -/
theorem step_or_doomed (hQ : Carried b Q) (h : Receiving Q L s) (hi : Quiet b i) :
    Receiving Q (L ++ strobe i) (step s i) ∨ Doomed b (step s i) := by
  have hphase := phase_step_dataStart h.dataStart hi.pktEnd
  have hr := avRready_step_of_phase i (s := s) (by simp [h.dataStart])
  have hcs := currentSetup_step (s := s) hi.pktEnd
  by_cases hl : i.linkReset = true
  · exact .inr (.inl (by simp [hphase, hl]))
  · have hn : phase (step s i) = .rcvdDataStart := by simp [hphase, hl]
    by_cases hd : Doomed b (step s i)
    · exact .inr hd
    · obtain ⟨D, hD, hq⟩ := h.bytes
      have hpass : Passing b s i :=
        { dataStart := h.dataStart
          linkReset := by simpa using hl
          rollback := by
            rw [OutPe.comb_dataStart_of_not_end (i := peInput s i) hi.pktEnd h.dataStart]
          nak := by
            rw [← Bool.not_eq_true]
            exact fun hnak => hd (.inr ⟨.inr hn, hr, .inl ⟨hn, hnak⟩⟩)
          noFifoReset := hi.noFifoReset
          rready := h.rready _
          setup := hcs
          head := fun c hc => by
            refine head_of_not_doomed hd (.inr hn) hr c ?_
            rw [hcs]
            exact head_avQueue_step hi.noFifoReset (h.rready _) hc
          noSwWrite := hi.noSwWrite }
      left
      refine ⟨hn, hr, D ++ pending s, ?_, hQ.pass hpass hq⟩
      rw [hD, pending_step h.dataStart]

/-- The USB side writes to the buffer of the packet only. -/
theorem harmless (hQ : Carried b Q) (h : Receiving Q L s) (i : Input N) : Harmless b s [i] := by
  have ha := rxWvalid_eq_false i (s := s) (by simp [h.dataStart])
  have ha' : (outComb s.out (outInput s i)).acked = false := ha
  obtain ⟨D, -, hq⟩ := h.bytes
  refine harmless_cycle ha h.rready fun hw => ?_
  simp only [memWrite, ha', Bool.and_false, Bool.or_false, Bool.and_eq_true] at hw
  exact avRdata_of_head s i (hQ.head hq (hQ.word hq hw.2))

/-- While the packet is not doomed every byte of it is taken. -/
theorem run (hQ : Carried b Q) (h : Receiving Q L s) (is : List (Input N))
    (hi : ∀ i ∈ is, Quiet b i) (hn : ¬Doomed b (Clocked.run step s is)) :
    Receiving Q (L ++ strobes is) (Clocked.run step s is) ∧ Harmless b s is := by
  induction is generalizing s L with
  | nil => exact ⟨by simpa [strobes] using h, harmless_nil b s⟩
  | cons i is ih =>
      have hrest : ∀ j ∈ is, Quiet b j := fun j hj => hi j (by simp [hj])
      rcases h.step_or_doomed hQ (hi i (by simp)) with hnext | hdoom
      · obtain ⟨hrecv, hharm⟩ := ih hnext hrest hn
        refine ⟨?_, (h.harmless hQ i).append hharm⟩
        simpa [strobes, List.append_assoc] using hrecv
      · exact absurd (doomed_run hdoom is hrest) hn

end Receiving

/-- Only the end of a valid DATA packet leads to the end-of-data states; the endpoint and the
kind of the transaction stay. -/
theorem step_of_dataEnd {s : State N} {i : Input N}
    (hn : phase (step s i) = .rcvdDataEnd ∨ phase (step s i) = .rcvdIsoDataEnd) :
    i.linkReset = false ∧ (OutPe.comb s.out.pe (peInput s i)).rollback = false ∧
      (step s i).out.pe.outEpCurrent = s.out.pe.outEpCurrent ∧
      currentSetup (step s i).out = currentSetup s.out := by
  have hl : i.linkReset = false := by
    cases hl : i.linkReset with
    | false => rfl
    | true => simp [phase_step, hl] at hn
  rw [phase_step, if_neg (by simp [hl])] at hn
  obtain ⟨-, hd, hroll, hx⟩ := OutPe.dataPacket_of_dataEnd hn
  have htok : ∀ d, i.rx.tokenReceived d = false := by
    intro d
    by_contra ht
    have hd' : i.rx.dataPacketReceived = true := hd
    rw [RxSignals.dataPacketReceived_of_tokenReceived (by simpa using ht)] at hd'
    exact Bool.noConfusion hd'
  have hcur : (step s i).out.pe.outEpCurrent = s.out.pe.outEpCurrent := by
    simp [step_pe, OutPe.step, hx]
  refine ⟨hl, hroll, hcur, ?_⟩
  rw [currentSetup, currentSetup, hcur]
  simp [step_pe, OutPe.step, OutPe.Input.setupTokenReceived, OutPe.Input.outTokenReceived, htok]

omit [NeZero N] in
theorem strobe_of_end {i : Input N} (hi : RxOk i) (he : i.rx.pktEnd = true) : strobe i = [] := by
  have : i.rx.dataPut = false := by
    by_contra hp
    simp [hi.strobe_end (by simpa using hp)] at he
  simp [strobe, this]

/-- The end of a DATA packet that may still be accepted. -/
theorem Receiving.last {b : BitVec 5} {Q : List (BitVec 8) → State N → Prop} (hQ : Carried b Q)
    {L : List (BitVec 8)} {s : State N} {i : Input N}
    (h : Receiving Q L s) (hf : NoFifoReset i) (hsw : NoSwWrite b i)
    (hn : phase (step s i) = .rcvdDataEnd ∨ phase (step s i) = .rcvdIsoDataEnd)
    (hnak : (step s i).out.pe.nakOutTransaction = false)
    (hhead : ∀ c, (avQueue s (currentSetup s.out)).head? = some c → c = b) :
    Q L (step s i) := by
  obtain ⟨hl, hroll, -, hcs⟩ := step_of_dataEnd hn
  obtain ⟨D, hD, hq⟩ := h.bytes
  have hpass : Passing b s i :=
    { dataStart := h.dataStart
      linkReset := hl
      rollback := hroll
      nak := hnak
      noFifoReset := hf
      rready := h.rready _
      setup := hcs
      head := hhead
      noSwWrite := hsw }
  have hst := hQ.pass hpass hq
  rwa [hD] at hst

/-! ### The transaction -/

/-- A token, the packet after it and two more cycles: the one in which the packet is
accepted and the one in which its buffer leaves the available FIFO. -/
structure OutTransaction (N : ℕ) where
  token : Packet N
  gap : List (Input N)
  data : Packet N
  after : Input N
  settle : Input N
  gap_noEvent : ∀ i ∈ gap, NoEvent i
  data_start : data.start.rx.dataPut = false

namespace OutTransaction

/-- The cycles after the token. -/
def window (x : OutTransaction N) : List (Input N) :=
  x.gap ++ (x.data.front ++ [x.data.last, x.after, x.settle])

/-- The token is a SETUP token. -/
def setup (x : OutTransaction N) : Bool := x.token.last.rx.pid == usbPidSetup

/-- The state after the token. -/
def opened (x : OutTransaction N) (s : State N) : State N := run step s x.token.cycles

/-- The state after the first cycle of the DATA packet. -/
def started (x : OutTransaction N) (s : State N) : State N :=
  step (run step (x.opened s) x.gap) x.data.start

/-- From there, the state in which the DATA packet ends, -/
def ending (x : OutTransaction N) (s : State N) : State N := run step s x.data.body

/-- and the state after it. -/
def answer (x : OutTransaction N) (s : State N) : State N := step (x.ending s) x.data.last

/-- The state in which the DATA packet ends. -/
def atEnd (x : OutTransaction N) (s : State N) : State N := x.ending (x.started s)

/-- The state after the DATA packet. -/
def atAnswer (x : OutTransaction N) (s : State N) : State N := x.answer (x.started s)

/-- The cycles after the first one of the DATA packet. -/
def rest (x : OutTransaction N) : List (Input N) := x.data.body ++ [x.data.last, x.after, x.settle]

/-- The state after the transaction. -/
def done (x : OutTransaction N) (s : State N) : State N := run step (x.opened s) x.window

/-- The engine acknowledges the transaction. -/
def Acked (x : OutTransaction N) (s : State N) : Prop := rxWvalid (x.atAnswer s) x.after = true

instance (x : OutTransaction N) (s : State N) : Decidable (x.Acked s) :=
  inferInstanceAs (Decidable (rxWvalid (x.atAnswer s) x.after = true))

/-- Software resets no FIFO and writes no word of buffer `b` during the transaction, and the
receiver keeps its promise. -/
structure Undisturbed (x : OutTransaction N) (b : BitVec 5) : Prop where
  rxOk : ∀ i ∈ x.token.cycles ++ x.window, RxOk i
  noFifoReset : ∀ i ∈ x.window, NoFifoReset i
  noSwWrite : ∀ i ∈ x.window, NoSwWrite b i

variable (x : OutTransaction N) {s : State N}

theorem phase_atAnswer (h : x.Acked s) : phase (x.atAnswer s) = .rcvdDataEnd ∨
    phase (x.atAnswer s) = .rcvdIsoDataEnd := (OutPe.acked_cases h).1

theorem phase_atEnd (h : x.Acked s) : phase (x.atEnd s) = .rcvdDataStart := by
  have hfront : phase (x.atEnd s) = .idle ∨ phase (x.atEnd s) = .rcvdDataStart := phase_front _ _
  rcases hfront with hs | hs
  · have hans := x.phase_atAnswer h
    unfold atAnswer answer at hans
    unfold atEnd at hs
    rcases phase_step_idle_end hs (i := x.data.last) with hn | ⟨hn, -⟩ <;> simp [hn] at hans
  · exact hs

theorem phase_started (h : x.Acked s) : phase (x.started s) = .rcvdDataStart := by
  rcases phase_step_start (run step (x.opened s) x.gap) x.data.start_pktStart
    x.data.start_pktEnd with hn | hn
  · have hidle : phase (x.atEnd s) = .idle := phase_run_noEvent_idle hn x.data.body x.data.body_pktEnd
    rw [x.phase_atEnd h] at hidle
    exact XactState.noConfusion hidle
  · exact hn

/-- An acknowledged transaction was opened by its token. -/
theorem phase_opened (h : x.Acked s) : phase (x.opened s) = .rcvdOut := by
  have hback := phase_of_run_dataStart (s := x.opened s) (x.gap ++ x.data.front) ?_
    (by rw [run_append]; exact x.phase_atEnd h)
  · exact hback.resolve_right (phase_packet s x.token)
  · intro i hi
    rcases List.mem_append.mp hi with hi | hi
    · exact (x.gap_noEvent i hi).2
    · exact x.data.front_pktEnd i hi

/-- What the token leaves behind. -/
theorem opened_spec (h : x.Acked s) (hc : Bounded s) (hi : ∀ i ∈ x.token.cycles, RxOk i) :
    Opened (x.opened s) ∧ (x.opened s).out.pe.outEpCurrent = x.token.last.rx.epCurrentD ∧
      currentSetup (x.opened s).out = x.setup := by
  have hphase := x.phase_opened h
  have hbound : Bounded (x.opened s) := hc.run _ hi
  have heq : x.opened s = step (run step s x.token.front) x.token.last := by
    simp [opened, Packet.cycles, run_append]
  have hidle : phase (run step s x.token.front) = .idle := by
    rcases phase_front s x.token with hs | hs
    · exact hs
    · rw [heq] at hphase
      rcases phase_step_dataStart_end hs x.token.last_pktEnd with hn | hn | hn <;>
        simp [hn] at hphase
  rw [heq] at hphase hbound ⊢
  generalize run step s x.token.front = s' at *
  have hx : (OutPe.comb s'.out.pe (peInput s' x.token.last)).xactStart = true := by
    rcases phase_step_idle_end hidle (i := x.token.last) with hn | ⟨-, hx⟩
    · simp [hn] at hphase
    · exact hx
  obtain ⟨-, hcur, hsetup⟩ := OutPe.step_of_xactStart hx
  refine ⟨?_, hcur, ?_⟩
  · constructor
    · exact hphase
    · simp [dataPut_step, hidle]
    · exact hbound.outMaxUsed (.inr hphase)
    · exact avRready_step_of_phase _ (by simp [hidle])
  · rw [currentSetup, step_pe, hcur]
    exact hsetup

omit [NeZero N] in
theorem strobes_cycles (hi : RxOk x.data.last) :
    strobes x.data.cycles = strobes x.data.body := by
  have hlast : strobe x.data.last = [] := strobe_of_end hi x.data.last_pktEnd
  have hstart : strobe x.data.start = [] := by simp [strobe, x.data_start]
  simp [strobes, Packet.cycles, Packet.front, hlast, hstart]

/-- The endpoint and the kind of an acknowledged transaction are those of its token. -/
theorem current_atAnswer (h : x.Acked s) (hc : Bounded s) (hi : ∀ i ∈ x.token.cycles, RxOk i) :
    (x.atAnswer s).out.pe.outEpCurrent = x.token.last.rx.epCurrentD ∧
      currentSetup (x.atAnswer s).out = x.setup := by
  obtain ⟨-, hcur, hsetup⟩ := x.opened_spec h hc hi
  obtain ⟨-, -, hcurLast, hcsLast⟩ := step_of_dataEnd (x.phase_atAnswer h)
  have heq : x.atEnd s = run step (x.opened s) (x.gap ++ x.data.front) := by
    rw [run_append]
    rfl
  have hcurrent := current_run (x.opened s) (x.gap ++ x.data.front) fun i hi => by
    rcases List.mem_append.mp hi with hi | hi
    · exact (x.gap_noEvent i hi).2
    · exact x.data.front_pktEnd i hi
  rw [← heq] at hcurrent
  exact ⟨by rw [atAnswer, answer, hcurLast, ← hcur, ← hcurrent.1]; rfl,
    by rw [atAnswer, answer, hcsLast, ← hsetup, ← hcurrent.2]; rfl⟩

omit [NeZero N] in
theorem quiet_gap {b : BitVec 5} (hu : x.Undisturbed b) : ∀ i ∈ x.gap, NoEvent i ∧ Quiet b i := by
  intro i hi
  have hw : i ∈ x.window := by simp [window, hi]
  have hev := x.gap_noEvent i hi
  exact ⟨hev, hev.2, hu.noFifoReset i hw, hu.noSwWrite i hw⟩

omit [NeZero N] in
theorem quiet_front {b : BitVec 5} (hu : x.Undisturbed b) : ∀ i ∈ x.data.front, Quiet b i := by
  intro i hi
  have hw : i ∈ x.window := by simp [window, hi]
  exact ⟨x.data.front_pktEnd i hi, hu.noFifoReset i hw, hu.noSwWrite i hw⟩

omit [NeZero N] in
theorem quiet_body {b : BitVec 5} (hu : x.Undisturbed b) : ∀ i ∈ x.data.body, Quiet b i :=
  fun i hi => x.quiet_front hu i (List.mem_cons_of_mem _ hi)

/-- A packet that is accepted into buffer `b` was not doomed when it ended. -/
theorem not_doomed_ending {b : BitVec 5} (hu : x.Undisturbed b)
    (hs : phase (x.ending s) = .rcvdDataStart) (hack : rxWvalid (x.answer s) x.after = true)
    (hb : (avQueue (x.answer s) (currentSetup (x.answer s).out)).head? = some b) :
    ¬Doomed b (x.ending s) := by
  obtain ⟨hend, hnak, -⟩ := OutPe.acked_cases hack
  obtain ⟨-, -, -, hcs⟩ := step_of_dataEnd hend
  have hmem : x.data.last ∈ x.window := by simp [window]
  rintro (hidle | ⟨-, hr, ⟨-, hnak'⟩ | ⟨c, hne, hc⟩⟩)
  · simp [hs] at hidle
  · rw [answer, Passing.nak_step _ _ hs, hnak'] at hnak
    split_ifs at hnak
  · have hc' := head_avQueue_step (hu.noFifoReset _ hmem) (hr _) hc
    rw [← hcs] at hc'
    rw [answer, hc'] at hb
    exact hne (Option.some.inj hb)

/-- The two cycles that end an accepted transaction: the entry is posted, then the buffer
leaves its FIFO. -/
theorem accept_settle {a : State N} {after settle : Input N} {b : BitVec 5}
    (hack : rxWvalid a after = true)
    (hhead : (avQueue a (currentSetup a.out)).head? = some b)
    (hput : a.out.pe.outEpDataPut = false) (hr : ∀ setup, avRready a setup = false)
    (hf : NoFifoReset after) (hsw : NoSwWrite b settle) :
    (∀ w ∈ written a [after, settle], bufferOf w = b) ∧
      posted a [after, settle] = [rxWdata a after] ∧
      popped a [after, settle] (currentSetup a.out) = [b] ∧
      popped a [after, settle] (!currentSetup a.out) = [] ∧
      ∀ k < 64, bufferByte (step (step a after) settle).ram.mem b (BitVec.ofNat 6 k) =
        bufferByte (step a after).ram.mem b (BitVec.ofNat 6 k) := by
  have hdata := avRdata_of_head a after hhead
  have hphase : phase (step a after) = .idle := phase_step_dataEnd (OutPe.acked_cases hack).1
  have hquiet : rxWvalid (step a after) settle = false :=
    rxWvalid_eq_false settle (by simp [hphase])
  have hstd : (step a after).out.stdWrite = false := by
    have : (step a after).out.stdWrite =
        if after.linkReset then false else stdWriteD a.out := rfl
    rw [this]
    split_ifs
    · rfl
    · simp [stdWriteD, hput]
  have hidle : memWrite (step a after).out (outInput (step a after) settle) = false := by
    have hquiet' : (outComb (step a after).out (outInput (step a after) settle)).acked = false :=
      hquiet
    simp [memWrite, hstd, hquiet']
  have hhead' : (avQueue (step a after) (currentSetup a.out)).head? = some b :=
    head_avQueue_step hf (hr _) hhead
  refine ⟨?_, ?_, ?_, ?_, ?_⟩
  · intro w hw
    simp only [written, log_cons, log_nil, usbWrite, hidle, Bool.false_eq_true, if_false,
      Option.toList_none, List.append_nil] at hw
    split_ifs at hw
    · simp only [Option.toList_some, List.mem_singleton] at hw
      rw [hw, memWaddr, bufferOf_append, hdata]
    · simp at hw
  · have hidlePush : rxPush (step a after) settle = none := by simp [rxPush, hquiet]
    simp [posted, rxPush_of_acked hack, hidlePush]
  · have hasked : avRready (step a after) (currentSetup a.out) = true := by
      simp [avRready_step, hack]
    have hpop := avPop_of_head settle hasked hhead'
    simp [popped, avPop_eq_none a after _ (hr _), hpop]
  · have hnone : avRready (step a after) (!currentSetup a.out) = false := by
      rw [avRready_step]
      cases currentSetup a.out <;> simp
    simp [popped, avPop_eq_none a after _ (hr _), avPop_eq_none _ settle _ hnone]
  · intro k hk
    rw [bufferByte_step hsw (by simp [hidle]) hk, if_neg (by simp [hidle])]

/-- What an accepted DATA packet does from its first cycle on, whatever becomes of its bytes. -/
structure Accepted (x : OutTransaction N) (s : State N) (b : BitVec 5) : Prop where
  harmless : Harmless b s (x.data.body ++ [x.data.last])
  written : ∀ a ∈ written (x.answer s) [x.after, x.settle], bufferOf a = b
  posted : posted (x.answer s) [x.after, x.settle] = [rxWdata (x.answer s) x.after]
  taken : popped (x.answer s) [x.after, x.settle] (currentSetup (x.answer s).out) = [b]
  untouched : popped (x.answer s) [x.after, x.settle] (!currentSetup (x.answer s).out) = []
  ram : ∀ k < 64, bufferByte (run step s x.rest).ram.mem b (BitVec.ofNat 6 k) =
    bufferByte (step (x.answer s) x.after).ram.mem b (BitVec.ofNat 6 k)

/-- An accepted DATA packet from its first cycle on, with what is kept of its bytes. -/
theorem accepted_spec {b : BitVec 5} {Q : List (BitVec 8) → State N → Prop} (hQ : Carried b Q)
    (hs : Started s) (hq : Q [] s) (hu : x.Undisturbed b)
    (hack : rxWvalid (x.answer s) x.after = true)
    (hb : (avQueue (x.answer s) (currentSetup (x.answer s).out)).head? = some b) :
    Q (strobes x.data.cycles) (x.answer s) ∧ x.Accepted s b := by
  obtain ⟨hend, hnak, -⟩ := OutPe.acked_cases hack
  have hrx : RxOk x.data.last := hu.rxOk _ (by simp [window])
  have hmem : x.data.last ∈ x.window := by simp [window]
  have hsettle : x.settle ∈ x.window := by simp [window]
  have hending : phase (x.ending s) = .rcvdDataStart := by
    have hfront : phase (x.ending s) = .idle ∨ phase (x.ending s) = .rcvdDataStart := by
      refine run_invariant (fun s : State N => phase s = .idle ∨ phase s = .rcvdDataStart)
        (fun i => i.rx.pktEnd = false) ?_ (.inr hs.dataStart) x.data.body x.data.body_pktEnd
      rintro s i he (hs | hs)
      · exact .inl (phase_step_idle hs he)
      · rw [phase_step_dataStart hs he]
        cases i.linkReset <;> simp
    rcases hfront with hn | hn
    · rcases phase_step_idle_end hn (i := x.data.last) with hn' | ⟨hn', -⟩ <;>
      · have hans : phase (x.answer s) = _ := hn'
        unfold phase at hans
        simp [hans] at hend
    · exact hn
  have hnot := x.not_doomed_ending hu hending hack hb
  obtain ⟨hrecv, hharm⟩ := (hs.receiving hq).run hQ x.data.body (x.quiet_body hu) hnot
  have hst := hrecv.last hQ (hu.noFifoReset _ hmem) (hu.noSwWrite _ hmem) hend hnak
    (head_of_not_doomed hnot (.inr hending) hrecv.rready)
  rw [List.nil_append, ← strobes_cycles x hrx] at hst
  have hput : (x.answer s).out.pe.outEpDataPut = false := by
    have hlast := strobe_of_end hrx x.data.last_pktEnd
    rw [answer, dataPut_step]
    by_contra hp
    simp only [Bool.not_eq_false, Bool.and_eq_true] at hp
    simp [strobe, hp.2] at hlast
  have hready : ∀ setup, avRready (x.answer s) setup = false :=
    avRready_step_of_phase _ (by simp [hending])
  obtain ⟨hwr, hpost, htake, hother, hram⟩ := accept_settle hack hb hput hready
    (hu.noFifoReset x.after (by simp [window])) (hu.noSwWrite x.settle hsettle)
  refine ⟨hst, hharm.append (hrecv.harmless hQ x.data.last), hwr, hpost, htake, hother, ?_⟩
  intro k hk
  rw [rest, run_append]
  exact hram k hk

/-- The transaction up to the first cycle of its DATA packet. -/
theorem started_spec (h : x.Acked s) (hc : Bounded s) {b : BitVec 5} (hu : x.Undisturbed b)
    (hb : (avQueue (x.atAnswer s) (currentSetup (x.atAnswer s).out)).head? = some b) :
    Started (x.started s) ∧ Harmless b (x.opened s) (x.gap ++ [x.data.start]) := by
  obtain ⟨hopen, -, -⟩ := x.opened_spec h hc fun i hi => hu.rxOk i (by simp [hi])
  have hnot : ¬Doomed b (run step (run step (x.opened s) x.gap) x.data.front) :=
    x.not_doomed_ending hu (x.phase_atEnd h) h hb
  have hgap : ¬Doomed b (run step (x.opened s) x.gap) := fun hd =>
    hnot (doomed_run hd _ (x.quiet_front hu))
  obtain ⟨hopen', hharm⟩ := hopen.gap x.gap (x.quiet_gap hu) hgap
  exact ⟨hopen'.start x.data.start (x.phase_started h), hharm.append (hopen'.harmless hgap _)⟩

/-- A transaction that delivered `payload` in buffer `b`. -/
structure Delivered (x : OutTransaction N) (s : State N) (b : BitVec 5)
    (payload : List (BitVec 8)) : Prop where
  stored : bufferBytes (x.done s).ram.mem b (min payload.length 64) = payload.take 64
  written : ∀ a ∈ written (x.opened s) x.window, bufferOf a = b
  posted : posted (x.opened s) x.window =
    [⟨x.token.last.rx.epCurrentD, x.setup, BitVec.ofNat 7 (min payload.length 64), b⟩]
  taken : popped (x.opened s) x.window x.setup = [b]
  untouched : popped (x.opened s) x.window (!x.setup) = []

omit [NeZero N] in
theorem window_eq : x.window =
    (x.gap ++ [x.data.start]) ++ ((x.data.body ++ [x.data.last]) ++ [x.after, x.settle]) := by
  simp [window, Packet.front]

theorem run_start : run step (x.opened s) (x.gap ++ [x.data.start]) = x.started s := by
  rw [run_append]
  rfl

theorem run_data : run step (x.started s) (x.data.body ++ [x.data.last]) = x.atAnswer s := by
  rw [run_append]
  rfl

/-- What a run through the transaction records. -/
theorem log_window {α : Type*} (f : State N → Input N → Option α) (s : State N) :
    log step f (x.opened s) x.window = log step f (x.opened s) (x.gap ++ [x.data.start]) ++
      (log step f (x.started s) (x.data.body ++ [x.data.last]) ++
        log step f (x.atAnswer s) [x.after, x.settle]) := by
  rw [window_eq, log_append _ _ _ (x.gap ++ [x.data.start]), run_start,
    log_append _ _ _ (x.data.body ++ [x.data.last]), run_data]

theorem done_eq : x.done s = run step (x.started s) x.rest := by
  rw [done, window_eq, run_append, run_start, rest]
  simp

/-- An accepted packet delivers its payload if its entry and the bytes of its buffer are
right. -/
theorem Accepted.delivered_iff {x : OutTransaction N} {b : BitVec 5} {payload : List (BitVec 8)}
    (ha : x.Accepted (x.started s) b) (h : x.Acked s) (hc : Bounded s) (hu : x.Undisturbed b)
    (hs : Harmless b (x.opened s) (x.gap ++ [x.data.start])) :
    x.Delivered s b payload ↔
      bufferBytes (x.done s).ram.mem b (min payload.length 64) = payload.take 64 ∧
        rxWdata (x.atAnswer s) x.after =
          ⟨x.token.last.rx.epCurrentD, x.setup, BitVec.ofNat 7 (min payload.length 64), b⟩ := by
  obtain ⟨-, hsetup⟩ := x.current_atAnswer h hc fun i hi => hu.rxOk i (by simp [hi])
  have hposted : Device.posted (x.opened s) x.window = [rxWdata (x.atAnswer s) x.after] := by
    have h1 := hs.posted
    have h2 := ha.harmless.posted
    have h3 := ha.posted
    unfold Device.posted at h1 h2 h3 ⊢
    rw [log_window, h1, h2]
    exact h3
  have hpopped : ∀ setup, Device.popped (x.opened s) x.window setup =
      Device.popped (x.atAnswer s) [x.after, x.settle] setup := by
    intro setup
    have h1 := hs.popped setup
    have h2 := ha.harmless.popped setup
    unfold Device.popped at h1 h2 ⊢
    rw [log_window, h1, h2, List.nil_append, List.nil_append]
  constructor
  · intro hd
    have hentry := hd.posted
    rw [hposted] at hentry
    exact ⟨hd.stored, List.singleton_inj.1 hentry⟩
  · rintro ⟨hstored, hentry⟩
    have htaken : Device.popped (x.atAnswer s) [x.after, x.settle]
        (currentSetup (x.atAnswer s).out) = [b] := ha.taken
    have huntouched : Device.popped (x.atAnswer s) [x.after, x.settle]
        (!currentSetup (x.atAnswer s).out) = [] := ha.untouched
    rw [hsetup] at htaken huntouched
    refine ⟨hstored, ?_, by rw [hposted, hentry], by rw [hpopped, htaken],
      by rw [hpopped, huntouched]⟩
    intro a hmem
    rw [Device.written, log_window, List.mem_append, List.mem_append] at hmem
    obtain hmem | hmem | hmem := hmem
    · exact hs.written a hmem
    · exact ha.harmless.written a hmem
    · exact ha.written a hmem

/-- With a counter that is not jammed the packet is stored, -/
theorem stored_of_not_jammed {b : BitVec 5} (hs : Started s) (hj : ¬Jammed s)
    (hu : x.Undisturbed b) (hack : rxWvalid (x.answer s) x.after = true)
    (hb : (avQueue (x.answer s) (currentSetup (x.answer s).out)).head? = some b)
    {payload : List (BitVec 8)} {c₁ c₂ : BitVec 8}
    (hbytes : strobes x.data.cycles = payload ++ [c₁, c₂]) :
    x.Accepted s b ∧
      bufferBytes (run step s x.rest).ram.mem b (min payload.length 64) = payload.take 64 ∧
      rxWdata (x.answer s) x.after =
        ⟨(x.answer s).out.pe.outEpCurrent, currentSetup (x.answer s).out,
          BitVec.ofNat 7 (min payload.length 64), b⟩ := by
  obtain ⟨hst, hacc⟩ := x.accepted_spec (carried_stored b) hs (hs.stored hj b) hu hack hb
  refine ⟨hacc, ?_, hst.rxWdata_eq hbytes⟩
  apply bufferBytes_eq_take
  intro k y hy hk
  rw [hacc.ram k hk]
  exact hst.accepted hbytes hack (hu.noSwWrite x.after (by simp [window])) hy hk

/-- and with a jammed one nothing of it, under the entry of a full buffer. -/
theorem lost_of_jammed {b : BitVec 5} (hs : Started s) (hj : Jammed s)
    (hu : x.Undisturbed b) (hack : rxWvalid (x.answer s) x.after = true)
    (hb : (avQueue (x.answer s) (currentSetup (x.answer s).out)).head? = some b)
    {payload : List (BitVec 8)} {c₁ c₂ : BitVec 8}
    (hbytes : strobes x.data.cycles = payload ++ [c₁, c₂]) :
    x.Accepted s b ∧
      bufferBytes (run step s x.rest).ram.mem b (min payload.length 64) =
        bufferBytes s.ram.mem b (min payload.length 64) ∧
      rxWdata (x.answer s) x.after =
        ⟨(x.answer s).out.pe.outEpCurrent, currentSetup (x.answer s).out, 64#7, b⟩ := by
  obtain ⟨hst, hacc⟩ := x.accepted_spec (carried_lost b s.ram.mem) hs (hs.lost hj b) hu hack hb
  have hlen : 2 ≤ (strobes x.data.cycles).length := by simp [hbytes]
  refine ⟨hacc, ?_, hst.rxWdata_eq hlen⟩
  apply bufferBytes_eq_of_byte
  intro k hk
  rw [hacc.ram k (by omega)]
  exact hst.accepted hlen (hu.noSwWrite x.after (by simp [window])) (by omega)

/-- The OUT data path: whatever the length of the payload, an acknowledged transaction from a
reachable state stores its first 64 bytes in the buffer at the head of the selected
available FIFO, writes no other buffer, posts one entry for it and takes one id, exactly if the
length counter is not jammed when the DATA packet starts. Otherwise nothing is stored under an
entry of 64 bytes, which is right only for a full buffer that held the payload before. -/
theorem payload_delivered_iff {setup₀ : Fin 4 → BitVec 5} {out₀ : Fin 8 → BitVec 5}
    {rx₀ : Fin 8 → RxEntry N} {mem₀ : BitVec 9 → BitVec 32} {rdata₀ : BitVec 32}
    (hr : Reachable step RxAllowed (State.reset setup₀ out₀ rx₀ mem₀ rdata₀) s) (h : x.Acked s)
    {b : BitVec 5} (hu : x.Undisturbed b)
    (hb : (avQueue (x.atAnswer s) x.setup).head? = some b)
    {payload : List (BitVec 8)} {c₁ c₂ : BitVec 8}
    (hbytes : strobes x.data.cycles = payload ++ [c₁, c₂]) :
    x.Delivered s b payload ↔ ¬Jammed (x.started s) ∨
      64 ≤ payload.length ∧ bufferBytes (x.started s).ram.mem b 64 = payload.take 64 := by
  have hc := bounded_of_reachable (bounded_reset _ _ _ _ _) hr
  obtain ⟨hcur, hsetup⟩ := x.current_atAnswer h hc fun i hi => hu.rxOk i (by simp [hi])
  rw [← hsetup] at hb
  obtain ⟨hstarted, hharm⟩ := x.started_spec h hc hu hb
  by_cases hj : Jammed (x.started s)
  · obtain ⟨hacc, hram, hentry⟩ := x.lost_of_jammed hstarted hj hu h hb hbytes
    rw [hacc.delivered_iff h hc hu hharm, done_eq, hram, atAnswer, hentry]
    have hsize : 64#7 = BitVec.ofNat 7 (min payload.length 64) ↔ 64 ≤ payload.length := by
      rw [← BitVec.toNat_inj, BitVec.toNat_ofNat, BitVec.toNat_ofNat]
      omega
    rw [RxEntry.mk.injEq, hsize]
    simp only [hj, not_true_eq_false, false_or]
    constructor
    · rintro ⟨hsame, -, -, hlen, -⟩
      rw [Nat.min_eq_right hlen] at hsame
      exact ⟨hlen, hsame⟩
    · rintro ⟨hlen, hsame⟩
      rw [Nat.min_eq_right hlen]
      exact ⟨hsame, hcur, hsetup, hlen, trivial⟩
  · obtain ⟨hacc, hram, hentry⟩ := x.stored_of_not_jammed hstarted hj hu h hb hbytes
    rw [hacc.delivered_iff h hc hu hharm, done_eq, hram, atAnswer, hentry]
    refine iff_of_true ⟨rfl, ?_⟩ (.inl hj)
    rw [← hsetup, ← hcur]
    rfl

/-- Three bytes for OUT endpoint 1. -/
def threeBytes : OutTransaction 12 where
  token := tokenPacket usbPidOut 1
  gap := [cycle (rxQuiet 1)]
  data := dataPacket usbPidData0 1 [0x11, 0x22, 0x33, 0xa5, 0x5a]
  after := cycle (rxQuiet 1)
  settle := cycle (rxQuiet 1)
  gap_noEvent := by simp [NoEvent, cycle, rxQuiet]
  data_start := rfl

theorem undisturbed_threeBytes : threeBytes.Undisturbed 5 where
  rxOk := by
    simp only [window, threeBytes, tokenPacket, dataPacket, Packet.cycles, Packet.front]
    simp [rxOk_cycle, rxStart, rxEnd, rxQuiet, rxByte]
  noFifoReset := by
    simp [window, threeBytes, tokenPacket, dataPacket, Packet.front, NoFifoReset, cycle]
  noSwWrite := by
    simp [window, threeBytes, tokenPacket, dataPacket, Packet.front, NoSwWrite, cycle]

theorem payload_delivered_threeBytes :
    threeBytes.Delivered suppliedDevice 5 [0x11, 0x22, 0x33] :=
  (payload_delivered_iff threeBytes reachable_suppliedDevice (by decide) undisturbed_threeBytes
    (by decide) (show strobes threeBytes.data.cycles = [0x11, 0x22, 0x33] ++ [0xa5, 0x5a]
      by decide)).2 (.inl (by decide))

/-- An OUT packet of which 64 bytes are strobed, four cycles apart. The link is reset in the cycle
of the last strobe. -/
def severed : List (Input 12) :=
  (tokenPacket usbPidOut 1).cycles ++ cycle (rxStart 1) ::
    ((List.replicate 63 (cycle (rxByte 1 0x44) :: List.replicate 3 (cycle (rxQuiet 1)))).flatten ++
      { cycle (rxByte 1 0x44) with linkReset := true } :: List.replicate 4 (cycle (rxQuiet 1)))

theorem rxOk_severed : ∀ i ∈ severed, RxOk i := by
  intro i hi
  simp only [severed, tokenPacket, Packet.cycles, Packet.front, List.mem_append, List.mem_cons,
    List.mem_flatten, List.mem_replicate, List.not_mem_nil, or_false] at hi
  obtain (rfl | rfl) | rfl | ⟨l, ⟨-, rfl⟩, hi⟩ | rfl | ⟨-, rfl⟩ := hi
  case inr.inr.inl =>
    simp only [List.mem_cons, List.mem_replicate] at hi
    obtain rfl | ⟨-, rfl⟩ := hi <;> exact rxOk_cycle _ _ (by decide)
  case inr.inr.inr.inl => exact ⟨fun _ => rfl⟩
  all_goals exact rxOk_cycle _ _ (by decide)

theorem reachable_severed :
    Reachable step RxAllowed clearedDevice (run step suppliedDevice severed) :=
  reachable_suppliedDevice.run severed fun i hi _ => rxOk_severed i hi

/-- The next packet, of three bytes, is acknowledged under an entry of 64 bytes. -/
theorem posted_severed : threeBytes.Acked (run step suppliedDevice severed) ∧
    posted (threeBytes.opened (run step suppliedDevice severed)) threeBytes.window =
      [⟨1, false, 64, 5⟩] := by
  decide +kernel

theorem not_forall_delivered :
    ¬ ∀ s : State 12, Reachable step RxAllowed clearedDevice s →
      ∀ (x : OutTransaction 12) (b : BitVec 5) (payload : List (BitVec 8)) (c₁ c₂ : BitVec 8),
        x.Acked s → x.Undisturbed b → (avQueue (x.atAnswer s) x.setup).head? = some b →
        strobes x.data.cycles = payload ++ [c₁, c₂] → x.Delivered s b payload := by
  intro hall
  obtain ⟨hack, hposted⟩ := posted_severed
  have hdelivered := hall _ reachable_severed threeBytes 5 [0x11, 0x22, 0x33] 0xa5 0x5a hack
    undisturbed_threeBytes (by decide +kernel) (by decide)
  rw [hdelivered.posted] at hposted
  exact absurd hposted (by decide)

end OutTransaction

end UsbDev.Device
