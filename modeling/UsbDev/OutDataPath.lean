import UsbDev.Traffic

/-!
# The OUT data path

How the bytes of a DATA packet reach the packet RAM. `Stored` relates the length
counter, the put address, the word register and the RAM to the list of bytes
that have passed; one cycle extends the list by the byte strobed before. A
packet that is acknowledged has kept the relation to its end, whatever its
length, so its buffer holds what was sent.
-/
namespace UsbDev.Device

open Clocked UsbIf
open OutPe (XactState)

variable {N : ℕ}

/-! ### The available buffer FIFOs -/

/-- The ids waiting in the available SETUP or OUT buffer FIFO. -/
def avQueue (s : State N) (setup : Bool) : List (BitVec 5) :=
  if setup then s.avsetup.toList else s.avout.toList

/-- The id that leaves the FIFO in this cycle. -/
def avPop (s : State N) (i : Input N) (setup : Bool) : Option (BitVec 5) :=
  if setup then s.avsetup.popped (avsetupIn s i) else s.avout.popped (avoutIn s i)

/-- The id that the FIFO accepts from software in this cycle. -/
def avAccept (s : State N) (i : Input N) (setup : Bool) : Option (BitVec 5) :=
  if setup then s.avsetup.accepted (avsetupIn s i) else s.avout.accepted (avoutIn s i)

/-- `avsetup_rready` or `avout_rready`. -/
def avRready (s : State N) (setup : Bool) : Bool :=
  if setup then s.out.avsetupRready else s.out.avoutRready

/-- No FIFO reset by software. -/
def NoFifoReset (i : Input N) : Prop :=
  i.sw.avsetupRst = false ∧ i.sw.avoutRst = false ∧ i.sw.rxRst = false

theorem avQueue_step [NeZero N] (s : State N) {i : Input N} (h : NoFifoReset i) (setup : Bool) :
    (avPop s i setup).toList ++ avQueue (step s i) setup =
      avQueue s setup ++ (avAccept s i setup).toList := by
  cases setup
  · exact s.avout.popped_append_toList_step (avoutIn s i) h.2.1
  · exact s.avsetup.popped_append_toList_step (avsetupIn s i) h.1

theorem avPop_eq_none (s : State N) (i : Input N) (setup : Bool) (h : avRready s setup = false) :
    avPop s i setup = none := by
  cases setup
  · exact s.avout.popped_eq_none _ h
  · exact s.avsetup.popped_eq_none _ h

theorem avPop_of_head {s : State N} {setup : Bool} {b : BitVec 5} (i : Input N)
    (h : avRready s setup = true) (hb : (avQueue s setup).head? = some b) :
    avPop s i setup = some b := by
  cases setup
  · exact s.avout.popped_of_head _ h hb
  · exact s.avsetup.popped_of_head _ h hb

theorem avRvalid_iff (s : State N) (i : Input N) :
    avRvalid s.out (outInput s i) = true ↔ avQueue s (currentSetup s.out) ≠ [] := by
  simp only [avRvalid, avQueue, outInput]
  cases currentSetup s.out
  · simpa using s.avout.rvalid_iff
  · simpa using s.avsetup.rvalid_iff

/-- The head of the selected FIFO is the buffer that the packet is written to. -/
theorem avRdata_of_head (s : State N) (i : Input N) {b : BitVec 5}
    (h : (avQueue s (currentSetup s.out)).head? = some b) :
    avRdata s.out (outInput s i) = b := by
  simp only [avRdata, avQueue, outInput] at h ⊢
  cases hc : currentSetup s.out <;> simp only [hc, Bool.false_eq_true, if_false, if_true] at h ⊢
  · exact s.avout.rdata_of_head h
  · exact s.avsetup.rdata_of_head h

/-- Without a pop the head of a FIFO stays. -/
theorem head_avQueue_step [NeZero N] {s : State N} {i : Input N} (h : NoFifoReset i)
    {setup : Bool} (hr : avRready s setup = false) {b : BitVec 5}
    (hb : (avQueue s setup).head? = some b) : (avQueue (step s i) setup).head? = some b := by
  have hq := avQueue_step s h setup
  rw [avPop_eq_none s i setup hr] at hq
  simp only [Option.toList_none, List.nil_append] at hq
  rw [hq, List.head?_append, hb]
  rfl

variable [NeZero N]

/-! ### Between packets -/

/-- A cycle that ends a transaction clears the length counter. -/
theorem outMaxUsed_step (s : State N) (i : Input N) :
    (step s i).out.outMaxUsed = if i.linkReset then 0 else outMaxUsedD s.out (outInput s i) := rfl

theorem dataPut_step (s : State N) (i : Input N) :
    (step s i).out.pe.outEpDataPut = (phase s == .rcvdDataStart && i.rx.dataPut) := rfl

theorem outMaxUsedD_of_ended {s : State N} {i : Input N}
    (h : (OutPe.comb s.out.pe (peInput s i)).acked = true ∨
      (OutPe.comb s.out.pe (peInput s i)).rollback = true) :
    outMaxUsedD s.out (outInput s i) = 0 := by
  simp only [outMaxUsedD, outComb_eq]
  rcases h with h | h <;> simp [h]

/-- While a packet is neither accepted nor given up its bytes are counted. -/
theorem outMaxUsedD_of_open {s : State N} {i : Input N}
    (ha : (OutPe.comb s.out.pe (peInput s i)).acked = false)
    (hr : (OutPe.comb s.out.pe (peInput s i)).rollback = false) :
    outMaxUsedD s.out (outInput s i) =
      if s.out.pe.outEpDataPut then
        if s.out.outMaxUsed.toNat < 63 then s.out.pe.outEpPutAddr.setWidth 7
        else if s.out.outMaxUsed.toNat < 65 then s.out.outMaxUsed + 1
        else s.out.outMaxUsed
      else s.out.outMaxUsed := by
  simp only [outMaxUsedD, outComb_eq, ha, hr, Bool.or_self, Bool.false_eq_true, if_false]

theorem open_of_phase {s : State N} (hs : phase s = .idle ∨ phase s = .rcvdOut) (i : Input N) :
    (OutPe.comb s.out.pe (peInput s i)).acked = false ∧
      (OutPe.comb s.out.pe (peInput s i)).rollback = false := by
  unfold phase at hs
  unfold OutPe.comb
  rcases hs with hs | hs <;> simp only [hs] <;> split_ifs <;> simp

/-- Outside a DATA packet a byte is on its way only right after a link reset, which has cleared
the length counter, and the counter is within the buffer. -/
structure Bounded (s : State N) : Prop where
  dataPut : phase s ≠ .rcvdDataStart → s.out.pe.outEpDataPut = true →
    phase s = .idle ∧ s.out.outMaxUsed = 0
  outMaxUsed : phase s = .idle ∨ phase s = .rcvdOut → s.out.outMaxUsed.toNat ≤ 63

theorem bounded_reset (a b r m d) : Bounded (State.reset a b r m d : State N) := by
  constructor
  · intro _ hd
    exact Bool.noConfusion hd
  · intro _
    exact Nat.zero_le 63

/-- The length counter once the byte on its way has been counted. -/
def count (s : State N) : BitVec 7 :=
  if s.out.pe.outEpDataPut then s.out.pe.outEpPutAddr.setWidth 7 else s.out.outMaxUsed

/-- Between packets: the counter points at the end of the buffer, from where it counts on. -/
def Jammed (s : State N) : Prop := count s = 63#7

instance (s : State N) : Decidable (Jammed s) := inferInstanceAs (Decidable (count s = 63#7))

omit [NeZero N] in
theorem count_of_dataPut {s : State N} (h : s.out.pe.outEpDataPut = false) :
    count s = s.out.outMaxUsed := by
  simp [count, h]

namespace Bounded

variable {s : State N} {i : Input N}

/-- Between packets the byte on its way is counted and nothing else happens to the counter. -/
theorem outMaxUsed_step (h : Bounded s) (hs : phase s = .idle ∨ phase s = .rcvdOut)
    (hl : i.linkReset = false) : (step s i).out.outMaxUsed = count s := by
  obtain ⟨hack, hroll⟩ := open_of_phase hs i
  rw [Device.outMaxUsed_step, if_neg (by simp [hl]), outMaxUsedD_of_open hack hroll, count]
  cases hd : s.out.pe.outEpDataPut with
  | false => rfl
  | true =>
      have h0 := (h.dataPut (by rcases hs with hs | hs <;> simp [hs]) hd).2
      simp [h0]

omit [NeZero N] in
theorem count_le (h : Bounded s) (hs : phase s = .idle ∨ phase s = .rcvdOut) :
    (count s).toNat ≤ 63 := by
  unfold count
  split_ifs
  · have := s.out.pe.outEpPutAddr.isLt
    simp only [BitVec.toNat_setWidth]
    omega
  · exact h.outMaxUsed hs

/-- Nor does it change in the cycle after, whatever the engine does. -/
theorem count_step (h : Bounded s) (hs : phase s = .idle ∨ phase s = .rcvdOut)
    (hl : i.linkReset = false) : count (step s i) = count s := by
  have hd : (step s i).out.pe.outEpDataPut = false := by
    rw [dataPut_step]
    rcases hs with hs | hs <;> simp [hs]
  rw [count_of_dataPut hd, h.outMaxUsed_step hs hl]

theorem step (h : Bounded s) (hi : RxOk i) : Bounded (Device.step s i) := by
  constructor
  · intro hn hd
    rw [dataPut_step, Bool.and_eq_true, beq_iff_eq] at hd
    have hp := phase_step_dataStart hd.1 (hi.strobe_end hd.2)
    by_cases hl : i.linkReset = true
    · exact ⟨by simp [hp, hl], by simp [Device.outMaxUsed_step, hl]⟩
    · exact absurd (by simp [hp, hl]) hn
  · intro hn
    by_cases hl : i.linkReset = true
    · simp [Device.outMaxUsed_step, hl]
    · rw [Bool.not_eq_true] at hl
      by_cases hs : phase s = .idle ∨ phase s = .rcvdOut
      · rw [h.outMaxUsed_step hs hl]
        exact h.count_le hs
      · simp only [not_or] at hs
        rw [phase_step, if_neg (by simp [hl])] at hn
        rw [Device.outMaxUsed_step, if_neg (by simp [hl]),
          outMaxUsedD_of_ended (OutPe.ended_of_data hs.1 hs.2 hn)]
        exact Nat.zero_le 63

theorem run (h : Bounded s) (is : List (Input N)) (hi : ∀ i ∈ is, RxOk i) :
    Bounded (Clocked.run Device.step s is) :=
  run_invariant Bounded RxOk (fun _ _ hi hs => step hs hi) h is hi

end Bounded

/-- The counter is bounded in every reachable state. -/
theorem bounded_of_reachable {s s0 : State N} (h0 : Bounded s0)
    (h : Reachable step RxAllowed s0 s) : Bounded s := by
  refine h.invariant Bounded h0 ?_
  intro s i hi hs
  exact hs.step hi

/-! ### The bytes of a packet -/

/-- The byte that the engine holds for the interface, if any. -/
def pending (s : State N) : List (BitVec 8) :=
  if s.out.pe.outEpDataPut then [s.out.pe.outEpData] else []

/-- The byte that the receiver strobes in this cycle, if any. -/
def strobe (i : Input N) : List (BitVec 8) := if i.rx.dataPut then [i.rx.data] else []

/-- The bytes that the receiver strobes in these cycles. -/
def strobes (is : List (Input N)) : List (BitVec 8) := is.flatMap strobe

theorem pending_step {s : State N} (hs : phase s = .rcvdDataStart) (i : Input N) :
    pending (step s i) = strobe i := by
  have hd := dataPut_step s i
  simp only [hs, beq_self_eq_true, Bool.true_and] at hd
  simp only [pending, strobe, hd]
  split_ifs with h
  · simp [step_pe, OutPe.step, h]
  · rfl

/-- Words of the packet that have been handed to the RAM once `D` has passed. -/
def wordsDone (D : List (BitVec 8)) (s : State N) : ℕ :=
  D.length / 4 - if s.out.stdWrite then 1 else 0

/-- The bytes `D` of the packet have passed the interface on their way to buffer `b`: the
first 64 of them are in the RAM, except those of the word still being assembled. -/
structure Stored (b : BitVec 5) (D : List (BitVec 8)) (s : State N) : Prop where
  used : D.length = 0 ∧ s.out.outMaxUsed.toNat < 63 ∨
    0 < D.length ∧ s.out.outMaxUsed.toNat = min (D.length - 1) 65
  addr : s.out.pe.outEpPutAddr.toNat = min D.length 63
  fullWord : s.out.stdWrite = true → D.length % 4 = 0 ∧ 0 < D.length ∧ D.length ≤ 64
  head : D ≠ [] → (avQueue s (currentSetup s.out)).head? = some b
  stored : ∀ k x, D[k]? = some x → k < 64 → k / 4 < wordsDone D s →
    bufferByte s.ram.mem b (BitVec.ofNat 6 k) = x
  held : ∀ k x, D[k]? = some x → k < 64 → k / 4 = wordsDone D s →
    lane s.out.wdata (BitVec.ofNat 2 k) = x

/-- Software leaves buffer `b` alone. -/
def NoSwWrite (b : BitVec 5) (i : Input N) : Prop :=
  ∀ q, i.sw.mem = some q → q.write = true → bufferOf q.addr ≠ b

theorem bufferByte_step {s : State N} {i : Input N} {b : BitVec 5} (hsw : NoSwWrite b i)
    (hw : memWrite s.out (outInput s i) = true →
      avRdata s.out (outInput s i) = b ∧ s.out.outMaxUsed.toNat < 64) {k : ℕ} (hk : k < 64) :
    bufferByte (step s i).ram.mem b (BitVec.ofNat 6 k) =
      if memWrite s.out (outInput s i) = true ∧ k / 4 = s.out.outMaxUsed.toNat / 4 then
        lane s.out.wdata (BitVec.ofNat 2 k)
      else bufferByte s.ram.mem b (BitVec.ofNat 6 k) := by
  have hmem : (step s i).ram.mem =
      PacketRam.writeMem s.ram.mem (PacketRam.served (usbReq s i) i.sw.mem) := rfl
  rw [hmem]
  by_cases hm : memWrite s.out (outInput s i) = true
  · obtain ⟨hb, hu⟩ := hw hm
    have hreq : PacketRam.served (usbReq s i) i.sw.mem =
        some ⟨true, b ++ s.out.outMaxUsed.extractLsb' 2 4, s.out.wdata⟩ := by
      simp [PacketRam.served, usbReq, hm, memWaddr, hb]
    rw [hreq, PacketRam.writeMem_write, bufferByte_writeWord _ _ _ _ hk hu]
    simp [hm]
  · have hkeep : PacketRam.writeMem s.ram.mem (PacketRam.served (usbReq s i) i.sw.mem)
        (bufferAddr b (BitVec.ofNat 6 k)) = s.ram.mem (bufferAddr b (BitVec.ofNat 6 k)) := by
      apply PacketRam.writeMem_of_forall_ne
      intro w hq
      by_cases hr : memRead s.inp = true
      · simp [PacketRam.served, usbReq, hm, hr] at hq
      · have hsw' : i.sw.mem = some ⟨true, bufferAddr b (BitVec.ofNat 6 k), w⟩ := by
          simpa [PacketRam.served, usbReq, hm, hr] using hq
        exact hsw _ hsw' rfl (bufferOf_bufferAddr _ _)
    simp [bufferByte, hkeep, hm]

namespace Stored

variable {b : BitVec 5} {D : List (BitVec 8)} {s : State N} {i : Input N}

omit [NeZero N] in
theorem avRvalid (h : Stored b D s) (hD : D ≠ []) : UsbIf.avRvalid s.out (outInput s i) = true := by
  rw [avRvalid_iff]
  rintro he
  have := h.head hD
  simp [he] at this

/-- While the packet is not accepted only full words are written. -/
theorem memWrite_eq (h : Stored b D s) (ha : rxWvalid s i = false) :
    memWrite s.out (outInput s i) = s.out.stdWrite := by
  have ha' : (outComb s.out (outInput s i)).acked = false := ha
  cases hw : s.out.stdWrite with
  | false => simp [memWrite, hw, ha']
  | true =>
      have hD : D ≠ [] := List.ne_nil_of_length_pos (h.fullWord hw).2.1
      simp [memWrite, hw, h.avRvalid hD]

/-- One cycle later every complete word is in the RAM. -/
theorem flushed (h : Stored b D s) (ha : rxWvalid s i = false) (hsw : NoSwWrite b i) {k : ℕ}
    {x : BitVec 8} (hx : D[k]? = some x) (hk : k < 64) (hw : k / 4 < D.length / 4) :
    bufferByte (step s i).ram.mem b (BitVec.ofNat 6 k) = x := by
  have hlen := (List.getElem?_eq_some_iff.1 hx).1
  have hused := h.used
  rw [bufferByte_step hsw ?_ hk, h.memWrite_eq ha]
  · cases hstd : s.out.stdWrite with
    | false =>
        simp only [Bool.false_eq_true, false_and, if_false]
        exact h.stored k x hx hk (by simpa [wordsDone, hstd] using hw)
    | true =>
        obtain ⟨hmod, hpos, hle⟩ := h.fullWord hstd
        have hdone : wordsDone D s = D.length / 4 - 1 := by simp [wordsDone, hstd]
        split_ifs with hword
        · exact h.held k x hx hk (by omega)
        · exact h.stored k x hx hk (by simp only [true_and] at hword; omega)
  · rw [h.memWrite_eq ha]
    intro hstd
    obtain ⟨hmod, hpos, hle⟩ := h.fullWord hstd
    exact ⟨avRdata_of_head s i (h.head (List.ne_nil_of_length_pos hpos)), by omega⟩

end Stored

/-- A cycle in which the packet goes on: it is neither accepted nor given up, and the flag
that says it cannot be stored stays down. -/
structure Passing (b : BitVec 5) (s : State N) (i : Input N) : Prop where
  dataStart : phase s = .rcvdDataStart
  linkReset : i.linkReset = false
  rollback : (OutPe.comb s.out.pe (peInput s i)).rollback = false
  nak : (step s i).out.pe.nakOutTransaction = false
  noFifoReset : NoFifoReset i
  rready : avRready s (currentSetup s.out) = false
  setup : currentSetup (step s i).out = currentSetup s.out
  head : ∀ c, (avQueue s (currentSetup s.out)).head? = some c → c = b
  noSwWrite : NoSwWrite b i

omit [NeZero N] in
theorem toNat_add_one {c : BitVec 7} (h : c.toNat < 65) : (c + 1).toNat = c.toNat + 1 := by
  rw [BitVec.toNat_add, show (1 : BitVec 7).toNat = 1 from rfl]
  omega

namespace Passing

variable {b : BitVec 5} {D : List (BitVec 8)} {s : State N} {i : Input N}

theorem not_acked (p : Passing b s i) : rxWvalid s i = false := by
  have hs : s.out.pe.outXactState = .rcvdDataStart := p.dataStart
  exact OutPe.acked_eq_false _ (by simp [hs])

theorem nak_step (s : State N) (i : Input N) (hs : phase s = .rcvdDataStart) :
    (step s i).out.pe.nakOutTransaction =
      if s.out.pe.outEpDataPut && (peInput s i).full s.out.pe.outEpCurrent then true
      else s.out.pe.nakOutTransaction := by
  have hs' : s.out.pe.outXactState = .rcvdDataStart := hs
  simp [step_pe, OutPe.step, hs']

/-- The flag was down before, and a byte that passes has a buffer. -/
theorem nak_before (p : Passing b s i) : s.out.pe.nakOutTransaction = false ∧
    (s.out.pe.outEpDataPut = true → (avQueue s (currentSetup s.out)).head? = some b) := by
  have hn := p.nak
  rw [nak_step s i p.dataStart] at hn
  split_ifs at hn with hf
  refine ⟨hn, fun hd => ?_⟩
  have hv : UsbIf.avRvalid s.out (outInput s i) = true := by
    have hfull : outEpFull s.out (outInput s i) s.out.pe.outEpCurrent = false := by
      have hf' : ¬(outEpFull s.out (outInput s i) s.out.pe.outEpCurrent = true) := by
        intro hfull
        exact hf (by rw [hd]; exact hfull)
      simpa using hf'
    simp only [outEpFull, allOutBlocked, Bool.or_eq_false_iff] at hfull
    simpa using hfull.1.2
  rw [avRvalid_iff] at hv
  obtain ⟨c, rest, hq⟩ := List.exists_cons_of_ne_nil hv
  have hc : (avQueue s (currentSetup s.out)).head? = some c := by simp [hq]
  rw [hc, p.head c hc]

theorem head_step (p : Passing b s i)
    (hb : (avQueue s (currentSetup s.out)).head? = some b) :
    (avQueue (step s i) (currentSetup (step s i).out)).head? = some b := by
  rw [p.setup]
  exact head_avQueue_step p.noFifoReset p.rready hb

/-- The counter follows the put address until all ones, and then counts the CRC bytes. -/
theorem outMaxUsed_step (p : Passing b s i) : (step s i).out.outMaxUsed =
    if s.out.pe.outEpDataPut then
      if s.out.outMaxUsed.toNat < 63 then s.out.pe.outEpPutAddr.setWidth 7
      else if s.out.outMaxUsed.toNat < 65 then s.out.outMaxUsed + 1
      else s.out.outMaxUsed
    else s.out.outMaxUsed := by
  rw [Device.outMaxUsed_step, if_neg (by simp [p.linkReset]),
    outMaxUsedD_of_open p.not_acked p.rollback]

/-- Once a byte has passed its buffer stays at the head. -/
theorem head_append (p : Passing b s i)
    (h : D ≠ [] → (avQueue s (currentSetup s.out)).head? = some b) (hne : D ++ pending s ≠ []) :
    (avQueue (step s i) (currentSetup (step s i).out)).head? = some b := by
  by_cases hD : D = []
  · have hd : s.out.pe.outEpDataPut = true := by
      by_contra hd
      simp [hD, pending, hd] at hne
    exact p.head_step (p.nak_before.2 hd)
  · exact p.head_step (h hD)

theorem outMaxUsed (p : Passing b s i) (h : Stored b D s) :
    (D ++ pending s).length = 0 ∧ (step s i).out.outMaxUsed.toNat < 63 ∨
      0 < (D ++ pending s).length ∧
        (step s i).out.outMaxUsed.toNat = min ((D ++ pending s).length - 1) 65 := by
  have hu := h.used
  have ha := h.addr
  rw [p.outMaxUsed_step, pending]
  split_ifs with hd h63 h65
  · simp only [BitVec.toNat_setWidth, List.length_append, List.length_singleton]
    omega
  · simp only [toNat_add_one (by omega), List.length_append, List.length_singleton]
    omega
  · simp only [List.length_append, List.length_singleton]
    omega
  · simpa using hu

theorem outEpPutAddr (p : Passing b s i) (h : Stored b D s) :
    (step s i).out.pe.outEpPutAddr.toNat = min (D ++ pending s).length 63 := by
  have ha := h.addr
  have hs : s.out.pe.outXactState = .rcvdDataStart := p.dataStart
  have hn := p.nak_before.1
  simp only [step_pe, OutPe.step, hs, OutPe.incrementAddr, hn, pending]
  by_cases h63 : s.out.pe.outEpPutAddr = 63#6
  · have : s.out.pe.outEpPutAddr.toNat = 63 := by simp [h63]
    split_ifs <;> simp_all
    omega
  · have hne : s.out.pe.outEpPutAddr.toNat ≠ 63 := fun he => h63 (BitVec.eq_of_toNat_eq he)
    have hlt := s.out.pe.outEpPutAddr.isLt
    by_cases hd : s.out.pe.outEpDataPut = true
    · simp [h63, hd]
      omega
    · simp [hd]
      omega

/-- A full word is announced for byte `3 mod 4` of the first 64. -/
theorem stdWrite_iff (p : Passing b s i) (h : Stored b D s) :
    (step s i).out.stdWrite = true ↔
      s.out.pe.outEpDataPut = true ∧ D.length % 4 = 3 ∧ D.length < 64 := by
  have hu := h.used
  have ha := h.addr
  have hstep : (step s i).out.stdWrite = stdWriteD s.out := by
    have : (step s i).out.stdWrite = if i.linkReset then false else stdWriteD s.out := rfl
    simpa [p.linkReset] using this
  have hlane : s.out.pe.outEpPutAddr.extractLsb' 0 2 = 3#2 ↔
      s.out.pe.outEpPutAddr.toNat % 4 = 3 := by
    rw [← BitVec.toNat_inj]
    simp [BitVec.extractLsb'_toNat]
  rw [hstep]
  simp only [stdWriteD, Bool.and_eq_true, decide_eq_true_eq, beq_iff_eq, hlane]
  constructor
  · rintro ⟨hd, h63, hmod⟩
    exact ⟨hd, by omega, by omega⟩
  · rintro ⟨hd, hmod, hlt⟩
    exact ⟨hd, by omega, by omega⟩

theorem wdata_step (p : Passing b s i) : (step s i).out.wdata =
    if s.out.pe.outEpDataPut then
      setLane s.out.wdata (s.out.pe.outEpPutAddr.extractLsb' 0 2) s.out.pe.outEpData
    else s.out.wdata := by
  have : (step s i).out.wdata = if i.linkReset then s.out.wdata
      else if s.out.pe.outEpDataPut then wdataD s.out else s.out.wdata := rfl
  rw [this, if_neg (by simp [p.linkReset])]
  rfl

theorem wordsDone_step (p : Passing b s i) (h : Stored b D s) (hD : D.length < 64) :
    wordsDone (D ++ pending s) (step s i) = D.length / 4 := by
  have hstd := p.stdWrite_iff h
  unfold wordsDone pending
  by_cases hd : s.out.pe.outEpDataPut = true
  · simp only [hd, true_and, if_true, List.length_append, List.length_singleton] at hstd ⊢
    by_cases hw : (step s i).out.stdWrite = true
    · have := hstd.mp hw
      simp only [hw, if_true]
      omega
    · simp only [hw]
      have : D.length % 4 ≠ 3 := fun hm => hw (hstd.mpr ⟨hm, hD⟩)
      simp only [Bool.false_eq_true, if_false]
      omega
  · have hw : (step s i).out.stdWrite = false := by
      by_contra hw
      exact hd (hstd.mp (by simpa using hw)).1
    simp [hd, hw]

/-- After 64 bytes every word of the buffer has been handed over. -/
theorem sixteen_le_wordsDone (p : Passing b s i) (h : Stored b D s) (hD : 64 ≤ D.length) :
    16 ≤ wordsDone (D ++ pending s) (step s i) := by
  have hw : (step s i).out.stdWrite = false := by
    by_contra hw
    have := (p.stdWrite_iff h).mp (by simpa using hw)
    omega
  simp only [wordsDone, hw, List.length_append]
  simp only [Bool.false_eq_true, if_false]
  omega

/-- One cycle of a packet: the byte strobed in the cycle before joins those that have
passed. -/
theorem stored (p : Passing b s i) (h : Stored b D s) :
    Stored b (D ++ pending s) (step s i) where
  used := p.outMaxUsed h
  addr := p.outEpPutAddr h
  fullWord := by
    intro hw
    obtain ⟨hd, hmod, hlt⟩ := (p.stdWrite_iff h).mp hw
    simp only [pending, hd, if_true, List.length_append, List.length_singleton]
    omega
  head := p.head_append h.head
  stored := by
    intro k x hx hk hw
    by_cases hlen : D.length < 64
    · rw [p.wordsDone_step h hlen] at hw
      have hkD : k < D.length := by omega
      rw [List.getElem?_append_left hkD] at hx
      exact h.flushed p.not_acked p.noSwWrite hx hk hw
    · have hkD : k < D.length := by omega
      rw [List.getElem?_append_left hkD] at hx
      exact h.flushed p.not_acked p.noSwWrite hx hk (by omega)
  held := by
    intro k x hx hk hw
    by_cases hlen : D.length < 64
    · rw [p.wordsDone_step h hlen] at hw
      rw [p.wdata_step]
      by_cases hkD : k < D.length
      · rw [List.getElem?_append_left hkD] at hx
        have hstd : s.out.stdWrite = false := by
          by_contra hstd
          have := h.fullWord (by simpa using hstd)
          omega
        have hold := h.held k x hx hk (by simp [wordsDone, hstd, hw])
        split_ifs with hd
        · rw [lane_setLane, if_neg, hold]
          have ha := h.addr
          intro he
          have := congrArg BitVec.toNat he
          simp [BitVec.extractLsb'_toNat] at this
          omega
        · exact hold
      · have hkl := (List.getElem?_eq_some_iff.1 hx).1
        have hd : s.out.pe.outEpDataPut = true := by
          by_contra hd
          simp [pending, hd] at hkl
          omega
        have hk' : k = D.length := by
          simp only [pending, hd, if_true, List.length_append, List.length_singleton] at hkl
          omega
        subst hk'
        have hlane : BitVec.ofNat 2 D.length = s.out.pe.outEpPutAddr.extractLsb' 0 2 := by
          have ha := h.addr
          apply BitVec.eq_of_toNat_eq
          simp [BitVec.extractLsb'_toNat]
          omega
        simp only [pending, hd, if_true, List.getElem?_concat_length, Option.some.injEq] at hx
        simp [hd, hlane, hx]
    · have := p.sixteen_le_wordsDone h (by omega)
      omega

end Passing

/-! ### A jammed counter -/

/-- The bytes `D` of the packet have passed a counter that was jammed when the packet started:
none of them is in the RAM, whose buffer `b` is that of `mem`. -/
structure Lost (b : BitVec 5) (mem : BitVec 9 → BitVec 32) (D : List (BitVec 8)) (s : State N) :
    Prop where
  used : s.out.outMaxUsed.toNat = min (63 + D.length) 65
  stdWrite : s.out.stdWrite = false
  head : D ≠ [] → (avQueue s (currentSetup s.out)).head? = some b
  kept : ∀ k < 64, bufferByte s.ram.mem b (BitVec.ofNat 6 k) = bufferByte mem b (BitVec.ofNat 6 k)

/-- One cycle of a packet whose bytes are lost. -/
theorem Passing.lost {b : BitVec 5} {mem : BitVec 9 → BitVec 32} {D : List (BitVec 8)}
    {s : State N} {i : Input N} (p : Passing b s i) (h : Lost b mem D s) :
    Lost b mem (D ++ pending s) (step s i) where
  used := by
    have hu := h.used
    rw [p.outMaxUsed_step, pending]
    split_ifs with hd h63 h65
    · omega
    · simp only [toNat_add_one h65, List.length_append, List.length_singleton]
      omega
    · simp only [List.length_append, List.length_singleton]
      omega
    · simpa using hu
  stdWrite := by
    have hstep : (step s i).out.stdWrite = if i.linkReset then false else stdWriteD s.out := rfl
    have hu := h.used
    have h63 : ¬s.out.outMaxUsed.toNat < 63 := by omega
    simp [hstep, p.linkReset, stdWriteD, h63]
  head := p.head_append h.head
  kept := by
    intro k hk
    have hack : (outComb s.out (outInput s i)).acked = false := p.not_acked
    have hw : memWrite s.out (outInput s i) = false := by simp [memWrite, h.stdWrite, hack]
    rw [bufferByte_step p.noSwWrite (by simp [hw]) hk, if_neg (by simp [hw]), h.kept k hk]

/-- What is kept of the bytes of a packet on its way to buffer `b`, as long as the packet
passes. -/
structure Carried (b : BitVec 5) (Q : List (BitVec 8) → State N → Prop) : Prop where
  pass : ∀ {D s i}, Passing b s i → Q D s → Q (D ++ pending s) (step s i)
  head : ∀ {D s}, Q D s → D ≠ [] → (avQueue s (currentSetup s.out)).head? = some b
  word : ∀ {D s}, Q D s → s.out.stdWrite = true → D ≠ []

theorem carried_stored (b : BitVec 5) : Carried b (Stored b : _ → State N → Prop) where
  pass := fun p h => p.stored h
  head := fun h => h.head
  word := fun h hw => List.ne_nil_of_length_pos (h.fullWord hw).2.1

theorem carried_lost (b : BitVec 5) (mem : BitVec 9 → BitVec 32) :
    Carried b (Lost b mem : _ → State N → Prop) where
  pass := fun p h => p.lost h
  head := fun h => h.head
  word := fun h hw => by simp [h.stdWrite] at hw

/-! ### Acceptance -/

namespace Stored

variable {b : BitVec 5} {L p : List (BitVec 8)} {c₁ c₂ : BitVec 8} {s : State N} {i : Input N}

omit [NeZero N] in
/-- The entry posted for an accepted packet gives the length of its payload, up to 64. -/
theorem rxWdata_eq (h : Stored b L s) (hL : L = p ++ [c₁, c₂]) :
    rxWdata s i = ⟨s.out.pe.outEpCurrent, currentSetup s.out, BitVec.ofNat 7 (min p.length 64), b⟩ := by
  have hu := h.used
  have hne : L ≠ [] := by simp [hL]
  have hb := avRdata_of_head s i (h.head hne)
  have hsize : s.out.outMaxUsed - 1 = BitVec.ofNat 7 (min p.length 64) := by
    apply BitVec.eq_of_toNat_eq
    rw [BitVec.toNat_sub, show (1 : BitVec 7).toNat = 1 from rfl, BitVec.toNat_ofNat]
    simp only [hL, List.length_append, List.length_cons, List.length_nil] at hu
    omega
  simp only [rxWdata, UsbIf.rxWdata, hsize, hb]

/-- With the packet accepted the buffer holds its payload. -/
theorem accepted (h : Stored b L s) (hL : L = p ++ [c₁, c₂]) (ha : rxWvalid s i = true)
    (hsw : NoSwWrite b i) {k : ℕ} {x : BitVec 8} (hx : p[k]? = some x) (hk : k < 64) :
    bufferByte (Device.step s i).ram.mem b (BitVec.ofNat 6 k) = x := by
  have hkp := (List.getElem?_eq_some_iff.1 hx).1
  have hu := h.used
  have hlen : L.length = p.length + 2 := by simp [hL]
  have hne : L ≠ [] := by simp [hL]
  have hxL : L[k]? = some x := by rw [hL, List.getElem?_append_left hkp, hx]
  have hv := h.avRvalid hne (i := i)
  have ha' : (outComb s.out (outInput s i)).acked = true := ha
  have h6 := getLsbD_six s.out.outMaxUsed
  have h3 : (s.out.outMaxUsed.extractLsb' 0 2 != 3#2) =
      decide (s.out.outMaxUsed.toNat % 4 ≠ 3) := by
    rw [Bool.eq_iff_iff]
    simp [← BitVec.toNat_inj, BitVec.extractLsb'_toNat]
  have hwrite : memWrite s.out (outInput s i) = true ↔ s.out.stdWrite = true ∨
      (s.out.outMaxUsed.toNat < 64 ∧ s.out.outMaxUsed.toNat % 4 ≠ 3) := by
    simp only [memWrite, hv, ha', h6, h3, Bool.true_and, Bool.and_true, Bool.or_eq_true,
      Bool.and_eq_true, Bool.not_eq_true', decide_eq_false_iff_not, decide_eq_true_eq, not_le]
  rw [bufferByte_step hsw ?_ hk]
  · simp only [hwrite]
    have hstored := h.stored k x hxL hk
    have hheld := h.held k x hxL hk
    cases hstd : s.out.stdWrite with
    | true =>
        obtain ⟨hmod, hpos, hle⟩ := h.fullWord hstd
        simp only [wordsDone, hstd, if_true] at hstored hheld
        simp only [true_or, true_and]
        split_ifs with hword
        · exact hheld (by omega)
        · exact hstored (by omega)
    | false =>
        simp only [wordsDone, hstd, Bool.false_eq_true, if_false, Nat.sub_zero] at hstored hheld
        simp only [Bool.false_eq_true, false_or]
        split_ifs with hword
        · exact hheld (by omega)
        · exact hstored (by omega)
  · intro hw
    refine ⟨avRdata_of_head s i (h.head hne), ?_⟩
    rcases hwrite.mp hw with hstd | ⟨hlt, -⟩
    · have := h.fullWord hstd
      omega
    · exact hlt

end Stored

namespace Lost

variable {b : BitVec 5} {mem : BitVec 9 → BitVec 32} {L : List (BitVec 8)} {s : State N}
  {i : Input N}

omit [NeZero N] in
/-- The entry posted for a packet whose bytes are lost gives the length of a full buffer. -/
theorem rxWdata_eq (h : Lost b mem L s) (hL : 2 ≤ L.length) :
    rxWdata s i = ⟨s.out.pe.outEpCurrent, currentSetup s.out, 64#7, b⟩ := by
  have hu := h.used
  have hb := avRdata_of_head s i (h.head (List.ne_nil_of_length_pos (by omega)))
  have hsize : s.out.outMaxUsed - 1 = 64#7 := by
    apply BitVec.eq_of_toNat_eq
    rw [BitVec.toNat_sub, show (1 : BitVec 7).toNat = 1 from rfl, BitVec.toNat_ofNat]
    omega
  simp only [rxWdata, UsbIf.rxWdata, hsize, hb]

/-- Its last cycle writes nothing either. -/
theorem accepted (h : Lost b mem L s) (hL : 2 ≤ L.length) (hsw : NoSwWrite b i) {k : ℕ}
    (hk : k < 64) : bufferByte (Device.step s i).ram.mem b (BitVec.ofNat 6 k) =
      bufferByte mem b (BitVec.ofNat 6 k) := by
  have hu := h.used
  have h6 : s.out.outMaxUsed.getLsbD 6 = true := by
    rw [getLsbD_six]
    simp only [decide_eq_true_eq]
    omega
  have hw : memWrite s.out (outInput s i) = false := by simp [memWrite, h.stdWrite, h6]
  rw [bufferByte_step hsw (by simp [hw]) hk, if_neg (by simp [hw]), h.kept k hk]

end Lost

end UsbDev.Device
