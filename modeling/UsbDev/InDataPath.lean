import UsbDev.OutDataPath

/-!
# The IN data path

From the token to the byte boundaries of the transmitter. The token captures the
buffer, the size and the has-data flag; the first word is read two cycles later,
and after every byte the offset, the word and the byte register follow within
four cycles. `Stage` says where this pipeline stands after `k` bytes.
-/
namespace UsbDev.Device

open Clocked UsbIf
open InPe (XactState)

variable {N : ℕ} [NeZero N]

/-! ### The IN engine in one cycle -/

/-- The state of the IN engine's transaction machine. -/
def inPhase (s : State N) : XactState := s.inp.pe.inXactState

/-- The inputs of the IN engine. -/
def inInputPe (s : State N) (i : Input N) : InPe.Input N := inPeInput s.inp (inInput s i)

/-- A valid IN token for the device ends in this cycle. -/
def InToken (i : Input N) : Prop :=
  i.rx.tokenReceived i.cfg.devAddr = true ∧ i.rx.pid = usbPidIn

/-- There is something left to send. -/
def moreData (s : State N) : Bool :=
  s.inp.pe.hasData && !(s.inp.pe.inEpGetAddr.setWidth 7 == s.inSize)

omit [NeZero N] in
theorem inTokenReceived_iff (s : State N) (i : Input N) :
    (inInputPe s i).inTokenReceived = true ↔ InToken i := by
  have hdev : (inInputPe s i).devAddr = i.cfg.devAddr := rfl
  have hrx : (inInputPe s i).rx = i.rx := rfl
  simp [InPe.Input.inTokenReceived, InToken, hdev, hrx]

omit [NeZero N] in
theorem moreDataToSend_eq (s : State N) (i : Input N) :
    InPe.moreDataToSend s.inp.pe (inInputPe s i) = moreData s := by
  simp [InPe.moreDataToSend, moreData, inInputPe, inPeInput, inDataDone, inInput]

omit [NeZero N] in
theorem txDataAvail_eq (s : State N) (i : Input N) :
    txDataAvail s i = (inPhase s == .sendData && moreData s) := by
  rw [← moreDataToSend_eq s i]
  rfl

theorem inPhase_step (s : State N) (i : Input N) :
    inPhase (step s i) =
      if i.linkReset || !i.linkActive then .idle
      else (InPe.comb s.inp.pe (inInputPe s i)).stateNext := rfl

theorem inEpGetAddr_step (s : State N) (i : Input N) :
    (step s i).inp.pe.inEpGetAddr =
      if inPhase s == .idle then 0
      else if inPhase s == .sendData && i.txDataGet then s.inp.pe.inEpGetAddr + 1
      else s.inp.pe.inEpGetAddr := rfl

theorem inEpDataGet_step (s : State N) (i : Input N) :
    (step s i).inp.pe.inEpDataGet = (inPhase s == .sendData && i.txDataGet) := rfl

theorem txData_step (s : State N) (i : Input N) :
    (step s i).inp.pe.txData = lane s.ram.usbRdata (s.inp.pe.inEpGetAddr.extractLsb' 0 2) := rfl

theorem pktStartRd_step (s : State N) (i : Input N) :
    (step s i).inp.pktStartRd = s.inp.pe.inEpNewpkt := rfl

section cycle
variable {s : State N} {i : Input N}

/-- Without a token the captured values stay. -/
theorem step_of_not_inToken (h : ¬ InToken i) :
    (step s i).inp.pe.inEpNewpkt = false ∧ (step s i).inp.pe.inEpCurrent = s.inp.pe.inEpCurrent ∧
      (step s i).inp.pe.hasData = s.inp.pe.hasData ∧ (step s i).inBuf = s.inBuf ∧
      (step s i).inSize = s.inSize := by
  have htok : (inInputPe s i).inTokenReceived = false := by
    rw [← inTokenReceived_iff s i] at h
    simpa using h
  have hpe : (step s i).inp.pe = InPe.step s.inp.pe (inInputPe s i) := rfl
  have hstart : inXactStarting s i = false := by
    have : inXactStarting s i = InPe.inXactStarting s.inp.pe (inInputPe s i) := rfl
    simp [this, InPe.inXactStarting, InPe.inStarting, htok]
  rw [hpe]
  refine ⟨?_, ?_, ?_, ?_, ?_⟩
  · simp [InPe.step, htok]
  · simp [InPe.step, htok]
  · simp [InPe.step, htok]
  · simp [step, hstart]
  · simp [step, hstart]

/-- Data is sent until nothing is left or the last byte of the buffer is taken. -/
theorem inPhase_step_sendData (hs : inPhase s = .sendData) (hl : i.linkReset = false)
    (ha : i.linkActive = true) :
    if !moreData s || (s.inp.pe.inEpGetAddr == 63#6 && i.txDataGet) then
      inPhase (step s i) = .idle ∨ inPhase (step s i) = .waitTxEnd ∨
        inPhase (step s i) = .waitAckStart
    else inPhase (step s i) = .sendData := by
  have hs' : s.inp.pe.inXactState = .sendData := hs
  have hget : (inInputPe s i).txDataGet = i.txDataGet := rfl
  rw [inPhase_step]
  simp only [hl, ha, Bool.not_true, Bool.or_self, Bool.false_eq_true, if_false, InPe.comb, hs',
    moreDataToSend_eq, hget]
  split_ifs <;> simp_all

/-- The states in which the engine waits for the end of the packet or for the handshake, or
for the next token. -/
def Waiting (s : State N) : Prop :=
  inPhase s ≠ .rcvdIn ∧ inPhase s ≠ .sendData

theorem inPhase_step_idle (hs : inPhase s = .idle) (ht : ¬ InToken i) :
    inPhase (step s i) = .idle := by
  have htok : (inInputPe s i).inTokenReceived = false := by
    rw [← inTokenReceived_iff s i] at ht
    simpa using ht
  have hs' : s.inp.pe.inXactState = .idle := hs
  rw [inPhase_step]
  simp [InPe.comb, hs', htok]

/-- Only a token ends the wait for good. -/
theorem Waiting.next (h : Waiting s) (ht : ¬ InToken i) : Waiting (step s i) := by
  have htok : (inInputPe s i).inTokenReceived = false := by
    rw [← inTokenReceived_iff s i] at ht
    simpa using ht
  obtain ⟨hr, hd⟩ := h
  unfold inPhase at hr hd
  unfold Waiting
  rw [inPhase_step]
  unfold InPe.comb
  cases hs : s.inp.pe.inXactState <;> simp only [hs, ne_eq, not_true_eq_false] at hr hd ⊢ <;>
    split_ifs <;> simp_all

end cycle

/-! ### What a token captures -/

/-- The captured buffer, size and has-data flag, the contents of the RAM, and the offset at
which the engine starts. -/
structure Source where
  buffer : BitVec 5
  size : BitVec 7
  hasData : Bool
  mem : BitVec 9 → BitVec 32
  start : BitVec 6

namespace Source
variable (src : Source)

/-- The byte at offset `k` of the buffer. -/
def byte (k : ℕ) : BitVec 8 := bufferByte src.mem src.buffer (BitVec.ofNat 6 k)

/-- The offset at which sending stops: the captured size if it is still to come, and at most
the end of the buffer. -/
def stop : ℕ :=
  if src.hasData then
    if src.start.toNat ≤ src.size.toNat then min src.size.toNat 64 else 64
  else src.start.toNat

/-- The number of bytes sent. -/
def len : ℕ := src.stop - src.start.toNat

/-- The bytes sent. -/
def payload : List (BitVec 8) := (List.range' src.start.toNat src.len).map src.byte

@[simp] theorem length_payload : src.payload.length = src.len := by simp [payload]

theorem start_add_len_le : src.start.toNat + src.len ≤ 64 := by
  have := src.start.isLt
  unfold len stop
  split_ifs <;> omega

/-- From offset 0 exactly the first `min size 64` bytes are sent. -/
theorem payload_of_start_eq_zero (h0 : src.start = 0) (hd : src.hasData = true) :
    src.payload = bufferBytes src.mem src.buffer (min src.size.toNat 64) := by
  simp [payload, len, stop, h0, hd, bufferBytes, List.range_eq_range', byte]

theorem take_payload_succ {k : ℕ} (hk : k < src.len) :
    src.payload.take (k + 1) = src.payload.take k ++ [src.byte (src.start.toNat + k)] := by
  rw [List.take_add_one, List.getElem?_eq_getElem (by simpa using hk)]
  simp [payload]

end Source

/-- The device holds what the token captured, and no received byte is on its way to the
RAM. -/
structure Held (src : Source) (s : State N) : Prop where
  buffer : s.inBuf = src.buffer
  size : s.inSize = src.size
  hasData : s.inp.pe.hasData = src.hasData
  mem : ∀ a, bufferOf a = src.buffer → s.ram.mem a = src.mem a
  newpkt : s.inp.pe.inEpNewpkt = false
  listening : Listening s
  dataPut : s.out.pe.outEpDataPut = false
  stdWrite : s.out.stdWrite = false

/-- A cycle of the data phase: the link is up, the receiver silent, and software does not
write the buffer. -/
structure Serving (b : BitVec 5) (i : Input N) : Prop where
  linkReset : i.linkReset = false
  linkActive : i.linkActive = true
  pktEnd : i.rx.pktEnd = false
  dataPut : i.rx.dataPut = false
  noSwWrite : NoSwWrite b i

omit [NeZero N] in
theorem Serving.not_inToken {b : BitVec 5} {i : Input N} (h : Serving b i) : ¬ InToken i := by
  rintro ⟨ht, -⟩
  simp [h.pktEnd] at ht

variable {src : Source} {s : State N} {i : Input N}

theorem Held.memWrite_eq (h : Held src s) (i : Input N) :
    memWrite s.out (outInput s i) = false := by
  have hack : (outComb s.out (outInput s i)).acked = false := rxWvalid_of_listening h.listening i
  simp [memWrite, h.stdWrite, hack]

theorem Held.usbReq_eq (h : Held src s) (i : Input N) :
    usbReq s i = if memRead s.inp then
      some ⟨false, bufferAddr src.buffer s.inp.pe.inEpGetAddr, s.out.wdata⟩ else none := by
  have haddr : memRaddr s.inp (inInput s i) = bufferAddr src.buffer s.inp.pe.inEpGetAddr := by
    simp [memRaddr, inInput, h.buffer]
  simp [usbReq, h.memWrite_eq i, haddr]

/-- Without a USB write a buffer that software leaves alone keeps its words. -/
theorem mem_step_of_no_write {b : BitVec 5} (hm : memWrite s.out (outInput s i) = false)
    (hsw : NoSwWrite b i) {a : BitVec 9} (ha : bufferOf a = b) :
    (step s i).ram.mem a = s.ram.mem a := by
  have hmem : (step s i).ram.mem =
      PacketRam.writeMem s.ram.mem (PacketRam.served (usbReq s i) i.sw.mem) := rfl
  rw [hmem]
  apply PacketRam.writeMem_of_forall_ne
  intro w hq
  by_cases hr : memRead s.inp = true
  · simp [PacketRam.served, usbReq, hm, hr] at hq
  · have hsw' : i.sw.mem = some ⟨true, a, w⟩ := by
      simpa [PacketRam.served, usbReq, hm, hr] using hq
    exact hsw _ hsw' rfl ha

theorem Held.next (h : Held src s) (hi : Serving src.buffer i) : Held src (step s i) := by
  obtain ⟨hnew, -, hdata, hbuf, hsize⟩ := step_of_not_inToken (s := s) hi.not_inToken
  constructor
  · exact hbuf.trans h.buffer
  · exact hsize.trans h.size
  · exact hdata.trans h.hasData
  · intro a ha
    rw [mem_step_of_no_write (h.memWrite_eq i) hi.noSwWrite ha]
    exact h.mem a ha
  · exact hnew
  · exact listening_step h.listening hi.pktEnd
  · rw [dataPut_step, hi.dataPut, Bool.and_false]
  · have : (step s i).out.stdWrite = if i.linkReset then false else stdWriteD s.out := rfl
    simp [this, stdWriteD, h.dataPut]

/-- A requested word is shown in the next cycle. -/
theorem Held.usbRdata_read (h : Held src s) (hr : memRead s.inp = true) (i : Input N) :
    (step s i).ram.usbRdata = src.mem (bufferAddr src.buffer s.inp.pe.inEpGetAddr) := by
  have hram : (step s i).ram = PacketRam.step s.ram (usbReq s i) i.sw.mem := rfl
  rw [hram, h.usbReq_eq, hr]
  simp only [if_true, PacketRam.usbRdata_step_read]
  exact h.mem _ (bufferOf_bufferAddr _ _)

/-- Between two requests the word is held. -/
theorem Held.usbRdata_hold (h : Held src s) (hr : memRead s.inp = false) (i : Input N) :
    (step s i).ram.usbRdata = s.ram.usbRdata := by
  have hram : (step s i).ram = PacketRam.step s.ram (usbReq s i) i.sw.mem := rfl
  rw [hram, h.usbReq_eq, hr]
  exact PacketRam.usbRdata_step_hold _ _ _ rfl

omit [NeZero N] in
/-- At the offset after `k` bytes, data is left if and only if not all bytes are sent. -/
theorem Held.moreData_eq (h : Held src s) {k : ℕ}
    (ha : s.inp.pe.inEpGetAddr.toNat = src.start.toNat + k) (hk : k ≤ src.len) :
    moreData s = decide (k < src.len) := by
  have hlt := s.inp.pe.inEpGetAddr.isLt
  have hsize := src.size.isLt
  have heq : (s.inp.pe.inEpGetAddr.setWidth 7 == s.inSize) =
      decide (src.start.toNat + k = src.size.toNat) := by
    rw [Bool.eq_iff_iff, beq_iff_eq, decide_eq_true_iff, ← BitVec.toNat_inj, h.size]
    rw [BitVec.toNat_setWidth, ha]
    omega
  rw [moreData, h.hasData, heq]
  unfold Source.len Source.stop at hk ⊢
  rw [Bool.eq_iff_iff]
  cases src.hasData with
  | false => simp
  | true =>
      simp only [Bool.true_and, Bool.not_eq_true', decide_eq_false_iff_not, if_true,
        decide_eq_true_iff] at hk ⊢
      split_ifs at hk ⊢ <;> omega

/-! ### The pipeline -/

/-- The word that holds the byte at the current offset. -/
def wordAt (src : Source) (s : State N) : BitVec 32 :=
  src.mem (bufferAddr src.buffer s.inp.pe.inEpGetAddr)

/-- Sending, with the offset after `k` bytes. -/
structure Sending (src : Source) (k : ℕ) (s : State N) : Prop where
  sendData : inPhase s = .sendData
  addr : s.inp.pe.inEpGetAddr.toNat = src.start.toNat + k
  le_len : k ≤ src.len

/-- The byte after the first `k` is at the transmitter. -/
structure Steady (src : Source) (k : ℕ) (s : State N) : Prop extends Sending src k s where
  noRead : memRead s.inp = false
  word : s.ram.usbRdata = wordAt src s
  txData : s.inp.pe.txData = src.byte (src.start.toNat + k)

/-- All bytes are sent; outside `idle` the offset stays where sending stopped. -/
structure Sent (src : Source) (s : State N) : Prop where
  waiting : Waiting s
  addr : inPhase s ≠ .idle → s.inp.pe.inEpGetAddr.toNat = (src.start.toNat + src.len) % 64

theorem byte_eq_lane (src : Source) {a : BitVec 6} {k : ℕ} (ha : a.toNat = k) :
    lane (src.mem (bufferAddr src.buffer a)) (a.extractLsb' 0 2) = src.byte k := by
  have : a = BitVec.ofNat 6 k := by rw [← ha, BitVec.ofNat_toNat, BitVec.setWidth_eq]
  rw [Source.byte, bufferByte, ← this]

/-- Without a pulse of the transmitter, sending goes on or has come to its end. -/
theorem Sending.next {k : ℕ} (h : Sending src k s) (held : Held src s)
    (hi : Serving src.buffer i) (hg : i.txDataGet = false) :
    (k < src.len ∧ Sending src k (step s i) ∨ k = src.len ∧ Sent src (step s i)) ∧
      (step s i).inp.pe.inEpGetAddr = s.inp.pe.inEpGetAddr ∧
      (step s i).inp.pe.inEpDataGet = false := by
  have haddr : (step s i).inp.pe.inEpGetAddr = s.inp.pe.inEpGetAddr := by
    simp [inEpGetAddr_step, h.sendData, hg]
  refine ⟨?_, haddr, by simp [inEpDataGet_step, hg]⟩
  have hnext := inPhase_step_sendData h.sendData hi.linkReset hi.linkActive
  rw [held.moreData_eq h.addr h.le_len, hg] at hnext
  rcases Nat.lt_or_ge k src.len with hlt | hge
  · left
    simp only [hlt, decide_true, Bool.not_true, Bool.and_false, Bool.or_self, Bool.false_eq_true,
      if_false] at hnext
    exact ⟨hlt, hnext, by rw [haddr, h.addr], h.le_len⟩
  · right
    have hk : k = src.len := le_antisymm h.le_len hge
    have hlt := s.inp.pe.inEpGetAddr.isLt
    have ha := h.addr
    simp only [hk, lt_irrefl, decide_false, Bool.not_false, Bool.true_or, if_true] at hnext
    refine ⟨hk, ?_, fun _ => ?_⟩
    · rcases hnext with hn | hn | hn <;> simp [Waiting, hn]
    · rw [haddr]
      omega

/-- The next byte after a pulse of the transmitter. -/
theorem Steady.step_get {k : ℕ} (h : Steady src k s) (held : Held src s)
    (hi : Serving src.buffer i) (hg : i.txDataGet = true) (hk : k < src.len) :
    (src.start.toNat + k < 63 ∧ Sending src (k + 1) (step s i) ∧
      (memRead (step s i).inp = true ∨ (step s i).ram.usbRdata = wordAt src (step s i))) ∨
    k + 1 = src.len ∧ Sent src (step s i) := by
  have hlt := s.inp.pe.inEpGetAddr.isLt
  have ha := h.addr
  have haddr : (step s i).inp.pe.inEpGetAddr = s.inp.pe.inEpGetAddr + 1 := by
    simp [inEpGetAddr_step, h.sendData, hg]
  have hnext := inPhase_step_sendData h.sendData hi.linkReset hi.linkActive
  rw [held.moreData_eq h.addr h.le_len, hg] at hnext
  simp only [hk, decide_true, Bool.not_true, Bool.false_or, Bool.and_true, beq_iff_eq] at hnext
  have hle := src.start_add_len_le
  by_cases h63 : s.inp.pe.inEpGetAddr = 63#6
  · right
    have hnat : s.inp.pe.inEpGetAddr.toNat = 63 := by rw [h63]; rfl
    refine ⟨by omega, ?_, fun _ => ?_⟩
    · rw [if_pos h63] at hnext
      rcases hnext with hn | hn | hn <;> simp [Waiting, hn]
    · rw [haddr, h63]
      have : src.start.toNat + src.len = 64 := by omega
      rw [this]
      rfl
  · left
    have hnat : s.inp.pe.inEpGetAddr.toNat ≠ 63 := fun hn => h63 (BitVec.eq_of_toNat_eq hn)
    rw [if_neg h63] at hnext
    have haddr' : (step s i).inp.pe.inEpGetAddr.toNat = src.start.toNat + (k + 1) := by
      rw [haddr, BitVec.toNat_add, show (1 : BitVec 6).toNat = 1 from rfl]
      omega
    refine ⟨by omega, ⟨hnext, haddr', hk⟩, ?_⟩
    by_cases hlow : (s.inp.pe.inEpGetAddr + 1).extractLsb' 0 2 = 0#2
    · left
      have hget : (step s i).inp.pe.inEpDataGet = true := by
        simp [inEpDataGet_step, h.sendData, hg]
      rw [memRead, hget, haddr, hlow]
      simp
    · -- the same word holds the next byte
      right
      have hsame : bufferAddr src.buffer (s.inp.pe.inEpGetAddr + 1) =
          bufferAddr src.buffer s.inp.pe.inEpGetAddr := by
        have hword : ∀ a : BitVec 6, (a + 1).extractLsb' 0 2 ≠ 0#2 →
            (a + 1).extractLsb' 2 4 = a.extractLsb' 2 4 := by decide
        rw [bufferAddr, hword _ hlow, ← bufferAddr]
      rw [held.usbRdata_hold h.noRead i, h.word, wordAt, wordAt, haddr, hsame]

/-- From the start of the read to the byte at the transmitter. -/
theorem Sending.settle {k : ℕ} (h : Sending src k s) (held : Held src s)
    (hi : Serving src.buffer i) (hg : i.txDataGet = false)
    (hw : memRead s.inp = true ∨ s.ram.usbRdata = wordAt src s) (hlt : k < src.len) :
    Sending src k (step s i) ∧ memRead (step s i).inp = false ∧
      (step s i).ram.usbRdata = wordAt src (step s i) := by
  obtain ⟨hnext, haddr, hget⟩ := h.next held hi hg
  have hsend : Sending src k (step s i) := by
    rcases hnext with ⟨-, hs⟩ | ⟨hk, -⟩
    · exact hs
    · omega
  refine ⟨hsend, ?_, ?_⟩
  · simp [memRead, hget, pktStartRd_step, held.newpkt]
  · rw [wordAt, haddr]
    cases hr : memRead s.inp with
    | true => exact held.usbRdata_read hr i
    | false =>
        rw [held.usbRdata_hold hr i]
        exact hw.resolve_left (by simp [hr])

/-- Once the word is there, the byte is at the transmitter and stays. -/
theorem Sending.steady {k : ℕ} (h : Sending src k s) (held : Held src s)
    (hi : Serving src.buffer i) (hg : i.txDataGet = false)
    (hw : s.ram.usbRdata = wordAt src s) (hlt : k < src.len) : Steady src k (step s i) := by
  obtain ⟨hsend, hread, hword⟩ := h.settle held hi hg (.inr hw) hlt
  refine ⟨hsend, hread, hword, ?_⟩
  rw [txData_step, hw]
  exact byte_eq_lane src h.addr

/-- No byte boundary of the transmitter in the next `m` cycles up to `last`. -/
def Calm (strobe : ℕ → Bool) (last t m : ℕ) : Prop :=
  ∀ u, u < m → t + u ≤ last → strobe (t + u) = false

theorem Calm.tail {strobe : ℕ → Bool} {last t m : ℕ} (h : Calm strobe last t (m + 1)) :
    Calm strobe last (t + 1) m := by
  intro u hu hle
  have := h (u + 1) (by omega) (by omega)
  rwa [show t + 1 + u = t + (u + 1) by omega]

/-- Where the pipeline stands in cycle `t`, after `k` bytes have been loaded. -/
inductive Stage (src : Source) (strobe : ℕ → Bool) (last t : ℕ) (s : State N) (i : Input N) :
    ℕ → Prop
  /-- The word of the next byte is being requested, or is there already. -/
  | fetch {k : ℕ} : Sending src k s → memRead s.inp = true ∨ s.ram.usbRdata = wordAt src s →
      i.txDataGet = false → Calm strobe last t 2 → Stage src strobe last t s i k
  /-- The word is there, the byte not yet selected. -/
  | select {k : ℕ} : Sending src k s → memRead s.inp = false → s.ram.usbRdata = wordAt src s →
      i.txDataGet = false → Calm strobe last t 1 → Stage src strobe last t s i k
  /-- The next byte is at the transmitter. -/
  | ready {k : ℕ} : Steady src k s → i.txDataGet = false → Stage src strobe last t s i k
  /-- The byte was loaded in the cycle before. -/
  | taken {k : ℕ} : Steady src k s → k < src.len → i.txDataGet = true → Calm strobe last t 3 →
      Stage src strobe last t s i (k + 1)
  | done : Sent src s → Stage src strobe last t s i src.len

omit [NeZero N] in
theorem Stage.le_len {strobe : ℕ → Bool} {last t k : ℕ} (h : Stage src strobe last t s i k) :
    k ≤ src.len := by
  cases h with
  | fetch h => exact h.le_len
  | select h => exact h.le_len
  | ready h => exact h.le_len
  | taken _ hk => exact hk
  | done => exact le_rfl

theorem Sent.next (h : Sent src s) (ht : ¬ InToken i) : Sent src (step s i) := by
  have hsend : inPhase s ≠ .sendData := h.waiting.2
  refine ⟨h.waiting.next ht, fun hn => ?_⟩
  have hidle : inPhase s ≠ .idle := by
    intro hs
    exact hn (inPhase_step_idle hs ht)
  rw [inEpGetAddr_step]
  simp [hidle, hsend, h.addr hidle]

section stage
variable {strobe : ℕ → Bool} {last t k : ℕ}

omit [NeZero N] in
/-- At a byte boundary data is offered exactly until all bytes are sent, and the byte offered
is the next one. -/
theorem Stage.at_strobe (h : Stage src strobe last t s i k) (held : Held src s)
    (hs : strobe t = true) (ht : t ≤ last) :
    txDataAvail s i = decide (k < src.len) ∧ (k < src.len → Steady src k s) := by
  have hcalm : ∀ m, Calm strobe last t (m + 1) → False := by
    intro m hm
    have := hm 0 (by omega) (by omega)
    simp [hs] at this
  cases h with
  | fetch _ _ _ hc => exact (hcalm _ hc).elim
  | select _ _ _ _ hc => exact (hcalm _ hc).elim
  | taken _ _ _ hc => exact (hcalm _ hc).elim
  | ready hst hg =>
      refine ⟨?_, fun _ => hst⟩
      rw [txDataAvail_eq, hst.sendData, held.moreData_eq hst.addr hst.le_len]
      simp
  | done hd =>
      have hsend : inPhase s ≠ .sendData := hd.waiting.2
      refine ⟨?_, fun hlt => absurd hlt (lt_irrefl _)⟩
      rw [txDataAvail_eq]
      simp [hsend]

/-- A byte is loaded. -/
theorem Stage.step_load {i' : Input N} (h : Stage src strobe last t s i k) (held : Held src s)
    (hi : Serving src.buffer i) (hs : strobe t = true) (ht : t ≤ last) (hk : k < src.len)
    (hg' : i'.txDataGet = true) (hc : Calm strobe last (t + 1) 3) :
    Stage src strobe last (t + 1) (step s i) i' (k + 1) := by
  have hst := (h.at_strobe held hs ht).2 hk
  have hg : i.txDataGet = false := by
    cases h with
    | fetch _ _ hg _ => exact hg
    | select _ _ _ hg _ => exact hg
    | ready _ hg => exact hg
    | taken _ _ _ hc' =>
        have := hc' 0 (by omega) (by omega)
        simp [hs] at this
    | done => exact absurd hk (lt_irrefl _)
  exact .taken (hst.toSending.steady held hi hg hst.word hk) hk hg' hc

/-- Nothing is loaded. -/
theorem Stage.step_wait {i' : Input N} (h : Stage src strobe last t s i k) (held : Held src s)
    (hi : Serving src.buffer i) (hg' : i'.txDataGet = false) :
    Stage src strobe last (t + 1) (step s i) i' k := by
  cases h with
  | fetch hsend hw hg hc =>
      rcases (hsend.next held hi hg).1 with ⟨hk, -⟩ | ⟨rfl, hsent⟩
      · obtain ⟨hsend', hread, hword⟩ := hsend.settle held hi hg hw hk
        exact .select hsend' hread hword hg' hc.tail
      · exact .done hsent
  | select hsend _ hw hg hc =>
      rcases (hsend.next held hi hg).1 with ⟨hk, -⟩ | ⟨rfl, hsent⟩
      · exact .ready (hsend.steady held hi hg hw hk) hg'
      · exact .done hsent
  | ready hst hg =>
      rcases (hst.toSending.next held hi hg).1 with ⟨hk, -⟩ | ⟨rfl, hsent⟩
      · exact .ready (hst.toSending.steady held hi hg hst.word hk) hg'
      · exact .done hsent
  | taken hst hk hg hc =>
      rcases hst.step_get held hi hg hk with ⟨-, hsend, hw⟩ | ⟨heq, hsent⟩
      · exact .fetch hsend hw hg' hc.tail
      · rw [heq]
        exact .done hsent
  | done hsent => exact .done (hsent.next hi.not_inToken)

end stage

/-! ### The token -/

/-- What the token of this cycle captures. From `idle` the offset starts at 0; out of
`waitAck` it is the one that the last packet left behind. -/
def sourceAt (s : State N) (i : Input N) : Source where
  buffer := (s.configin i.rx.epCurrentD).buffer
  size := (s.configin i.rx.epCurrentD).size
  hasData := (s.configin i.rx.epCurrentD).rdy
  mem := s.ram.mem
  start := if inPhase s == .idle then 0 else s.inp.pe.inEpGetAddr

/-- The buffer is not at the head of an available buffer FIFO. -/
def NotAvailable (b : BitVec 5) (s : State N) : Prop :=
  ∀ setup, (avQueue s setup).head? ≠ some b

/-- The OUT side writes only the buffer at the head of the selected FIFO. -/
theorem bufferOf_memWaddr (s : State N) (i : Input N) (h : memWrite s.out (outInput s i) = true) :
    (avQueue s (currentSetup s.out)).head? = some (bufferOf (memWaddr s.out (outInput s i))) := by
  simp only [memWrite, Bool.and_eq_true] at h
  have hne := (avRvalid_iff s i).1 h.1
  obtain ⟨b, hb⟩ : ∃ b, (avQueue s (currentSetup s.out)).head? = some b := by
    cases hq : avQueue s (currentSetup s.out) with
    | nil => exact absurd hq hne
    | cons b rest => exact ⟨b, rfl⟩
  rw [memWaddr, bufferOf_append, avRdata_of_head s i hb, hb]

/-- A buffer that neither software writes nor the OUT side may use keeps its words. -/
theorem mem_step_of_notAvailable {b : BitVec 5} (hb : NotAvailable b s) (hsw : NoSwWrite b i)
    {a : BitVec 9} (ha : bufferOf a = b) : (step s i).ram.mem a = s.ram.mem a := by
  cases hm : memWrite s.out (outInput s i) with
  | false => exact mem_step_of_no_write hm hsw ha
  | true =>
      have hhead := bufferOf_memWaddr s i hm
      have hreq : PacketRam.served (usbReq s i) i.sw.mem =
          some ⟨true, memWaddr s.out (outInput s i), s.out.wdata⟩ := by
        simp [PacketRam.served, usbReq, hm]
      have hmem : (step s i).ram.mem =
          PacketRam.writeMem s.ram.mem (PacketRam.served (usbReq s i) i.sw.mem) := rfl
      rw [hmem, hreq, PacketRam.writeMem_write]
      refine Function.update_of_ne ?_ _ _
      rintro rfl
      exact hb _ (hhead.trans (by rw [ha]))

/-- The cycle after the token: the engine has captured the packet. -/
structure Captured (src : Source) (s : State N) : Prop where
  rcvdIn : inPhase s = .rcvdIn
  buffer : s.inBuf = src.buffer
  size : s.inSize = src.size
  hasData : s.inp.pe.hasData = src.hasData
  mem : ∀ a, bufferOf a = src.buffer → s.ram.mem a = src.mem a
  newpkt : s.inp.pe.inEpNewpkt = true
  addr : s.inp.pe.inEpGetAddr = src.start
  listening : Listening s
  dataPut : s.out.pe.outEpDataPut = false

/-- A token for the IN side leaves the OUT engine waiting. -/
theorem listening_of_token (s : State N) (ht : i.rx.tokenReceived i.cfg.devAddr = true) :
    Listening (step s i) := by
  cases hs : phase s with
  | idle =>
      rcases phase_step_idle_end hs (i := i) with hn | ⟨hn, -⟩
      · exact .inl hn
      · exact .inr (.inl hn)
  | rcvdOut =>
      rw [Listening, phase_step_rcvdOut hs]
      split_ifs <;> simp
  | rcvdDataStart => exact .inl (phase_step_dataStart_token hs ht)
  | rcvdDataEnd => exact .inl (phase_step_dataEnd (.inl hs))
  | rcvdIsoDataEnd => exact .inl (phase_step_dataEnd (.inr hs))

theorem token_of_inXactStarting (h : inXactStarting s i = true) :
    InToken i ∧ (inPhase s = .idle ∨ inPhase s = .waitAck) ∧
      (inInputPe s i).epActive = true := by
  have hpe : InPe.inXactStarting s.inp.pe (inInputPe s i) = true := h
  simp only [InPe.inXactStarting, InPe.inStarting, Bool.and_eq_true, Bool.or_eq_true,
    beq_iff_eq] at hpe
  exact ⟨(inTokenReceived_iff s i).1 hpe.1.2, hpe.1.1, hpe.2⟩

theorem captured_step (h : inXactStarting s i = true) (hl : i.linkReset = false)
    (ha : i.linkActive = true) (hrx : RxOk i) (hsw : NoSwWrite (sourceAt s i).buffer i)
    (hb : NotAvailable (sourceAt s i).buffer s) : Captured (sourceAt s i) (step s i) := by
  obtain ⟨htok, hphase, hactive⟩ := token_of_inXactStarting h
  have htok' := (inTokenReceived_iff s i).2 htok
  have hpe : (step s i).inp.pe = InPe.step s.inp.pe (inInputPe s i) := rfl
  constructor
  · have hnext : (InPe.comb s.inp.pe (inInputPe s i)).stateNext = .rcvdIn := by
      have hack : (inInputPe s i).ackReceived = false := by
        have hpid : (inInputPe s i).rx.pid = usbPidIn := htok.2
        simp [InPe.Input.ackReceived, hpid, usbPidIn, usbPidAck]
      unfold inPhase at hphase
      rcases hphase with hs | hs <;> simp [InPe.comb, hs, htok', hactive, hack]
    rw [inPhase_step, hnext]
    simp [hl, ha]
  · simp [step, h, sourceAt]
  · simp [step, h, sourceAt]
  · rw [hpe]
    simp only [InPe.step, htok', if_true]
    rfl
  · exact fun a ha => mem_step_of_notAvailable hb hsw ha
  · rw [hpe]
    exact htok'
  · have hne : inPhase s ≠ .sendData := by rcases hphase with hs | hs <;> simp [hs]
    rw [inEpGetAddr_step]
    simp [sourceAt, hne]
  · exact listening_of_token s htok.1
  · have hput : i.rx.dataPut = false := by
      by_contra hp
      have := hrx.strobe_end (by simpa using hp)
      simp [RxSignals.pktEnd_of_tokenReceived htok.1] at this
    rw [dataPut_step, hput, Bool.and_false]

/-- The cycle in which the DATA packet starts. -/
theorem Captured.next (h : Captured src s) (hi : Serving src.buffer i)
    (hb : NotAvailable src.buffer s)
    (hd : inTx s i = some usbPidData0 ∨ inTx s i = some usbPidData1) :
    Held src (step s i) ∧ Sending src 0 (step s i) ∧ memRead (step s i).inp = true := by
  obtain ⟨hnew, -, hdata, hbuf, hsize⟩ := step_of_not_inToken (s := s) hi.not_inToken
  have hs : s.inp.pe.inXactState = .rcvdIn := h.rcvdIn
  have hput : (step s i).out.pe.outEpDataPut = false := by
    rw [dataPut_step, hi.dataPut, Bool.and_false]
  refine ⟨⟨?_, ?_, ?_, ?_, hnew, ?_, hput, ?_⟩, ⟨?_, ?_, Nat.zero_le _⟩, ?_⟩
  · exact hbuf.trans h.buffer
  · exact hsize.trans h.size
  · exact hdata.trans h.hasData
  · intro a ha
    rw [mem_step_of_notAvailable hb hi.noSwWrite ha]
    exact h.mem a ha
  · exact listening_step h.listening hi.pktEnd
  · have : (step s i).out.stdWrite = if i.linkReset then false else stdWriteD s.out := rfl
    simp [this, stdWriteD, h.dataPut]
  · have hnext : (InPe.comb s.inp.pe (inInputPe s i)).stateNext = .sendData := by
      have htx : inTx s i = if (InPe.comb s.inp.pe (inInputPe s i)).txPktStart then
          some (InPe.comb s.inp.pe (inInputPe s i)).txPid else none := rfl
      rw [htx] at hd
      simp only [InPe.comb, hs] at hd ⊢
      split_ifs at hd ⊢ <;> simp_all [usbPidStall, usbPidNak, usbPidData0, usbPidData1]
    rw [inPhase_step, hnext]
    simp [hi.linkReset, hi.linkActive]
  · rw [inEpGetAddr_step]
    simp [h.rcvdIn, h.addr]
  · simp [memRead, pktStartRd_step, h.newpkt]

/-! ### One transaction -/

section transaction
variable (s₀ : State N) (inp : ℕ → Input N) (strobe : ℕ → Bool)

/-- An IN transaction. A token in cycle `T` is answered with a DATA packet, and up to cycle
`last` the receiver is silent and the link up. `strobe` marks the byte boundaries at which the
transmitter, in the data phase of the packet, takes a byte if one is offered: they are at
least 32 cycles apart and from the token. Neither software nor the OUT side uses the buffer. -/
structure InTransaction (T last : ℕ) : Prop where
  token : inXactStarting (traj step s₀ inp T) (inp T) = true
  linkReset : (inp T).linkReset = false
  linkActive : (inp T).linkActive = true
  rxOk : RxOk (inp T)
  noSwWrite : NoSwWrite (sourceAt (traj step s₀ inp T) (inp T)).buffer (inp T)
  notAvailable : ∀ t, T ≤ t → t ≤ T + 1 →
    NotAvailable (sourceAt (traj step s₀ inp T) (inp T)).buffer (traj step s₀ inp t)
  serving : ∀ t, T < t → t ≤ last →
    Serving (sourceAt (traj step s₀ inp T) (inp T)).buffer (inp t)
  data : inTx (traj step s₀ inp (T + 1)) (inp (T + 1)) = some usbPidData0 ∨
    inTx (traj step s₀ inp (T + 1)) (inp (T + 1)) = some usbPidData1
  first : ∀ t, T ≤ t → t ≤ last → strobe t = true → T + 32 ≤ t
  spaced : ∀ t u, T ≤ t → t < u → u ≤ last → strobe t = true → strobe u = true → t + 32 ≤ u
  dataGet : ∀ t, T ≤ t → t < last →
    (inp (t + 1)).txDataGet = (strobe t && txDataAvail (traj step s₀ inp t) (inp t))

/-- The bytes that the transmitter loads in the first `m` cycles from `T` on. -/
def loaded (T : ℕ) : ℕ → List (BitVec 8)
  | 0 => []
  | m + 1 => loaded T m ++
      if strobe (T + m) && txDataAvail (traj step s₀ inp (T + m)) (inp (T + m)) then
        [(traj step s₀ inp (T + m)).inp.pe.txData]
      else []

variable {s₀ inp strobe} {T last : ℕ}

/-- Two cycles after the token the data phase begins. -/
theorem InTransaction.begin (h : InTransaction s₀ inp strobe T last) (hT : T + 2 ≤ last) :
    Held (sourceAt (traj step s₀ inp T) (inp T)) (traj step s₀ inp (T + 2)) ∧
      Stage (sourceAt (traj step s₀ inp T) (inp T)) strobe last (T + 2)
        (traj step s₀ inp (T + 2)) (inp (T + 2)) 0 := by
  have hcap := captured_step h.token h.linkReset h.linkActive h.rxOk h.noSwWrite
    (h.notAvailable T le_rfl (by omega))
  obtain ⟨hheld, hsend, hread⟩ := Captured.next (s := traj step s₀ inp (T + 1)) hcap
    (h.serving (T + 1) (by omega) (by omega)) (h.notAvailable (T + 1) (by omega) le_rfl) h.data
  have hnone : ∀ t, T ≤ t → t ≤ last → t < T + 32 → strobe t = false := by
    intro t h1 h2 h3
    by_contra hs
    have := h.first t h1 h2 (by simpa using hs)
    omega
  refine ⟨hheld, .fetch hsend (.inl hread) ?_ ?_⟩
  · rw [h.dataGet (T + 1) (by omega) (by omega), hnone (T + 1) (by omega) (by omega) (by omega),
      Bool.false_and]
  · intro u hu hle
    exact hnone _ (by omega) hle (by omega)

/-- In every cycle of the data phase the loaded bytes are the first of those to be sent, and
the pipeline stands after them. -/
theorem InTransaction.stage (h : InTransaction s₀ inp strobe T last) (m : ℕ)
    (hm : T + 2 + m ≤ last) :
    Held (sourceAt (traj step s₀ inp T) (inp T)) (traj step s₀ inp (T + 2 + m)) ∧
      ∃ k, Stage (sourceAt (traj step s₀ inp T) (inp T)) strobe last (T + 2 + m)
          (traj step s₀ inp (T + 2 + m)) (inp (T + 2 + m)) k ∧
        loaded s₀ inp strobe T (2 + m) =
          (sourceAt (traj step s₀ inp T) (inp T)).payload.take k := by
  induction m with
  | zero =>
      obtain ⟨hheld, hstage⟩ := h.begin hm
      refine ⟨hheld, 0, hstage, ?_⟩
      have hnone : ∀ t, T ≤ t → t ≤ T + 1 → strobe t = false := by
        intro t h1 h2
        by_contra hs
        have := h.first t h1 (by omega) (by simpa using hs)
        omega
      simp [loaded, hnone T le_rfl (by omega), hnone (T + 1) (by omega) le_rfl]
  | succ m ih =>
      obtain ⟨hheld, k, hstage, hload⟩ := ih (by omega)
      have hserve := h.serving (T + 2 + m) (by omega) (by omega)
      have hget := h.dataGet (T + 2 + m) (by omega) (by omega)
      have hshift : T + (2 + m) = T + 2 + m := by omega
      refine ⟨hheld.next hserve, ?_⟩
      cases hs : strobe (T + 2 + m) with
      | false =>
          rw [hs, Bool.false_and] at hget
          refine ⟨k, hstage.step_wait hheld hserve hget, ?_⟩
          have : loaded s₀ inp strobe T (2 + (m + 1)) = loaded s₀ inp strobe T (2 + m) := by
            change loaded s₀ inp strobe T (2 + m + 1) = _
            simp [loaded, hshift, hs]
          rw [this, hload]
      | true =>
          obtain ⟨havail, hsteady⟩ := hstage.at_strobe hheld hs (by omega)
          rw [hs, havail, Bool.true_and] at hget
          rcases Nat.lt_or_ge k (sourceAt (traj step s₀ inp T) (inp T)).len with hk | hk
          · refine ⟨k + 1, hstage.step_load hheld hserve hs (by omega) hk (hget.trans (by simpa using hk)) ?_, ?_⟩
            · intro u hu hle
              by_contra hs'
              have := h.spaced (T + 2 + m) (T + 2 + m + 1 + u) (by omega) (by omega) hle hs
                (by simpa using hs')
              omega
            · have hst := hsteady hk
              rw [Source.take_payload_succ _ hk, ← hload, ← hst.txData]
              change loaded s₀ inp strobe T (2 + m + 1) = _
              simp [loaded, hshift, hs, havail, hk]
          · refine ⟨k, hstage.step_wait hheld hserve (hget.trans (by simpa using hk)), ?_⟩
            have : loaded s₀ inp strobe T (2 + (m + 1)) = loaded s₀ inp strobe T (2 + m) := by
              change loaded s₀ inp strobe T (2 + m + 1) = _
              simp [loaded, hshift, hs, havail, Nat.not_lt.mpr hk]
            rw [this, hload]

/-- What the transmitter loads is a beginning of the bytes to be sent, and at every byte
boundary data is offered if and only if bytes are left. -/
theorem InTransaction.loaded_prefix (h : InTransaction s₀ inp strobe T last) (m : ℕ)
    (hm : T + m ≤ last) :
    loaded s₀ inp strobe T m <+: (sourceAt (traj step s₀ inp T) (inp T)).payload ∧
      (strobe (T + m) = true →
        (txDataAvail (traj step s₀ inp (T + m)) (inp (T + m)) = true ↔
          loaded s₀ inp strobe T m ≠ (sourceAt (traj step s₀ inp T) (inp T)).payload)) := by
  have hnone : ∀ t, T ≤ t → t ≤ last → t < T + 32 → strobe t = false := by
    intro t h1 h2 h3
    by_contra hs
    have := h.first t h1 h2 (by simpa using hs)
    omega
  match m, hm with
  | 0, hm => exact ⟨List.nil_prefix, fun hs => by simp [hnone T le_rfl hm (by omega)] at hs⟩
  | 1, hm =>
      refine ⟨?_, fun hs => ?_⟩
      · simp [loaded, hnone T le_rfl (by omega) (by omega)]
      · simp [hnone (T + 1) (by omega) hm (by omega)] at hs
  | m + 2, hm =>
      obtain ⟨hheld, k, hstage, hload⟩ := h.stage m (by omega)
      rw [show m + 2 = 2 + m by omega, show T + (2 + m) = T + 2 + m by omega, hload]
      refine ⟨List.take_prefix _ _, fun hs => ?_⟩
      rw [(hstage.at_strobe hheld hs (by omega)).1, decide_eq_true_iff, ne_eq,
        List.take_eq_self_iff, Source.length_payload, not_le]

/-- The packet armed on endpoint `e`: the first `min size 64` bytes of its buffer. -/
def armedPacket (s : State N) (e : Fin N) : List (BitVec 8) :=
  if (s.configin e).rdy then
    bufferBytes s.ram.mem (s.configin e).buffer (min (s.configin e).size.toNat 64)
  else []

theorem payload_sourceAt {s : State N} (i : Input N) (hidle : inPhase s = .idle) :
    (sourceAt s i).payload = armedPacket s i.rx.epCurrentD := by
  have hstart : (sourceAt s i).start = 0 := by simp [sourceAt, hidle]
  unfold armedPacket
  cases hrdy : (s.configin i.rx.epCurrentD).rdy with
  | true => exact Source.payload_of_start_eq_zero _ hstart hrdy
  | false =>
      have hdata : (sourceAt s i).hasData = false := hrdy
      simp [Source.payload, Source.len, Source.stop, hdata]

/-- The IN data path: in a transaction that begins in `idle` the transmitter loads the packet
armed in the token cycle, byte by byte and in order (no byte when an isochronous endpoint has
no packet), and at the byte boundary after the last byte none is offered. -/
theorem InTransaction.loaded_armedPacket (h : InTransaction s₀ inp strobe T last)
    (hidle : inPhase (traj step s₀ inp T) = .idle) (m : ℕ) (hm : T + m ≤ last) :
    loaded s₀ inp strobe T m <+: armedPacket (traj step s₀ inp T) (inp T).rx.epCurrentD ∧
      (strobe (T + m) = true →
        (txDataAvail (traj step s₀ inp (T + m)) (inp (T + m)) = true ↔
          loaded s₀ inp strobe T m ≠
            armedPacket (traj step s₀ inp T) (inp T).rx.epCurrentD)) := by
  rw [← payload_sourceAt _ hidle]
  exact h.loaded_prefix m hm

end transaction

/-! ### Two bytes on endpoint 1 -/

/-- A device whose RAM words hold their own address. -/
def numberedDevice : State 12 :=
  State.reset (fun _ => 0) (fun _ => 0) (fun _ => ⟨0, false, 0, 0⟩) (fun a => a.setWidth 32) 0

/-- Software arms two bytes of buffer 3 on endpoint 1, and the host asks for them. -/
def twoBytesIn : List (Input 12) :=
  [cycle (rxQuiet 1)
      { configin := some (1, { buffer := 3, size := 2, sending := false, pend := false, rdy := true }) },
    cycle (rxEnd usbPidIn 1)]

/-- The transmitter's byte boundaries after a token in cycle 1. -/
def everyByte (t : ℕ) : Bool := t == 33 || t == 65 || t == 97

/-- The transmitter takes both bytes. -/
def twoBytesTaken (t : ℕ) : Input 12 :=
  { cyclesOf twoBytesIn t with txDataGet := t == 34 || t == 66 }

theorem inTransaction_twoBytes :
    InTransaction numberedDevice twoBytesTaken everyByte 1 97 where
  token := by decide
  linkReset := rfl
  linkActive := rfl
  rxOk := ⟨by decide⟩
  noSwWrite := by simp [NoSwWrite, twoBytesTaken, cyclesOf, twoBytesIn, cycle]
  notAvailable := by
    intro t h1 h2 setup
    obtain rfl | rfl : t = 1 ∨ t = 2 := by omega
    all_goals cases setup <;> decide
  serving := by
    intro t ht _
    have hcycle : cyclesOf twoBytesIn t = cycle (rxQuiet 1) := by
      simp [cyclesOf, twoBytesIn, show ¬ t < 2 by omega]
    constructor <;> simp [twoBytesTaken, hcycle, cycle, rxQuiet, NoSwWrite]
  data := by decide
  first := by
    intro t _ _ hs
    simp only [everyByte, Bool.or_eq_true, beq_iff_eq] at hs
    omega
  spaced := by
    intro t u _ _ _ ht hu
    simp only [everyByte, Bool.or_eq_true, beq_iff_eq] at ht hu
    omega
  dataGet := by
    have hget : ∀ t < 97, 1 ≤ t → (twoBytesTaken (t + 1)).txDataGet =
        (everyByte t && txDataAvail (traj step numberedDevice twoBytesTaken t)
          (twoBytesTaken t)) := by decide +kernel
    exact fun t h1 ht => hget t ht h1

theorem loaded_twoBytes :
    loaded numberedDevice twoBytesTaken everyByte 1 96 <+:
        armedPacket (traj step numberedDevice twoBytesTaken 1) 1 ∧
      (everyByte 97 = true →
        (txDataAvail (traj step numberedDevice twoBytesTaken 97) (twoBytesTaken 97) = true ↔
          loaded numberedDevice twoBytesTaken everyByte 1 96 ≠
            armedPacket (traj step numberedDevice twoBytesTaken 1) 1)) :=
  inTransaction_twoBytes.loaded_armedPacket (by decide) 96 (by decide)

end UsbDev.Device
