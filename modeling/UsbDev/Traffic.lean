import UsbDev.Device

/-!
# Bus traffic

The cycles of a packet as the receiver shows them, and where a packet takes the
OUT engine: `pkt_start_o` opens it, `pkt_end_o` closes it, and between two
packets there is neither. The lemmas follow one packet, or one gap, from
whatever state the engine is in.
-/
namespace UsbDev.Device

open Clocked UsbIf
open OutPe (XactState)

variable {N : ℕ} [NeZero N]

/-- What the receiver promises of a cycle: a byte strobe follows a bit and so never
meets the end of a packet. -/
structure RxOk (i : Input N) : Prop where
  strobe_end : i.rx.dataPut = true → i.rx.pktEnd = false

/-- A cycle is allowed in any state if the receiver keeps its promise. -/
def RxAllowed (_ : State N) (i : Input N) : Prop := RxOk i

/-- Whether a byte has been strobed since the last start of packet. -/
def byteSeen (seen : Bool) (i : Input N) : Bool := !i.rx.pktStart && (seen || i.rx.dataPut)

/-- A valid DATA packet holds the bytes of its CRC, so one has been strobed since it started. -/
def HasBytes : Bool → List (Input N) → Prop
  | _, [] => True
  | seen, i :: is => (i.rx.dataPacketReceived = true → seen = true) ∧ HasBytes (byteSeen seen i) is

/-- Neither the start nor the end of a packet. -/
def NoEvent (i : Input N) : Prop := i.rx.pktStart = false ∧ i.rx.pktEnd = false

/-- The cycles of one packet, from the start of packet to its end. The receiver may repeat
the start of packet while the synchronisation pattern lasts. -/
structure Packet (N : ℕ) where
  start : Input N
  body : List (Input N)
  last : Input N
  start_pktStart : start.rx.pktStart = true
  start_pktEnd : start.rx.pktEnd = false
  body_pktEnd : ∀ i ∈ body, i.rx.pktEnd = false
  last_pktEnd : last.rx.pktEnd = true

/-- The cycles of the packet before the one in which it ends. -/
def Packet.front (p : Packet N) : List (Input N) := p.start :: p.body

omit [NeZero N] in
theorem Packet.front_pktEnd (p : Packet N) : ∀ i ∈ p.front, i.rx.pktEnd = false := by
  simpa [front, p.start_pktEnd] using p.body_pktEnd

def Packet.cycles (p : Packet N) : List (Input N) := p.front ++ [p.last]

/-- The inputs of the OUT engine. -/
def peInput (s : State N) (i : Input N) : OutPe.Input N := outPeInput s.out (outInput s i)

/-- The state of the OUT engine's transaction machine. -/
def phase (s : State N) : XactState := s.out.pe.outXactState

omit [NeZero N] in
@[simp] theorem peInput_rx (s : State N) (i : Input N) : (peInput s i).rx = i.rx := rfl

omit [NeZero N] in
@[simp] theorem peInput_linkReset (s : State N) (i : Input N) :
    (peInput s i).linkReset = i.linkReset := rfl

theorem step_pe (s : State N) (i : Input N) :
    (step s i).out.pe = OutPe.step s.out.pe (peInput s i) := rfl

theorem outComb_eq (s : State N) (i : Input N) :
    outComb s.out (outInput s i) = OutPe.comb s.out.pe (peInput s i) := rfl

theorem rxWvalid_eq (s : State N) (i : Input N) :
    rxWvalid s i = (OutPe.comb s.out.pe (peInput s i)).acked := rfl

theorem phase_step (s : State N) (i : Input N) :
    phase (step s i) =
      if i.linkReset then .idle else (OutPe.comb s.out.pe (peInput s i)).stateNext := rfl

/-- The entry stored in the received buffer FIFO in this cycle. -/
def rxPush (s : State N) (i : Input N) : Option (RxEntry N) :=
  if rxWvalid s i && s.rxFifo.wready then some (rxWdata s i) else none

/-! ### One cycle -/

section cycle
variable {s : State N} {i : Input N}

theorem phase_step_idle (hs : phase s = .idle) (h : i.rx.pktEnd = false) :
    phase (step s i) = .idle := by
  rw [phase_step, OutPe.comb_idle_of_not_end (i := peInput s i) h hs]
  simp

theorem phase_step_rcvdOut (hs : phase s = .rcvdOut) :
    phase (step s i) =
      if i.linkReset then .idle
      else if i.rx.pktStart then .rcvdDataStart
      else if s.out.pe.timeoutCntdown == 0 then .idle else .rcvdOut := by
  have hs' : s.out.pe.outXactState = .rcvdOut := hs
  rw [phase_step]
  simp only [OutPe.comb, hs', peInput_rx]
  by_cases h : i.rx.pktStart = true
  · simp only [h, if_true]
  · simp only [h]
    split_ifs <;> simp_all

theorem phase_step_dataStart (hs : phase s = .rcvdDataStart) (h : i.rx.pktEnd = false) :
    phase (step s i) = if i.linkReset then .idle else .rcvdDataStart := by
  rw [phase_step, OutPe.comb_dataStart_of_not_end (i := peInput s i) h hs]

theorem phase_step_dataEnd (hs : phase s = .rcvdDataEnd ∨ phase s = .rcvdIsoDataEnd) :
    phase (step s i) = .idle := by
  rw [phase_step, OutPe.stateNext_dataEnd hs]
  simp

/-- The end of a packet always ends the reception of data. -/
theorem phase_step_dataStart_end (hs : phase s = .rcvdDataStart) (h : i.rx.pktEnd = true) :
    phase (step s i) = .idle ∨ phase (step s i) = .rcvdDataEnd ∨
      phase (step s i) = .rcvdIsoDataEnd := by
  have hs' : s.out.pe.outXactState = .rcvdDataStart := hs
  rw [phase_step]
  simp only [OutPe.comb, hs', OutPe.Input.invalidPacketReceived,
    OutPe.Input.nonDataPacketReceived, RxSignals.dataPacketReceived, peInput_rx, h]
  cases i.linkReset <;> split_ifs <;> simp_all

/-- A token ends the reception of data without a transaction. -/
theorem phase_step_dataStart_token (hs : phase s = .rcvdDataStart)
    (h : i.rx.tokenReceived i.cfg.devAddr = true) : phase (step s i) = .idle := by
  have hs' : s.out.pe.outXactState = .rcvdDataStart := hs
  have hd := RxSignals.dataPacketReceived_of_tokenReceived h
  simp only [RxSignals.dataPacketReceived, RxSignals.tokenReceived, Bool.and_eq_true] at hd h
  have hd' : (i.rx.pid == usbPidData0 || i.rx.pid == usbPidData1) = false := by
    simpa [h.1.1.1, h.1.1.2] using hd
  rw [phase_step]
  simp [OutPe.comb, hs', OutPe.badDataToggle, OutPe.Input.nonDataPacketReceived,
    RxSignals.dataPacketReceived, h.1.1.1, h.1.1.2, hd']

/-- A transaction opens only from `idle`, at the end of a token. -/
theorem phase_step_idle_end (hs : phase s = .idle) :
    phase (step s i) = .idle ∨ phase (step s i) = .rcvdOut ∧
      (OutPe.comb s.out.pe (peInput s i)).xactStart = true := by
  have hs' : s.out.pe.outXactState = .idle := hs
  rw [phase_step]
  simp only [OutPe.comb, hs']
  cases i.linkReset <;> split_ifs <;> simp_all

/-- In these states the engine never answers. -/
theorem outTx_eq_none (hs : phase s = .idle ∨ phase s = .rcvdOut ∨ phase s = .rcvdIsoDataEnd) :
    outTx s i = none := by
  have hcomb : (OutPe.comb s.out.pe (peInput s i)).txPktStart = false := by
    unfold OutPe.comb
    unfold phase at hs
    rcases hs with hs | hs | hs <;> simp only [hs] <;> split_ifs <;> rfl
  simp [outTx, outComb_eq, hcomb]

theorem outTx_dataStart_of_not_end (hs : phase s = .rcvdDataStart) (h : i.rx.pktEnd = false) :
    outTx s i = none := by
  simp [outTx, outComb_eq, OutPe.comb_dataStart_of_not_end (i := peInput s i) h hs]

theorem rxWvalid_eq_false (i : Input N)
    (h : phase s ≠ .rcvdDataEnd ∧ phase s ≠ .rcvdIsoDataEnd) : rxWvalid s i = false :=
  OutPe.acked_eq_false _ h

/-- The engine is not about to answer. -/
def Listening (s : State N) : Prop :=
  phase s = .idle ∨ phase s = .rcvdOut ∨ phase s = .rcvdDataStart

theorem listening_step (h : Listening s) (he : i.rx.pktEnd = false) :
    Listening (step s i) := by
  rcases h with hs | hs | hs
  · exact .inl (phase_step_idle hs he)
  · have hn := phase_step_rcvdOut hs (i := i)
    rw [Listening, hn]
    split_ifs <;> simp
  · have hn := phase_step_dataStart hs he
    rw [Listening, hn]
    split_ifs <;> simp

theorem outTx_of_listening (h : Listening s) (he : i.rx.pktEnd = false) :
    outTx s i = none := by
  rcases h with hs | hs | hs
  · exact outTx_eq_none (.inl hs)
  · exact outTx_eq_none (.inr (.inl hs))
  · exact outTx_dataStart_of_not_end hs he

theorem rxWvalid_of_listening (h : Listening s) (i : Input N) :
    rxWvalid s i = false :=
  rxWvalid_eq_false i (by rcases h with hs | hs | hs <;> simp [hs])

end cycle

/-! ### One packet, one gap -/

/-- After a start of packet the engine either ignores the packet or receives it as data. -/
theorem phase_step_start (s : State N) {i : Input N} (hst : i.rx.pktStart = true)
    (he : i.rx.pktEnd = false) :
    phase (step s i) = .idle ∨ phase (step s i) = .rcvdDataStart := by
  cases hs : phase s with
  | idle => exact .inl (phase_step_idle hs he)
  | rcvdOut =>
      rw [phase_step_rcvdOut hs]
      cases i.linkReset <;> simp [hst]
  | rcvdDataStart =>
      rw [phase_step_dataStart hs he]
      cases i.linkReset <;> simp
  | rcvdDataEnd => exact .inl (phase_step_dataEnd (.inl hs))
  | rcvdIsoDataEnd => exact .inl (phase_step_dataEnd (.inr hs))

theorem phase_run_noEvent_idle {s : State N} (hs : phase s = .idle) (is : List (Input N))
    (h : ∀ i ∈ is, i.rx.pktEnd = false) : phase (run step s is) = .idle :=
  run_invariant (fun s => phase s = .idle) (fun i => i.rx.pktEnd = false)
    (fun _ _ hi hs => phase_step_idle hs hi) hs is h

/-- Just before a packet ends the engine is `idle` or receives the packet as data. -/
theorem phase_front (s : State N) (p : Packet N) :
    phase (run step s p.front) = .idle ∨ phase (run step s p.front) = .rcvdDataStart := by
  refine run_invariant (fun s => phase s = .idle ∨ phase s = .rcvdDataStart)
    (fun i => i.rx.pktEnd = false) ?_ (phase_step_start s p.start_pktStart p.start_pktEnd)
    p.body p.body_pktEnd
  rintro s i he (hs | hs)
  · exact .inl (phase_step_idle hs he)
  · rw [phase_step_dataStart hs he]
    cases i.linkReset <;> simp

/-- Data is received only in a transaction that was open before. -/
theorem phase_of_run_dataStart {s : State N} (is : List (Input N))
    (h : ∀ i ∈ is, i.rx.pktEnd = false) (hr : phase (run step s is) = .rcvdDataStart) :
    phase s = .rcvdOut ∨ phase s = .rcvdDataStart := by
  by_contra hs
  simp only [not_or] at hs
  have hinv : phase (run step s is) ≠ .rcvdOut ∧ phase (run step s is) ≠ .rcvdDataStart := by
    refine run_invariant (fun s : State N => phase s ≠ .rcvdOut ∧ phase s ≠ .rcvdDataStart)
      (fun i => i.rx.pktEnd = false) ?_ hs is h
    rintro s i hi ⟨ho, hd⟩
    have hn : phase (step s i) = .idle := by
      cases hp : phase s with
      | idle => exact phase_step_idle hp hi
      | rcvdOut => exact absurd hp ho
      | rcvdDataStart => exact absurd hp hd
      | rcvdDataEnd => exact phase_step_dataEnd (.inl hp)
      | rcvdIsoDataEnd => exact phase_step_dataEnd (.inr hp)
    simp [hn]
  exact hinv.2 hr

/-- After a packet the engine no longer receives data. -/
theorem phase_packet (s : State N) (p : Packet N) :
    phase (run step s p.cycles) ≠ .rcvdDataStart := by
  rw [Packet.cycles, run_append, run_cons, run_nil]
  rcases phase_front s p with hs | hs
  · rcases phase_step_idle_end hs (i := p.last) with h | ⟨h, _⟩ <;> simp [h]
  · rcases phase_step_dataStart_end hs p.last_pktEnd with h | h | h <;> simp [h]

/-! ### Concrete cycles

Cycles of a device whose endpoints are all enabled and whose endpoint 0 is a control
endpoint; the concrete runs below are made of them. -/

/-- A cycle with these receiver signals and this software access. -/
def cycle (rx : RxSignals) (sw : Sw N := {}) : Input N where
  rx := rx
  txPktEnd := false
  txDataGet := false
  linkReset := false
  linkActive := true
  cfg :=
    { devAddr := 0
      epInEnable := fun _ => true
      epOutEnable := fun _ => true
      rxenableSetup := fun e => e == 0
      setNakOut := fun _ => false
      outIso := fun _ => false
      inIso := fun _ => false }
  sw := sw

/-- No packet event; the receiver shows endpoint `endp`. -/
def rxQuiet (endp : BitVec 4) : RxSignals := ⟨false, false, false, 0, 0, endp, false, 0⟩

def rxStart (endp : BitVec 4) : RxSignals := ⟨true, false, false, 0, 0, endp, false, 0⟩

/-- One byte strobe. -/
def rxByte (endp : BitVec 4) (byte : BitVec 8) : RxSignals :=
  ⟨false, false, false, 0, 0, endp, true, byte⟩

/-- The end of a valid packet. -/
def rxEnd (pid : BitVec 4) (endp : BitVec 4) : RxSignals :=
  ⟨false, true, true, pid, 0, endp, false, 0⟩

theorem rxOk_cycle (rx : RxSignals) (sw : Sw N) (h : rx.dataPut = true → rx.pktEnd = false) :
    RxOk (cycle rx sw) := ⟨h⟩

/-- A valid token for endpoint `endp` of the device. -/
def tokenPacket (pid endp : BitVec 4) : Packet N where
  start := cycle (rxStart 0)
  body := []
  last := cycle (rxEnd pid endp)
  start_pktStart := rfl
  start_pktEnd := rfl
  body_pktEnd := by simp
  last_pktEnd := rfl

/-- A valid DATA packet that carries `bytes`, its two CRC bytes included. -/
def dataPacket (pid endp : BitVec 4) (bytes : List (BitVec 8)) : Packet N where
  start := cycle (rxStart endp)
  body := bytes.map fun byte => cycle (rxByte endp byte)
  last := cycle (rxEnd pid endp)
  start_pktStart := rfl
  start_pktEnd := rfl
  body_pktEnd := by simp [cycle, rxByte]
  last_pktEnd := rfl

/-! ### A device with twelve endpoints -/

instance neZero_twelve : NeZero 12 := ⟨by decide⟩

/-- The device out of reset, with cleared storage. -/
def clearedDevice : State 12 :=
  State.reset (fun _ => 0) (fun _ => 0) (fun _ => ⟨0, false, 0, 0⟩) (fun _ => 0) 0

/-- The cycles of a list, then a quiet bus. -/
def cyclesOf (is : List (Input 12)) (t : ℕ) : Input 12 := is.getD t (cycle (rxQuiet 1))

/-- Software supplies buffer 3 for SETUP packets and buffer 5 for OUT packets, and enables
reception on every endpoint. -/
def supply : List (Input 12) :=
  [cycle (rxQuiet 0), cycle (rxQuiet 0) { avsetupbuffer := some 3 },
    cycle (rxQuiet 0) { avoutbuffer := some 5 },
    cycle (rxQuiet 0) { rxenableOut := some (fun _ => true, fun _ => false) }]

/-- The device with a buffer for either kind of packet. -/
def suppliedDevice : State 12 := run step clearedDevice supply

theorem reachable_suppliedDevice : Reachable step RxAllowed clearedDevice suppliedDevice := by
  refine Reachable.init.run supply fun i hi _ => ?_
  simp only [supply, List.mem_cons, List.not_mem_nil, or_false] at hi
  rcases hi with rfl | rfl | rfl | rfl <;> exact rxOk_cycle _ _ (by decide)

end UsbDev.Device
