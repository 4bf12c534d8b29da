import UsbDev.Clocked
import UsbDev.TxStages

/-!
# A transmitted packet on the line

The transmitter together with the endpoint that offers it a payload, from a
request to the end of packet. The line is recorded in every cycle, and the
record is the line code of the packet: SYNC, identifier, payload and CRC, bit
stuffed and NRZI coded, four cycles for each symbol.
-/
namespace UsbDev.FsTx

open LineCode Clocked

/-! ### The bits of a packet -/

/-- Packets with a data identifier carry a payload. -/
def carriesData (pid : BitVec 4) : Bool := pid.extractLsb' 0 2 == 0b11#2

def payloadBits (payload : List (BitVec 8)) : List Bool := payload.flatMap bitsLsb

/-- The CRC of a payload. -/
def crc16 (payload : List (BitVec 8)) : BitVec 16 :=
  Crc.run crc16Poly 0xffff#16 (payloadBits payload)

/-- SYNC, identifier and inverted identifier, least significant bit first. -/
def headerBits (pid : BitVec 4) : List Bool :=
  bitsLsb 0b10000000#8 ++ (bitsLsb pid ++ bitsLsb (~~~pid))

/-- The bits of a packet before stuffing: a data packet has the payload and its complemented
CRC after the identifier. -/
def packetBits (pid : BitVec 4) (payload : List (BitVec 8)) : List Bool :=
  if carriesData pid then headerBits pid ++ payloadBits payload ++ bitsMsb (~~~crc16 payload)
  else headerBits pid

/-! ### The transmitter and the endpoint -/

/-- The levels on the line while `usb_oe_o` is high. -/
def lineOut (s : State) : Option (Bool × Bool) :=
  if s.oe then some (s.usbDp, s.usbDn) else none

/-- The transmitter with the payload bytes that it has not fetched, what the line showed in the
cycles so far, the number of `tx_data_get` pulses and the cycles with a `pkt_end` pulse. -/
structure Bench where
  tx : State
  rest : List (BitVec 8)
  wave : List (Option (Bool × Bool))
  gets : ℕ
  ends : List ℕ

def Bench.init (s : State) (payload : List (BitVec 8)) : Bench where
  tx := s
  rest := payload
  wave := []
  gets := 0
  ends := []

/-- One cycle; `tx_data_get` takes a byte from the endpoint. -/
def Bench.step (b : Bench) (i : Input) : Bench where
  tx := FsTx.step b.tx i
  rest := if txDataGet b.tx then b.rest.tail else b.rest
  wave := b.wave ++ [lineOut b.tx]
  gets := b.gets + (txDataGet b.tx).toNat
  ends := if pktEnd b.tx i then b.ends ++ [b.wave.length] else b.ends

/-- In the cycle in which the transmitter looks at it the endpoint offers the next byte, or none
when all are taken. -/
def Bench.Offers (b : Bench) (i : Input) : Prop :=
  b.tx.state = .dataOrCrc160 → b.tx.byteStrobe = true →
    i.txDataAvail = !b.rest.isEmpty ∧ ∀ x ∈ b.rest.head?, i.txData = x

/-- The record once the symbols are on the line and the last of them has been there for `k`
cycles. -/
def Bench.Wave (flip : Bool) (lead k : ℕ) (b : Bench) (lines : List Line) : Prop :=
  b.wave ++ List.replicate (4 - k) (lines.getLast?.map (wires flip)) =
    List.replicate lead none ++ lines.flatMap fun l => List.replicate 4 (some (wires flip l))

namespace Bench.Wave
variable {flip : Bool} {lead k : ℕ} {b : Bench} {i : Input} {lines : List Line}

theorem hold (h : b.Wave flip lead k lines) (hk : k < 4)
    (hl : lineOut b.tx = lines.getLast?.map (wires flip)) :
    (b.step i).Wave flip lead (k + 1) lines := by
  have hrep : 4 - k = (4 - (k + 1)) + 1 := by omega
  rw [Bench.Wave, hrep, List.replicate_succ] at h
  rw [Bench.Wave, Bench.step, hl, List.append_assoc, List.singleton_append]
  exact h

/-- A bit strobe puts the next symbol on the line. -/
theorem push (h : b.Wave flip lead 4 lines) (l : Line) : b.Wave flip lead 0 (lines ++ [l]) := by
  have hw : b.wave = List.replicate lead none ++
      lines.flatMap fun l => List.replicate 4 (some (wires flip l)) := by
    simpa [Bench.Wave] using h
  simp [Bench.Wave, hw]

end Bench.Wave

/-- The symbols on the line for the bits sent so far. -/
def symbols (raw : List Bool) : List Line := (nrzi true raw).map Line.ofLevel

theorem symbols_snoc (raw : List Bool) (b : Bool) :
    symbols (raw ++ [b]) =
      symbols raw ++ [Line.ofLevel ((raw ++ [b]).foldl nrziStep true)] := by
  simp [symbols, nrzi_append]

/-- The bench `k` cycles after a bit strobe of the transmission: `left` are the payload bytes
not yet loaded and `lead` is the number of cycles before the first symbol. -/
structure Bench.Sends (flip : Bool) (pid : BitVec 4) (total lead k : ℕ) (b : Bench)
    (p : Progress) (left : List (BitVec 8)) : Prop where
  tx : FsTx.Sends flip pid k b.tx p
  wave : b.Wave flip lead k (symbols p.raw)
  rest : (if txDataGet b.tx then b.rest.tail else b.rest) = left
  gets : b.gets + (txDataGet b.tx).toNat + left.length = total
  ends : b.ends = []

theorem Sends.lineOut_eq {flip : Bool} {pid : BitVec 4} {k : ℕ} {s : State} {p : Progress}
    (h : Sends flip pid k s p) : lineOut s = (symbols p.raw).getLast?.map (wires flip) := by
  by_cases hr : p.raw = []
  · simp [lineOut, h.oe, hr, symbols]
  · have hlast := getLast?_nrzi true hr
    have hoe : s.oe = true := by simpa [h.oe] using hr
    rw [symbols, List.getLast?_map, hlast, lineOut, hoe, h.usbDp, h.usbDn, ← h.usbD]
    simp [wires_ofLevel]

theorem Sends.pktEnd {flip : Bool} {pid : BitVec 4} {k : ℕ} {s : State} {i : Input} {p : Progress}
    (h : Sends flip pid k s p) : pktEnd s i = false := by
  simp [FsTx.pktEnd, h.se0ShiftReg]

namespace Bench.Sends
variable {flip : Bool} {pid : BitVec 4} {total lead k : ℕ} {b : Bench} {i : Input} {p : Progress}
  {left : List (BitVec 8)}

theorem quiet (h : b.Sends flip pid total lead k p left) (hi : Busy flip false i) (hk : k < 3)
    (hb : k = 0 → p.bits ≠ []) : (b.step i).Sends flip pid total lead (k + 1) p left := by
  have hget : txDataGet (FsTx.step b.tx i) = false := h.tx.not_txDataGet hi hb
  exact
    { tx := h.tx.quiet hi hk hb
      wave := h.wave.hold (by omega) h.tx.lineOut_eq
      rest := by
        change (if txDataGet (FsTx.step b.tx i) then _ else _) = _
        rw [hget]
        exact h.rest
      gets := by
        have hcount := h.gets
        change b.gets + (txDataGet b.tx).toNat + (txDataGet (FsTx.step b.tx i)).toNat + _ = _
        rw [hget]
        exact hcount
      ends := by simp [Bench.step, h.tx.pktEnd, h.ends] }

/-- The byte strobe loads a byte, taken from the endpoint if `get` holds. -/
theorem load (h : b.Sends flip pid total lead 0 p left) (hi : Busy flip false i)
    (hb : p.bits = []) {st : ByteState} {dp get : Bool} {x : BitVec 8}
    (hget : get = true → st = .dataOrCrc160) (hleft : get = true → left ≠ [])
    (hfsm : byteFsm b.tx i =
      { state := st, dataShiftReg := x, oeShiftReg := 0xff#8, se0ShiftReg := 0
        dataPayload := dp, txDataGet := get, bitHistory := b.tx.bitHistory
        bitCount := b.tx.bitCount, testModeStart := false }) :
    (b.step i).Sends flip pid total lead 1 (p.load st dp x)
      (if get then left.tail else left) := by
  have hold : txDataGet b.tx = false := h.tx.txDataGet_eq_false (by decide)
  have hnew : txDataGet (FsTx.step b.tx i) = get := by
    rw [txDataGet, step_quiet hi, hfsm]
  have hrest := h.rest
  have hcount := h.gets
  rw [hold] at hrest hcount
  exact
    { tx := h.tx.load hi hb hget hfsm
      wave := h.wave.hold (by decide) h.tx.lineOut_eq
      rest := by
        change (if txDataGet (FsTx.step b.tx i) then
          (if txDataGet b.tx then b.rest.tail else b.rest).tail
          else (if txDataGet b.tx then b.rest.tail else b.rest)) = _
        rw [hnew, hold, ← hrest]
      gets := by
        change b.gets + (txDataGet b.tx).toNat + (txDataGet (FsTx.step b.tx i)).toNat + _ = _
        rw [hnew, hold]
        cases get with
        | false => exact hcount
        | true =>
            have hpos := List.length_pos_of_ne_nil (hleft rfl)
            simp only [Bool.toNat_true, Bool.toNat_false, if_true, List.length_tail] at hcount ⊢
            omega
      ends := by simp [Bench.step, h.tx.pktEnd, h.ends] }

/-- The bit strobe sends the next bit. -/
theorem next (h : b.Sends flip pid total lead 3 p left) (hi : Busy flip true i)
    (hb : p.bits ≠ []) : (b.step i).Sends flip pid total lead 0 p.next left := by
  have htx := h.tx.next hi hb
  have hold : txDataGet b.tx = false := h.tx.txDataGet_eq_false (by decide)
  have hnew : txDataGet (FsTx.step b.tx i) = false := htx.txDataGet_eq_false (by decide)
  have hraw : ∃ c, p.next.raw = p.raw ++ [c] := by
    obtain ⟨c, cs, hc⟩ := List.exists_cons_of_ne_nil hb
    refine ⟨c, ?_⟩
    simp only [Progress.next, hc]
    split_ifs <;> rfl
  obtain ⟨c, hc⟩ := hraw
  exact
    { tx := htx
      wave := by
        rw [hc, symbols_snoc]
        exact (h.wave.hold (by decide) h.tx.lineOut_eq).push _
      rest := by
        change (if txDataGet (FsTx.step b.tx i) then _ else _) = _
        rw [hnew]
        exact h.rest
      gets := by
        have hcount := h.gets
        change b.gets + (txDataGet b.tx).toNat + (txDataGet (FsTx.step b.tx i)).toNat + _ = _
        rw [hnew]
        exact hcount
      ends := by simp [Bench.step, h.tx.pktEnd, h.ends] }

end Bench.Sends

theorem Bench.Wave.length {flip : Bool} {lead : ℕ} {b : Bench} {lines : List Line}
    (h : b.Wave flip lead 3 lines) : b.wave.length + 1 = lead + 4 * lines.length := by
  have hlen := congrArg List.length h
  simpa [Nat.mul_comm] using hlen

/-- The bench `k` cycles after the bit strobe `n` of the end of packet. -/
structure Bench.Ends (flip : Bool) (total lead k n : ℕ) (b : Bench) (lines : List Line)
    (left : List (BitVec 8)) (ends : List ℕ) : Prop where
  tx : ∀ l ∈ lines.getLast?, Ending flip l n b.tx
  nonempty : lines ≠ []
  wave : b.Wave flip lead k lines
  rest : b.rest = left
  gets : b.gets + left.length = total
  ends : b.ends = ends

namespace Bench.Ends
variable {flip : Bool} {total lead k n : ℕ} {b : Bench} {i : Input} {lines : List Line}
  {left : List (BitVec 8)} {ends : List ℕ}

theorem exists_ending (h : b.Ends flip total lead k n lines left ends) :
    ∃ l, lines.getLast? = some l ∧ Ending flip l n b.tx := by
  have hlast := List.getLast?_eq_getLast_of_ne_nil h.nonempty
  exact ⟨_, hlast, h.tx _ hlast⟩

theorem lineOut_eq (h : b.Ends flip total lead k n lines left ends) :
    lineOut b.tx = lines.getLast?.map (wires flip) := by
  obtain ⟨l, hlast, hl⟩ := h.exists_ending
  rw [lineOut, hl.oe, hl.usbDp, hl.usbDn, hlast, Option.map_some, ← hl.line]
  rfl

theorem quiet (h : b.Ends flip total lead k n lines left ends) (hi : Busy flip false i)
    (hk : k < 3) (hn : n ≤ 3) : (b.step i).Ends flip total lead (k + 1) n lines left ends := by
  obtain ⟨l, hlast, hl⟩ := h.exists_ending
  have hend : pktEnd b.tx i = false := hl.pktEnd_eq hi hn
  exact
    { tx := fun l' hl' => (h.tx l' hl').quiet hi
      nonempty := h.nonempty
      wave := h.wave.hold (by omega) h.lineOut_eq
      rest := by simp [Bench.step, txDataGet, hl.txDataGet, h.rest]
      gets := by simp [Bench.step, txDataGet, hl.txDataGet, h.gets]
      ends := by simp [Bench.step, hend, h.ends] }

theorem strobe (h : b.Ends flip total lead 3 n lines left ends) (hi : Busy flip true i)
    (hn : n < 3) :
    (b.step i).Ends flip total lead 0 (n + 1) (lines ++ [if n < 2 then .se0 else .j]) left
      (if n = 2 then ends ++ [lead + 4 * lines.length - 1] else ends) := by
  obtain ⟨l, hlast, hl⟩ := h.exists_ending
  have hend : pktEnd b.tx i = (n == 2) := hl.pktEnd_eq hi (by omega)
  have hlen := h.wave.length
  exact
    { tx := by
        intro l' hl'
        simp only [List.getLast?_concat, Option.mem_def, Option.some.injEq] at hl'
        subst hl'
        exact hl.strobe hi hn
      nonempty := by simp
      wave := (h.wave.hold (by decide) h.lineOut_eq).push _
      rest := by simp [Bench.step, txDataGet, hl.txDataGet, h.rest]
      gets := by simp [Bench.step, txDataGet, hl.txDataGet, h.gets]
      ends := by
        simp only [Bench.step, hend, h.ends, beq_iff_eq]
        rw [show b.wave.length = lead + 4 * lines.length - 1 by omega] }

end Bench.Ends

/-- The bench after a transmission, `n` cycles after the last symbol. -/
structure Bench.Over (flip : Bool) (total lead n : ℕ) (b : Bench) (lines : List Line)
    (left : List (BitVec 8)) (ends : List ℕ) : Prop where
  tx : Idle b.tx
  wave : b.wave = List.replicate lead none ++
    (lines.flatMap fun l => List.replicate 4 (some (wires flip l))) ++ List.replicate n none
  rest : b.rest = left
  gets : b.gets + left.length = total
  ends : b.ends = ends

theorem Bench.Ends.last {flip : Bool} {total lead : ℕ} {b : Bench} {i : Input} {lines : List Line}
    {left : List (BitVec 8)} {ends : List ℕ} (h : b.Ends flip total lead 3 3 lines left ends)
    (hi : Busy flip true i) : (b.step i).Over flip total lead 0 lines left ends := by
  obtain ⟨l, hlast, hl⟩ := h.exists_ending
  have hend : pktEnd b.tx i = false := hl.pktEnd_eq hi (by omega)
  have hwave : (b.step i).Wave flip lead 4 lines := h.wave.hold (by decide) h.lineOut_eq
  exact
    { tx := hl.last hi
      wave := by simpa [Bench.Wave] using hwave
      rest := by simp [Bench.step, txDataGet, hl.txDataGet, h.rest]
      gets := by simp [Bench.step, txDataGet, hl.txDataGet, h.gets]
      ends := by simp [Bench.step, hend, h.ends] }

theorem Bench.Over.next {flip bit : Bool} {total lead n : ℕ} {b : Bench} {i : Input}
    {lines : List Line} {left : List (BitVec 8)} {ends : List ℕ}
    (h : b.Over flip total lead n lines left ends) (hi : Busy flip bit i) :
    (b.step i).Over flip total lead (n + 1) lines left ends where
  tx := h.tx.next hi
  wave := by
    have hout : lineOut b.tx = none := by simp [lineOut, h.tx.oe]
    simp [Bench.step, hout, h.wave, List.replicate_succ']
  rest := by simp [Bench.step, txDataGet, h.tx.txDataGet, h.rest]
  gets := by simp [Bench.step, txDataGet, h.tx.txDataGet, h.gets]
  ends := by simp [Bench.step, h.tx.pktEnd, h.ends]

/-- The bench with a request in cycle `u`, before SYNC is loaded. -/
structure Bench.Waits (pid : BitVec 4) (count : BitVec 3) (byte : Bool) (u : ℕ) (b init : Bench) :
    Prop where
  tx : Waiting pid count byte b.tx
  wave : b.wave = List.replicate u none
  rest : b.rest = init.rest
  gets : b.gets = 0
  ends : b.ends = []

namespace Bench.Waits
variable {flip byte : Bool} {pid : BitVec 4} {count : BitVec 3} {u : ℕ} {b init : Bench} {i : Input}

theorem wave_step (h : b.Waits pid count byte u init) :
    (b.step i).wave = List.replicate (u + 1) none := by
  have hout : lineOut b.tx = none := by simp [lineOut, h.tx.oe]
  simp [Bench.step, hout, h.wave, List.replicate_succ']

theorem quiet (h : b.Waits pid count false u init) (hi : Busy flip false i) :
    (b.step i).Waits pid count false (u + 1) init where
  tx := h.tx.quiet hi
  wave := h.wave_step
  rest := by simp [Bench.step, txDataGet, h.tx.txDataGet, h.rest]
  gets := by simp [Bench.step, txDataGet, h.tx.txDataGet, h.gets]
  ends := by simp [Bench.step, h.tx.pktEnd, h.ends]

theorem strobe (h : b.Waits pid count false u init) (hi : Busy flip true i) :
    (b.step i).Waits pid (count + 1) (count == 0) (u + 1) init where
  tx := h.tx.strobe hi
  wave := h.wave_step
  rest := by simp [Bench.step, txDataGet, h.tx.txDataGet, h.rest]
  gets := by simp [Bench.step, txDataGet, h.tx.txDataGet, h.gets]
  ends := by simp [Bench.step, h.tx.pktEnd, h.ends]

theorem load (h : b.Waits pid 1 true u init) (hi : Busy flip false i) :
    (b.step i).Sends flip pid init.rest.length (u + 4) 1
      { state := .pid, dataPayload := false, crc := 0xffff#16, stuffed := false, ones := 0
        raw := [], bits := bitsLsb 0b10000000#8 } init.rest := by
  have htx := h.tx.load hi
  have hget : txDataGet (FsTx.step b.tx i) = false := by
    have hfsm : (byteFsm b.tx i).txDataGet = false := by
      simp [byteFsm, h.tx.state, h.tx.byteStrobe, h.tx.txDataGet]
    rw [txDataGet, step_quiet hi, hfsm]
  exact
    { tx := htx
      wave := by
        rw [Bench.Wave, h.wave_step]
        simp only [symbols, nrzi_nil, List.map_nil, List.getLast?_nil, Option.map_none,
          List.flatMap_nil, List.append_nil, List.replicate_append_replicate]
      rest := by
        change (if txDataGet (FsTx.step b.tx i) then _ else _) = _
        rw [hget]
        simp [Bench.step, txDataGet, h.tx.txDataGet, h.rest]
      gets := by
        change _ + (txDataGet (FsTx.step b.tx i)).toNat + _ = _
        rw [hget]
        simp [Bench.step, txDataGet, h.tx.txDataGet, h.gets]
      ends := by simp [Bench.step, h.tx.pktEnd, h.ends] }

end Bench.Waits

/-! ### The run of a transmission -/

/-- The inputs of a transmission in its first `T` cycles: it is requested in cycle 0, bit
strobes come every fourth cycle and the endpoint offers its payload. -/
structure Transmission (flip : Bool) (r : ℕ) (pid : BitVec 4) (init : Bench) (inp : ℕ → Input)
    (T : ℕ) : Prop where
  phase : r < 4
  pid : (inp 0).pid = pid
  linkReset : ∀ t < T, (inp t).linkReset = false
  cfgPinflip : ∀ t < T, (inp t).cfgPinflip = flip
  txOscTestMode : ∀ t < T, (inp t).txOscTestMode = false
  pktStart : ∀ t < T, (inp t).pktStart = decide (t = 0)
  bitStrobe : ∀ t < T, (inp t).bitStrobe = decide (t % 4 = r)
  offers : ∀ t < T, (traj Bench.step init inp t).Offers (inp t)

/-- The progress at the end of a byte: the bits so far and what comes next. -/
def Progress.boundary (sent : List Bool) (state : ByteState) (dataPayload : Bool)
    (crc : BitVec 16) : Progress where
  state := state
  dataPayload := dataPayload
  crc := crc
  stuffed := false
  ones := onesAfter 0 sent
  raw := stuff 0 sent
  bits := []

theorem Progress.done_load_boundary (sent : List Bool) (st st' : ByteState) (dp dp' : Bool)
    (crc : BitVec 16) (x : BitVec 8) :
    ((boundary sent st dp crc).load st' dp' x).done =
      boundary (sent ++ bitsLsb x) st' dp'
        (if dp' then Crc.run crc16Poly crc (bitsLsb x) else crc) := by
  simp only [boundary, load, done, stuff_append, onesAfter_append]

section run
variable {flip : Bool} {r : ℕ} {pid : BitVec 4} {init : Bench} {inp : ℕ → Input}
  (h : ∀ T, Transmission flip r pid init inp T) {total lead t : ℕ} {p : Progress}
  {left : List (BitVec 8)}
include h

theorem busy (ht : 1 ≤ t) {bit : Bool} (hbit : decide (t % 4 = r) = bit) :
    Busy flip bit (inp t) where
  linkReset := (h (t + 1)).linkReset t (by omega)
  cfgPinflip := (h (t + 1)).cfgPinflip t (by omega)
  txOscTestMode := (h (t + 1)).txOscTestMode t (by omega)
  pktStart := by
    rw [(h (t + 1)).pktStart t (by omega), decide_eq_false_iff_not]
    omega
  bitStrobe := by rw [(h (t + 1)).bitStrobe t (by omega), hbit]

theorem busy_quiet (ht : 1 ≤ t) (hr : t % 4 ≠ r) : Busy flip false (inp t) :=
  busy h ht (by simpa using hr)

theorem busy_strobe (ht : 1 ≤ t) (hr : t % 4 = r) : Busy flip true (inp t) :=
  busy h ht (by simpa using hr)

/-- The rest of a bit time, from its second cycle. -/
theorem sends_bit (ht : 1 ≤ t) (hr : (t + 2) % 4 = r)
    (hs : (traj Bench.step init inp t).Sends flip pid total lead 1 p left) (hb : p.bits ≠ []) :
    (traj Bench.step init inp (t + 3)).Sends flip pid total lead 0 p.next left := by
  have hphase := (h 0).phase
  have h1 : (traj Bench.step init inp (t + 1)).Sends flip pid total lead 2 p left :=
    hs.quiet (busy_quiet h ht (by omega)) (by decide) (by simp)
  have h2 : (traj Bench.step init inp (t + 2)).Sends flip pid total lead 3 p left :=
    h1.quiet (busy_quiet h (by omega) (by omega)) (by decide) (by simp)
  exact h2.next (busy_strobe h (by omega) hr) hb

/-- All bits left, with the stuffed zeros. -/
theorem sends_bits (ht : 1 ≤ t) (hr : (t + 2) % 4 = r)
    (hs : (traj Bench.step init inp t).Sends flip pid total lead 1 p left) (hb : p.bits ≠ [])
    {m : ℕ} (hm : (stuff p.ones p.bits).length = m + 1) :
    (traj Bench.step init inp (t + 3 + 4 * m)).Sends flip pid total lead 0 p.done left := by
  induction m generalizing t p with
  | zero =>
      have hnext := sends_bit h ht hr hs hb
      have hlen := Progress.length_stuff_next hb
      have hnil : p.next.bits = [] := by
        refine stuff_eq_nil.1 (List.length_eq_zero_iff.1 (?_ : (stuff p.next.ones p.next.bits).length = 0))
        omega
      rw [Progress.next_eq_done hb hnil] at hnext
      exact hnext
  | succ m ih =>
      have hnext := sends_bit h ht hr hs hb
      have hlen := Progress.length_stuff_next hb
      have hne : p.next.bits ≠ [] := by
        intro hnil
        simp only [hnil, stuff_nil, List.length_nil] at hlen
        omega
      have hphase := (h 0).phase
      have hquiet : (traj Bench.step init inp (t + 4)).Sends flip pid total lead 1 p.next left :=
        hnext.quiet (busy_quiet h (by omega) (by omega)) (by decide) fun _ => hne
      have hrest := ih (show 1 ≤ t + 4 by omega) (by omega) hquiet hne (by omega)
      rw [Progress.done_next hb] at hrest
      rw [show t + 3 + 4 * (m + 1) = t + 4 + 3 + 4 * m by omega]
      exact hrest

/-- The bits `sent` are on the line, bit stuffed; cycle `t` loaded the first byte. -/
def AtByte (flip : Bool) (pid : BitVec 4) (init : Bench) (inp : ℕ → Input) (t : ℕ)
    (sent : List Bool) (st : ByteState) (dp : Bool) (crc : BitVec 16) (left : List (BitVec 8)) :
    Prop :=
  (traj Bench.step init inp (t + 4 * (stuff 0 sent).length)).Sends flip pid init.rest.length (t + 4)
    0 (.boundary sent st dp crc) left

variable {sent : List Bool} {st : ByteState} {dp : Bool} {crc : BitVec 16}

/-- One byte, from its load to the next byte strobe. -/
theorem sends_byte (st' : ByteState) (dp' get : Bool) (x : BitVec 8) (ht : 1 ≤ t)
    (hr : (t + 3) % 4 = r)
    (hs : AtByte flip pid init inp t sent st dp crc left)
    (hget : get = true → st' = .dataOrCrc160) (hleft : get = true → left ≠ [])
    (hfsm : ∀ s i, FsTx.Sends flip pid 0 s (.boundary sent st dp crc) →
      s = (traj Bench.step init inp (t + 4 * (stuff 0 sent).length)).tx →
      i = inp (t + 4 * (stuff 0 sent).length) →
      byteFsm s i =
        { state := st', dataShiftReg := x, oeShiftReg := 0xff#8, se0ShiftReg := 0
          dataPayload := dp', txDataGet := get, bitHistory := s.bitHistory
          bitCount := s.bitCount, testModeStart := false }) :
    AtByte flip pid init inp t (sent ++ bitsLsb x) st' dp'
      (if dp' then Crc.run crc16Poly crc (bitsLsb x) else crc)
      (if get then left.tail else left) := by
  have hphase := (h 0).phase
  have hload : (traj Bench.step init inp (t + 4 * (stuff 0 sent).length + 1)).Sends flip pid
      init.rest.length (t + 4) 1 ((Progress.boundary sent st dp crc).load st' dp' x)
      (if get then left.tail else left) :=
    hs.load (busy_quiet h (by omega) (by omega)) rfl hget hleft (hfsm _ _ hs.tx rfl rfl)
  have hne : ((Progress.boundary sent st dp crc).load st' dp' x).bits ≠ [] := by
    intro hnil
    have hlen := congrArg List.length hnil
    simp [Progress.load] at hlen
  have hpos : 0 < (stuff (onesAfter 0 sent) (bitsLsb x)).length := by
    refine List.length_pos_of_ne_nil ?_
    rw [Ne, stuff_eq_nil]
    exact hne
  obtain ⟨m, hm⟩ : ∃ m, (stuff (onesAfter 0 sent) (bitsLsb x)).length = m + 1 :=
    ⟨_, (Nat.succ_pred_eq_of_pos hpos).symm⟩
  have hdone := sends_bits h (by omega) (by omega) hload hne hm
  rw [Progress.done_load_boundary] at hdone
  have hlen : t + 4 * (stuff 0 (sent ++ bitsLsb x)).length =
      t + 4 * (stuff 0 sent).length + 1 + 3 + 4 * m := by
    rw [stuff_append, List.length_append, hm]
    omega
  rw [AtByte, hlen]
  exact hdone

/-- The identifier follows SYNC. -/
theorem sends_pid (ht : 1 ≤ t) (hr : (t + 3) % 4 = r)
    (hs : AtByte flip pid init inp t sent .pid dp crc left) (hd : dp = false) :
    AtByte flip pid init inp t (sent ++ (bitsLsb pid ++ bitsLsb (~~~pid)))
      (if carriesData pid then .dataOrCrc160 else .eop) false crc left := by
  rw [← bitsLsb_append]
  refine sends_byte h _ _ false _ ht hr hs (by simp) (by simp) fun s i htx _ _ => ?_
  have hst : s.state = .pid := htx.state
  have hbyte : s.byteStrobe = true := htx.byteStrobe
  have hpay : s.dataPayload = false := htx.dataPayload.trans hd
  have hget : s.txDataGet = false := htx.txDataGet_eq_false (by decide)
  simp [byteFsm, hst, hbyte, hpay, hget, htx.pid, carriesData]

/-- What the endpoint offers when a byte of the payload is due. -/
theorem offered (hs : AtByte flip pid init inp t sent .dataOrCrc160 dp crc left) :
    (inp (t + 4 * (stuff 0 sent).length)).txDataAvail = !left.isEmpty ∧
      ∀ x ∈ left.head?, (inp (t + 4 * (stuff 0 sent).length)).txData = x := by
  have hget := hs.tx.txDataGet_eq_false (by decide)
  have hleft := hs.rest
  rw [txDataGet, hget] at hleft
  simp only [Bool.false_eq_true, if_false] at hleft
  have hoffer := (h (t + 4 * (stuff 0 sent).length + 1)).offers _ (Nat.lt_succ_self _)
    hs.tx.state hs.tx.byteStrobe
  rw [hleft] at hoffer
  exact hoffer

/-- The bytes of the payload, each fetched once. -/
theorem sends_payload (ht : 1 ≤ t) (hr : (t + 3) % 4 = r)
    (hs : AtByte flip pid init inp t sent .dataOrCrc160 dp crc left) :
    ∃ dp', AtByte flip pid init inp t (sent ++ payloadBits left) .dataOrCrc160 dp'
      (Crc.run crc16Poly crc (payloadBits left)) [] := by
  induction left generalizing sent dp crc with
  | nil =>
      refine ⟨dp, ?_⟩
      rw [payloadBits, List.flatMap_nil, List.append_nil]
      exact hs
  | cons x xs ih =>
      have hbyte := sends_byte h .dataOrCrc160 true true x ht hr hs (by simp) (by simp)
        fun s i htx _ hi' => ?_
      · obtain ⟨dp', hrest⟩ := ih hbyte
        refine ⟨dp', ?_⟩
        rw [payloadBits, List.flatMap_cons, Crc.run_append, ← List.append_assoc]
        exact hrest
      · have hst : s.state = .dataOrCrc160 := htx.state
        have hstrobe : s.byteStrobe = true := htx.byteStrobe
        have hoffer := offered h hs
        rw [← hi'] at hoffer
        have havail : i.txDataAvail = true := by simpa using hoffer.1
        have hdata : i.txData = x := hoffer.2 x rfl
        simp [byteFsm, hst, hstrobe, havail, hdata]

/-- The two CRC bytes follow the payload. -/
theorem sends_crc (ht : 1 ≤ t) (hr : (t + 3) % 4 = r)
    (hs : AtByte flip pid init inp t sent .dataOrCrc160 dp crc []) :
    AtByte flip pid init inp t (sent ++ bitsMsb (~~~crc)) .eop false crc [] := by
  have hhigh := sends_byte h .crc161 false false (crcByte (crc.extractLsb' 8 8)) ht hr hs (by simp)
    (by simp) fun s i htx _ hi' => ?_
  · have hlow := sends_byte h .eop false false (crcByte (crc.extractLsb' 0 8)) ht hr hhigh (by simp)
      (by simp) fun s i htx _ _ => ?_
    · rw [List.append_assoc, bitsLsb_crcByte] at hlow
      exact hlow
    · have hst : s.state = .crc161 := htx.state
      have hstrobe : s.byteStrobe = true := htx.byteStrobe
      have hget : s.txDataGet = false := htx.txDataGet_eq_false (by decide)
      have hpay : s.dataPayload = false := htx.dataPayload
      have hcrc : s.crc16 = crc := htx.crc16_eq rfl
      simp [byteFsm, hst, hstrobe, hget, hpay, hcrc]
  · have hst : s.state = .dataOrCrc160 := htx.state
    have hstrobe : s.byteStrobe = true := htx.byteStrobe
    have hcrc : s.crc16 = crc := htx.crc16_eq rfl
    have hoffer := offered h hs
    rw [← hi'] at hoffer
    have havail : i.txDataAvail = false := by simpa using hoffer.1
    simp [byteFsm, hst, hstrobe, havail, hcrc]

/-- One symbol of the end of packet, and the first cycle of the next. -/
theorem ends_bit {lines : List Line} {ends : List ℕ} {n : ℕ} (ht : 1 ≤ t) (hr : (t + 2) % 4 = r)
    (hn : n < 3)
    (hs : (traj Bench.step init inp t).Ends flip total lead 1 n lines left ends) :
    (traj Bench.step init inp (t + 4)).Ends flip total lead 1 (n + 1)
      (lines ++ [if n < 2 then .se0 else .j]) left
      (if n = 2 then ends ++ [lead + 4 * lines.length - 1] else ends) := by
  have hphase := (h 0).phase
  have h1 : (traj Bench.step init inp (t + 1)).Ends flip total lead 2 n lines left ends :=
    hs.quiet (busy_quiet h ht (by omega)) (by decide) (by omega)
  have h2 : (traj Bench.step init inp (t + 2)).Ends flip total lead 3 n lines left ends :=
    h1.quiet (busy_quiet h (by omega) (by omega)) (by decide) (by omega)
  have h3 := h2.strobe (busy_strobe h (by omega) hr) hn
  exact h3.quiet (busy_quiet h (by omega) (by omega)) (by decide) (by omega)

/-- The end of packet after the last byte. -/
theorem ends_packet (ht : 1 ≤ t) (hr : (t + 3) % 4 = r) (hne : sent ≠ [])
    (hs : AtByte flip pid init inp t sent .eop dp crc left) (hd : dp = false) :
    (traj Bench.step init inp (t + 4 + 4 * (packetLines sent).length)).Over flip init.rest.length
      (t + 4) 0 (packetLines sent) left [t + 4 + 4 * ((packetLines sent).length - 1) - 1] := by
  have hphase := (h 0).phase
  have hraw : stuff 0 sent ≠ [] := by simpa using hne
  have hend0 : (traj Bench.step init inp (t + 4 * (stuff 0 sent).length + 1)).Ends flip
      init.rest.length (t + 4) 1 0 (symbols (stuff 0 sent)) left [] := by
    have hi : Busy flip false (inp (t + 4 * (stuff 0 sent).length)) :=
      busy_quiet h (by omega) (by omega)
    have hget := hs.tx.txDataGet_eq_false (by decide)
    have hrest := hs.rest
    have hcount := hs.gets
    rw [txDataGet, hget] at hrest hcount
    have hlast : (symbols (stuff 0 sent)).getLast? =
        some (Line.ofLevel ((stuff 0 sent).foldl nrziStep true)) := by
      rw [symbols, List.getLast?_map, getLast?_nrzi true hraw, Option.map_some]
    exact
      { tx := by
          intro l hl
          rw [hlast, Option.mem_some_iff] at hl
          subst hl
          exact hs.tx.finish hi rfl hraw rfl hd
        nonempty := by
          intro hnil
          rw [hnil] at hlast
          exact absurd hlast (by simp)
        wave := hs.wave.hold (by decide) hs.tx.lineOut_eq
        rest := by simpa [traj_succ, Bench.step, txDataGet, hget] using hrest
        gets := by simpa [traj_succ, Bench.step, txDataGet, hget] using hcount
        ends := by simp [traj_succ, Bench.step, hs.tx.pktEnd, hs.ends] }
  have hend1 := ends_bit h (by omega) (by omega) (by decide) hend0
  have hend2 := ends_bit h (by omega) (by omega) (by decide) hend1
  have hend3 := ends_bit h (by omega) (by omega) (by decide) hend2
  have hlines : symbols (stuff 0 sent) ++ [.se0] ++ [.se0] ++ [.j] = packetLines sent := by
    simp [symbols, packetLines]
  have hlen : (packetLines sent).length = (stuff 0 sent).length + 3 := by simp [packetLines]
  have hbefore : (symbols (stuff 0 sent) ++ [Line.se0] ++ [Line.se0]).length =
      (packetLines sent).length - 1 := by simp [symbols, packetLines]
  simp only [show (0 : ℕ) < 2 by decide, show (0 + 1 : ℕ) < 2 by decide,
    show ¬ (0 + 1 + 1 : ℕ) < 2 by decide, if_true, if_false, hlines] at hend3
  have hend4 : (traj Bench.step init inp (t + 4 * (stuff 0 sent).length + 14)).Ends flip
      init.rest.length (t + 4) 2 3 (packetLines sent) left
      [t + 4 + 4 * ((packetLines sent).length - 1) - 1] := by
    rw [← hbefore]
    exact hend3.quiet (busy_quiet h (by omega) (by omega)) (by decide) (by decide)
  have hend5 : (traj Bench.step init inp (t + 4 * (stuff 0 sent).length + 15)).Ends flip
      init.rest.length (t + 4) 3 3 (packetLines sent) left
      [t + 4 + 4 * ((packetLines sent).length - 1) - 1] :=
    hend4.quiet (busy_quiet h (by omega) (by omega)) (by decide) (by decide)
  rw [hlen, show t + 4 + 4 * ((stuff 0 sent).length + 3) =
    t + 4 * (stuff 0 sent).length + 15 + 1 by omega, ← hlen]
  exact hend5.last (busy_strobe h (by omega) (by omega))

/-- The bench waits with the request; nothing is on the line in the first `t` cycles. -/
theorem waits_quiet {count : BitVec 3} {u n : ℕ} (hu : 1 ≤ u) (hun : u ≤ n)
    (hr : ∀ v, u ≤ v → v < n → v % 4 ≠ r)
    (hs : (traj Bench.step init inp u).Waits pid count false u init) :
    (traj Bench.step init inp n).Waits pid count false n init := by
  induction n, hun using Nat.le_induction with
  | base => exact hs
  | succ v huv ih =>
      have hprev := ih fun w huw hwv => hr w huw (by omega)
      exact hprev.quiet (busy_quiet h (by omega) (hr v huv (by omega)))

/-- From the request to the end of SYNC; the first bit strobe after the request is in cycle
`t`. -/
theorem sends_sync (hidle : Idle init.tx) (hempty : init.wave = []) (hgets : init.gets = 0)
    (hends : init.ends = []) (ht : 1 ≤ t) (hr : t % 4 = r) (hfirst : t ≤ 4) :
    AtByte flip pid init inp (t + 5) (bitsLsb 0b10000000#8) .pid false 0xffff#16 init.rest := by
  have hphase := (h 0).phase
  have hreq := (h 1).pktStart 0 (by decide)
  have htx := hidle.start (i := inp 0) ((h 1).linkReset 0 (by decide))
    ((h 1).txOscTestMode 0 (by decide)) hreq
  rw [(h 1).pid] at htx
  have hpoll : (traj Bench.step init inp 1).Waits pid 7 false 1 init :=
    { tx := htx
      wave := by simp [traj, Bench.step, hempty, lineOut, hidle.oe]
      rest := by simp [traj, Bench.step, txDataGet, hidle.txDataGet]
      gets := by simp [traj, Bench.step, txDataGet, hidle.txDataGet, hgets]
      ends := by simp [traj, Bench.step, hidle.pktEnd, hends] }
  have hstart := waits_quiet h le_rfl ht (fun v _ _ => by omega) hpoll
  have hzero : (traj Bench.step init inp (t + 1)).Waits pid 0 false (t + 1) init :=
    hstart.strobe (busy_strobe h ht hr)
  have hzero' := waits_quiet h (by omega) (show t + 1 ≤ t + 4 by omega)
    (fun v _ _ => by omega) hzero
  have hone : (traj Bench.step init inp (t + 5)).Waits pid 1 true (t + 5) init :=
    hzero'.strobe (busy_strobe h (by omega) (by omega))
  have hload : (traj Bench.step init inp (t + 6)).Sends flip pid init.rest.length (t + 5 + 4) 1
      { state := .pid, dataPayload := false, crc := 0xffff#16, stuffed := false, ones := 0
        raw := [], bits := bitsLsb 0b10000000#8 } init.rest :=
    hone.load (busy_quiet h (by omega) (by omega))
  have hlen : (stuff 0 (bitsLsb 0b10000000#8)).length = 7 + 1 := by decide
  have hdone := sends_bits h (by omega) (by omega) hload (by decide) hlen
  rw [AtByte, hlen]
  exact hdone

/-- The whole packet. -/
theorem over_packet (hidle : Idle init.tx) (hempty : init.wave = []) (hgets : init.gets = 0)
    (hends : init.ends = []) (ht : 1 ≤ t) (hr : t % 4 = r) (hfirst : t ≤ 4) :
    (traj Bench.step init inp
      (t + 9 + 4 * (packetLines (packetBits pid init.rest)).length)).Over flip init.rest.length
      (t + 9) 0 (packetLines (packetBits pid init.rest))
      (if carriesData pid then [] else init.rest)
      [t + 9 + 4 * ((packetLines (packetBits pid init.rest)).length - 1) - 1] := by
  have hphase := (h 0).phase
  have hsync := sends_sync h hidle hempty hgets hends ht hr hfirst
  have hpid := sends_pid h (by omega) (by omega) hsync rfl
  have hne : headerBits pid ≠ [] := by
    intro hnil
    have hlen := congrArg List.length hnil
    simp [headerBits] at hlen
  cases hdata : carriesData pid with
  | false =>
      simp only [hdata, Bool.false_eq_true, if_false] at hpid
      have hbits : packetBits pid init.rest = headerBits pid := by simp [packetBits, hdata]
      rw [hbits]
      exact ends_packet h (by omega) (by omega) hne hpid rfl
  | true =>
      simp only [hdata, if_true] at hpid
      obtain ⟨dp, hpay⟩ := sends_payload h (by omega) (by omega) hpid
      have hcrc := sends_crc h (by omega) (by omega) hpay
      have hbits : packetBits pid init.rest =
          headerBits pid ++ payloadBits init.rest ++ bitsMsb (~~~crc16 init.rest) := by
        simp [packetBits, hdata]
      rw [hbits]
      exact ends_packet h (by omega) (by omega) (by simp [hne]) hcrc rfl

end run

/-- The cycles before the first symbol: the first bit strobe after the request comes in cycle
`r`, or 4 when the request itself meets a strobe, and the third one after it sends the first bit
of SYNC. -/
def leadIn (r : ℕ) : ℕ := (if r = 0 then 4 else r) + 9

/-- The inputs with an endpoint that shows its next byte all the time. -/
def fifoInput (flip : Bool) (r : ℕ) (pid : BitVec 4) (t : ℕ) (b : Bench) : Input where
  linkReset := false
  cfgPinflip := flip
  txOscTestMode := false
  bitStrobe := decide (t % 4 = r)
  pktStart := decide (t = 0)
  pid := pid
  txDataAvail := !b.rest.isEmpty
  txData := b.rest.headD 0

theorem fifoInput_offers (flip : Bool) (r : ℕ) (pid : BitVec 4) (t : ℕ) (b : Bench) :
    b.Offers (fifoInput flip r pid t b) := by
  intro _ _
  refine ⟨rfl, fun x hx => ?_⟩
  rw [Option.mem_def] at hx
  simp [fifoInput, List.headD_eq_head?_getD, hx]

/-- The transmission to such an endpoint. -/
theorem Transmission.closed (flip : Bool) {r : ℕ} (hr : r < 4) (pid : BitVec 4) (init : Bench)
    (T : ℕ) :
    Transmission flip r pid init
      (fun t => fifoInput flip r pid t (feedback Bench.step (fifoInput flip r pid) init t)) T where
  phase := hr
  pid := rfl
  linkReset _ _ := rfl
  cfgPinflip _ _ := rfl
  txOscTestMode _ _ := rfl
  pktStart _ _ := rfl
  bitStrobe _ _ := rfl
  offers t _ := by
    rw [traj_feedback]
    exact fifoInput_offers flip r pid t _

/-- A run can be continued for ever. -/
theorem Transmission.extend {flip : Bool} {r : ℕ} {pid : BitVec 4} {init : Bench}
    {inp : ℕ → Input} {T : ℕ} (h : Transmission flip r pid init inp T) :
    ∃ inp', (∀ T', Transmission flip r pid init inp' T') ∧
      traj Bench.step init inp' T = traj Bench.step init inp T := by
  let env : ℕ → Bench → Input := fun t b => if t < T then inp t else fifoInput flip r pid t b
  let inp' : ℕ → Input := fun t => env t (feedback Bench.step env init t)
  have hsame : ∀ t < T, inp' t = inp t := fun t ht => if_pos ht
  have hlater : ∀ t, ¬ t < T → inp' t = fifoInput flip r pid t (traj Bench.step init inp' t) := by
    intro t ht
    rw [show traj Bench.step init inp' t = feedback Bench.step env init t from
      traj_feedback Bench.step env init t]
    exact if_neg ht
  have htraj : ∀ t ≤ T, traj Bench.step init inp' t = traj Bench.step init inp t :=
    fun t ht => traj_congr _ _ fun u hu => hsame u (by omega)
  refine ⟨inp', fun T' => ?_, htraj T le_rfl⟩
  constructor
  case phase => exact h.phase
  case pid =>
    by_cases h0 : 0 < T
    · rw [hsame 0 h0]
      exact h.pid
    · rw [hlater 0 h0]
      rfl
  case offers =>
    intro t _
    by_cases ht : t < T
    · rw [hsame t ht, htraj t (by omega)]
      exact h.offers t ht
    · rw [hlater t ht]
      exact fifoInput_offers flip r pid t _
  all_goals
    intro t _
    by_cases ht : t < T
    · rw [hsame t ht]
      first
        | exact h.linkReset t ht
        | exact h.cfgPinflip t ht
        | exact h.txOscTestMode t ht
        | exact h.pktStart t ht
        | exact h.bitStrobe t ht
    · rw [hlater t ht]
      rfl

/-- From idle the transmission is over after the lead-in and four cycles for each symbol. -/
theorem Transmission.over {flip : Bool} {r : ℕ} {pid : BitVec 4} {s : State}
    {payload : List (BitVec 8)} {inp : ℕ → Input} {T : ℕ} (hs : Idle s)
    (h : Transmission flip r pid (Bench.init s payload) inp T)
    (hT : leadIn r + 4 * (packetLines (packetBits pid payload)).length ≤ T) :
    (traj Bench.step (Bench.init s payload) inp T).Over flip payload.length (leadIn r)
      (T - (leadIn r + 4 * (packetLines (packetBits pid payload)).length))
      (packetLines (packetBits pid payload)) (if carriesData pid then [] else payload)
      [leadIn r + 4 * ((packetLines (packetBits pid payload)).length - 1) - 1] := by
  obtain ⟨inp', h', htraj⟩ := h.extend
  have hphase := h.phase
  have hfirst : 1 ≤ (if r = 0 then 4 else r) ∧ (if r = 0 then 4 else r) % 4 = r ∧
      (if r = 0 then 4 else r) ≤ 4 := by
    split_ifs <;> omega
  have hover := over_packet h' hs rfl rfl rfl hfirst.1 hfirst.2.1 hfirst.2.2
  have hafter : ∀ n ≥ leadIn r + 4 * (packetLines (packetBits pid payload)).length,
      (traj Bench.step (Bench.init s payload) inp' n).Over flip payload.length (leadIn r)
        (n - (leadIn r + 4 * (packetLines (packetBits pid payload)).length))
        (packetLines (packetBits pid payload)) (if carriesData pid then [] else payload)
        [leadIn r + 4 * ((packetLines (packetBits pid payload)).length - 1) - 1] := by
    intro n hn
    induction n, hn using Nat.le_induction with
    | base =>
        rw [Nat.sub_self]
        exact hover
    | succ n hn ih =>
        rw [Nat.succ_sub hn]
        have hpos : 1 ≤ n := by
          simp only [leadIn] at hn
          omega
        exact ih.next (busy h' hpos rfl)
  rw [← htraj]
  exact hafter T hT

/-- From idle the line shows, one symbol every four cycles, exactly the coded packet; the end is
reported once, with the last symbol, and every byte of a data packet is fetched once. -/
theorem line_encodes {flip : Bool} {r : ℕ} {pid : BitVec 4} {s : State}
    {payload : List (BitVec 8)} {inp : ℕ → Input} {T : ℕ} (hs : Idle s)
    (h : Transmission flip r pid (Bench.init s payload) inp T)
    (hT : leadIn r + 4 * (packetLines (packetBits pid payload)).length ≤ T) :
    let lines := packetLines (packetBits pid payload)
    let b := traj Bench.step (Bench.init s payload) inp T
    b.wave = List.replicate (leadIn r) none ++
        (lines.flatMap fun l => List.replicate 4 (some (wires flip l))) ++
        List.replicate (T - (leadIn r + 4 * lines.length)) none ∧
      b.ends = [leadIn r + 4 * (lines.length - 1) - 1] ∧
      b.gets = (if carriesData pid then payload.length else 0) ∧ Idle b.tx := by
  intro lines b
  have hend := Transmission.over hs h hT
  refine ⟨hend.wave, hend.ends, ?_, hend.tx⟩
  have hcount : b.gets + (if carriesData pid then [] else payload).length = payload.length :=
    hend.gets
  cases hdata : carriesData pid with
  | false =>
      simp only [hdata, Bool.false_eq_true, if_false] at hcount ⊢
      omega
  | true =>
      simpa only [hdata, if_true, List.length_nil, Nat.add_zero] using hcount

/-- A DATA0 packet with the byte `0xff`, which needs a stuffed zero. -/
theorem line_encodes_data0 :
    let run := traj Bench.step (Bench.init State.reset [0xff#8]) fun t =>
      fifoInput false 2 0b0011#4 t
        (feedback Bench.step (fifoInput false 2 0b0011#4) (Bench.init State.reset [0xff#8]) t)
    (run 200).ends = [186] ∧ (run 200).gets = 1 ∧ Idle (run 200).tx := by
  have hrun := line_encodes (T := 200) Idle.reset
    (Transmission.closed false (r := 2) (by decide) 0b0011#4 (Bench.init State.reset [0xff#8]) 200)
    (by decide +kernel)
  have hlen : (packetLines (packetBits 0b0011#4 [0xff#8])).length = 45 := by decide +kernel
  refine ⟨?_, hrun.2.2.1, hrun.2.2.2⟩
  rw [hrun.2.1, hlen]
  rfl

end UsbDev.FsTx
