import UsbDev.PacketRoundTrip
import UsbDev.TxEncode

/-!
# How the driver takes a response

`receive_from_dut` and `get_device_response` of `usb20_driver`, which undo the line
code on their own, on the pins of the transmitter. A list of pins holds those of the
present clock cycle and of the cycles to come; an edge samples the cycle that ends
with it.
-/
namespace UsbDev

open LineCode Deserializer

/-- The calls of `uvm_error` in the two tasks. -/
inductive ResponseError where
  | leftoverBits
  | invalidSync
  | noPid
  | invalidPid
  | dataTooShort
  deriving DecidableEq, Repr

/-- The fields of `usb_transaction` that `get_device_response` fills in, and the errors on the
way. -/
structure Response where
  noResponse : Bool
  fromDevice : Bool
  pid : BitVec 4
  data : List (BitVec 8)
  errors : List ResponseError
  deriving DecidableEq, Repr

/-- `prev_dp`, `rx_ones_cnt` and the bytes of `receive_from_dut`. -/
structure Reception where
  prevDp : Bool
  rxOnesCnt : ℕ
  pkt : Assembly
  deriving DecidableEq, Repr

namespace Reception

/-- `RSP_TIMEOUT_CYCLES`. -/
def rspTimeoutCycles : ℕ := 18 * 4

/-- Step 1: the cycles from the one on in which the device drives the line, or nothing when that
takes too long. -/
def waitStart : ℕ → List Pins → Option (Option (List Pins))
  | 0, _ => some none
  | _ + 1, [] => none
  | n + 1, p :: ps => if p.dpEnO then some (some (p :: ps)) else waitStart n ps

/-- One bit of step 3. -/
def next (s : Reception) (curDp : Bool) : Reception :=
  if s.rxOnesCnt = 6 then { s with rxOnesCnt := 0, prevDp := curDp }
  else
    let b := curDp == s.prevDp
    { prevDp := curDp
      rxOnesCnt := if b then s.rxOnesCnt + 1 else 0
      pkt := s.pkt.push b }

/-- `LINE_SE0` on the pins of the device. -/
def outIsSe0 (p : Pins) : Bool := !p.dpO && !p.dnO

/-- The loop of step 3: `p` is what the present edge samples; the next sample is four edges on. -/
def bits (s : Reception) (p : Pins) : List Pins → Option (Assembly × List Pins)
  | a :: b :: c :: q :: later =>
      if outIsSe0 p then some (s.pkt, a :: b :: c :: q :: later) else bits (s.next p.dpO) q later
  | later => if outIsSe0 p then some (s.pkt, later) else none

/-- `wait (cio_usb_dp_en_o == 0)`. -/
def waitRelease : List Pins → Option (List Pins)
  | [] => none
  | p :: ps => if p.dpEnO then waitRelease ps else some (p :: ps)

/-- The outputs of `receive_from_dut`, and the cycles that remain. -/
structure Received where
  pkt : List (BitVec 8)
  errors : List ResponseError
  later : List Pins
  deriving DecidableEq, Repr

/-- Steps 2 and 3 and the end of `receive_from_dut`, once the device drives the line. -/
def receiveStarted : List Pins → Option Received
  | _ :: p :: later =>
      (bits ⟨true, 0, .empty⟩ p later).bind fun r =>
        (waitRelease r.2).map fun rest =>
          ⟨r.1.bytes, if r.1.bitCnt != 0 then [.leftoverBits] else [], rest⟩
  | _ => none

def receiveFromDut (cycles : List Pins) : Option Received :=
  (waitStart rspTimeoutCycles cycles).bind fun started =>
    match started with
    | none => some ⟨[], [], cycles.drop rspTimeoutCycles⟩
    | some later => receiveStarted later

/-- What `get_device_response` makes of the bytes. -/
def response (errors : List ResponseError) : List (BitVec 8) → Response
  | [] => ⟨true, true, 0, [], errors⟩
  | [sync] => ⟨false, true, 0, [], errors ++ (if sync != 0x80#8 then [.invalidSync] else []) ++
      [.noPid]⟩
  | sync :: pid :: body =>
      let errors := errors ++ (if sync != 0x80#8 then [.invalidSync] else []) ++
        if pid.extractLsb' 4 4 != ~~~pid.extractLsb' 0 4 then [.invalidPid] else []
      let code := pid.extractLsb' 0 4
      if Monitor.pidIsData code then
        if body.length < 2 then ⟨false, true, code, [], errors ++ [.dataTooShort]⟩
        else ⟨false, true, code, body.take (body.length - 2), errors⟩
      else ⟨false, true, code, [], errors⟩

def getDeviceResponse (cycles : List Pins) : Option Response :=
  (receiveFromDut cycles).map fun r => response r.errors r.pkt

/-! ### The bits -/

open Monitor (levels wave coded wave_cons levels_ofLevel coded_cons coded_stuffed)

/-- The levels that the device drives. -/
def out (p : Pins) : Bool × Bool := (p.dpO, p.dnO)

variable {s : Reception} {p : Pins} {later : List Pins} {level : Bool} {ones : ℕ}

/-- At the second sample of a symbol that is not the last. -/
theorem bits_symbol {l l' : Line} {ls : List Line} {rest : List (Bool × Bool)}
    (h : (p :: later).map out = levels l :: levels l :: levels l :: (wave (l' :: ls) ++ rest))
    (hl : l ≠ .se0) : ∃ q later', bits s p later = bits (s.next (levels l).1) q later' ∧
      (q :: later').map out = levels l' :: levels l' :: levels l' :: (wave ls ++ rest) := by
  rw [wave_cons, List.map_cons, List.cons.injEq] at h
  obtain ⟨hp, hlater⟩ := h
  simp only [List.cons_append, List.map_eq_cons_iff] at hlater
  obtain ⟨a, _, rfl, -, b, _, rfl, -, c, _, rfl, -, q, _, rfl, hq, q₁, _, rfl, hq₁, q₂, later',
    rfl, hq₂, hrest⟩ := hlater
  have hdp : p.dpO = (levels l).1 := congrArg Prod.fst hp
  have hdn : p.dnO = (levels l).2 := congrArg Prod.snd hp
  have hse0 : outIsSe0 p = false := by
    rw [outIsSe0, hdp, hdn]
    cases l with
    | j => rfl
    | k => rfl
    | se0 => exact absurd rfl hl
  refine ⟨q, q₁ :: q₂ :: later', by rw [bits, hse0, if_neg (by decide), hdp], ?_⟩
  simp only [List.map_cons, hq, hq₁, hq₂, hrest]

/-- At the second sample of SE0. -/
theorem bits_se0 {rest : List (Bool × Bool)} (h : (p :: later).map out = levels .se0 :: rest) :
    bits s p later = some (s.pkt, later) := by
  obtain ⟨hp, -⟩ := List.cons.inj h
  have hse0 : outIsSe0 p = true := by
    have hdp : p.dpO = false := congrArg Prod.fst hp
    have hdn : p.dnO = false := congrArg Prod.snd hp
    rw [outIsSe0, hdp, hdn]
    rfl
  unfold bits
  split <;> simp [hse0]

theorem ofLevel_ne_se0 (level : Bool) : Line.ofLevel level ≠ .se0 := by
  cases level <;> decide

/-- A bit that is not stuffed. -/
theorem next_bit (b : Bool) (hprev : s.prevDp = level) (hcnt : s.rxOnesCnt = ones) (h : ones < 6) :
    s.next (levels (Line.ofLevel (nrziStep level b))).1 =
      ⟨nrziStep level b, if b then ones + 1 else 0, s.pkt.push b⟩ := by
  have hbit : (nrziStep level b == level) = b := by rw [Bool.beq_comm, beq_nrziStep]
  rw [levels_ofLevel, next, hcnt, if_neg (by omega), hprev, hbit]

theorem next_stuffed (x : Bool) (hcnt : s.rxOnesCnt = 6) : s.next x = ⟨x, 0, s.pkt⟩ := by
  rw [next, if_pos hcnt]

/-- The bits are taken in their order, without the stuffed ones, up to SE0. -/
theorem bits_coded {bs : List Bool} {after : List Line} {l : Line} {ls : List Line}
    {rest : List (Bool × Bool)} (hprev : s.prevDp = level) (hcnt : s.rxOnesCnt = ones)
    (hones : ones < 6) (hcode : coded level ones bs ++ .se0 :: after = l :: ls)
    (h : (p :: later).map out = levels l :: levels l :: levels l :: (wave ls ++ rest)) :
    ∃ later', bits s p later = some (bs.foldl Assembly.push s.pkt, later') ∧ later' ≠ [] := by
  have hcons : ∀ (level : Bool) (ones : ℕ) (bs : List Bool),
      ∃ l₂ ls₂, coded level ones bs ++ .se0 :: after = l₂ :: ls₂ := by
    intro level ones bs
    cases coded level ones bs with
    | nil => exact ⟨_, _, rfl⟩
    | cons l₂ ls₂ => exact ⟨l₂, _, rfl⟩
  induction bs generalizing s p later level ones l ls with
  | nil =>
      obtain ⟨rfl, rfl⟩ := List.cons.inj hcode
      refine ⟨later, bits_se0 h, ?_⟩
      rintro rfl
      simp at h
  | cons b bs ih =>
      by_cases hstuffed : b = true ∧ ones = 5
      · obtain ⟨rfl, rfl⟩ := hstuffed
        obtain ⟨l₂, ls₂, hrest⟩ := hcons (!level) 0 bs
        rw [coded_stuffed, List.cons_append, List.cons_append, hrest] at hcode
        obtain ⟨rfl, rfl⟩ := List.cons.inj hcode
        obtain ⟨q, later₁, h₁, hview₁⟩ := bits_symbol (s := s) h (ofLevel_ne_se0 _)
        obtain ⟨q₂, later₂, h₂, hview₂⟩ := bits_symbol
          (s := s.next (levels (Line.ofLevel (nrziStep level true))).1) hview₁ (ofLevel_ne_se0 _)
        have hbit := next_bit true hprev hcnt hones
        rw [hbit, next_stuffed _ rfl, levels_ofLevel] at h₂
        obtain ⟨later', hdone, hne⟩ := ih (s := ⟨!level, 0, s.pkt.push true⟩) rfl rfl
          (show 0 < 6 by omega) hrest hview₂
        exact ⟨later', by rw [h₁, hbit, h₂, hdone] ; rfl, hne⟩
      · obtain ⟨hcode', hlt⟩ := coded_cons hones hstuffed level bs
        obtain ⟨l₂, ls₂, hrest⟩ := hcons (nrziStep level b) (if b then ones + 1 else 0) bs
        rw [hcode', List.cons_append, hrest] at hcode
        obtain ⟨rfl, rfl⟩ := List.cons.inj hcode
        obtain ⟨q, later₁, h₁, hview₁⟩ := bits_symbol (s := s) h (ofLevel_ne_se0 _)
        rw [next_bit b hprev hcnt hones] at h₁
        obtain ⟨later', hdone, hne⟩ := ih
          (s := ⟨nrziStep level b, if b then ones + 1 else 0, s.pkt.push b⟩) rfl rfl hlt hrest hview₁
        exact ⟨later', by rw [h₁, hdone] ; rfl, hne⟩

theorem bits_suffix {r : Assembly × List Pins} (h : bits s p later = some r) : r.2 <:+ later := by
  fun_induction bits s p later with
  | case1 s p a b c q later hse0 =>
      cases h
      exact List.suffix_rfl
  | case2 s p a b c q later hse0 ih => exact (ih h).trans (List.suffix_append [a, b, c, q] later)
  | case3 s p later hshort hse0 =>
      cases h
      exact List.suffix_rfl
  | case4 s p later hshort hse0 => cases h

/-! ### A packet -/

/-- What a cycle shows of the device: the levels while it drives the line. -/
def shown (p : Pins) : Option (Bool × Bool) := if p.dpEnO then some (out p) else none

theorem shown_eq_none (p : Pins) : shown p = none ↔ p.dpEnO = false := by
  rw [shown]
  cases p.dpEnO <;> simp

theorem shown_eq_some {p : Pins} {x : Bool × Bool} (h : shown p = some x) :
    p.dpEnO = true ∧ out p = x := by
  rw [shown] at h
  cases hen : p.dpEnO <;> simp_all

theorem map_out_of_shown {ps : List Pins} {xs : List (Bool × Bool)}
    (h : ps.map shown = xs.map some) : ps.map out = xs := by
  induction ps generalizing xs with
  | nil =>
      cases xs with
      | nil => rfl
      | cons x xs => cases h
  | cons p ps ih =>
      cases xs with
      | nil => cases h
      | cons x xs =>
          obtain ⟨hp, hps⟩ := List.cons.inj h
          rw [List.map_cons, (shown_eq_some hp).2, ih hps]

theorem waitStart_shown {k n : ℕ} (hk : k < n) {x : Bool × Bool} {xs : List (Option (Bool × Bool))}
    {cycles : List Pins} (h : cycles.map shown = List.replicate k none ++ some x :: xs) :
    ∃ later, waitStart n cycles = some (some later) ∧ later.map shown = some x :: xs := by
  induction k generalizing n cycles with
  | zero =>
      obtain ⟨n, rfl⟩ : ∃ n', n = n' + 1 := ⟨n - 1, by omega⟩
      obtain ⟨p, ps, rfl, hp, hps⟩ := List.map_eq_cons_iff.1 h
      refine ⟨p :: ps, ?_, h⟩
      rw [waitStart, if_pos (shown_eq_some hp).1]
  | succ k ih =>
      obtain ⟨n, rfl⟩ : ∃ n', n = n' + 1 := ⟨n - 1, by omega⟩
      rw [List.replicate_succ, List.cons_append] at h
      obtain ⟨p, ps, rfl, hp, hps⟩ := List.map_eq_cons_iff.1 h
      obtain ⟨later, hlater, hview⟩ := ih (show k < n by omega) hps
      refine ⟨later, ?_, hview⟩
      rw [waitStart, if_neg (by rw [(shown_eq_none p).1 hp] ; decide), hlater]

theorem waitRelease_of_mem {ps : List Pins} (h : ∃ p ∈ ps, p.dpEnO = false) :
    ∃ rest, waitRelease ps = some rest := by
  induction ps with
  | nil =>
      obtain ⟨p, hp, -⟩ := h
      cases hp
  | cons q ps ih =>
      cases hq : q.dpEnO with
      | false => exact ⟨q :: ps, by rw [waitRelease, hq] ; rfl⟩
      | true =>
          obtain ⟨p, hp, hen⟩ := h
          obtain hpq | hmem := List.mem_cons.1 hp
          · rw [hpq, hq] at hen
            cases hen
          · obtain ⟨rest, hrest⟩ := ih ⟨p, hmem, hen⟩
            exact ⟨rest, by rw [waitRelease, hq, if_pos rfl, hrest]⟩

/-- The device sends some bytes and then leaves the line. -/
theorem receiveFromDut_shown {bytes : List (BitVec 8)} {k n : ℕ}
    (hk : k < rspTimeoutCycles) {cycles : List Pins}
    (h : cycles.map shown = List.replicate k none ++
      (wave (packetLines (bytes.flatMap bitsLsb))).map some ++ List.replicate (n + 1) none) :
    ∃ rest, receiveFromDut cycles = some ⟨bytes, [], rest⟩ := by
  have hlines : packetLines (bytes.flatMap bitsLsb) =
      coded true 0 (bytes.flatMap bitsLsb) ++ .se0 :: [.se0, .j] := rfl
  obtain ⟨l, ls, hcode⟩ : ∃ l ls,
      coded true 0 (bytes.flatMap bitsLsb) ++ .se0 :: [.se0, .j] = l :: ls := by
    cases coded true 0 (bytes.flatMap bitsLsb) with
    | nil => exact ⟨_, _, rfl⟩
    | cons l ls => exact ⟨l, _, rfl⟩
  rw [hlines, hcode, List.append_assoc, wave_cons] at h
  obtain ⟨later, hstart, hlater⟩ := waitStart_shown hk h
  -- the cycles in which the device drives the line, and those after
  obtain ⟨driven, released, rfl, hdriven, hreleased⟩ := List.map_eq_append_iff.1
    (show later.map shown = (levels l :: levels l :: levels l :: levels l :: wave ls).map some ++
      List.replicate (n + 1) none from hlater)
  have hout := map_out_of_shown hdriven
  obtain ⟨a, _, rfl, -, htail⟩ := List.map_eq_cons_iff.1 hout
  obtain ⟨p, driven, rfl, hp, hrest⟩ := List.map_eq_cons_iff.1 htail
  have hview : (p :: (driven ++ released)).map out =
      levels l :: levels l :: levels l :: (wave ls ++ released.map out) := by
    rw [List.map_cons, hp, List.map_append, hrest]
    rfl
  obtain ⟨later', hbits, hleft⟩ := bits_coded (s := ⟨true, 0, .empty⟩) rfl rfl (by decide) hcode hview
  obtain ⟨cur, hpush⟩ := Assembly.foldl_push_bytes [] 0 bytes
  rw [Assembly.empty, hpush, List.nil_append] at hbits
  -- some cycle after the last bit has the line released
  obtain ⟨q, hq, hen⟩ : ∃ q ∈ later', q.dpEnO = false := by
    have hsome : released ≠ [] := by
      rintro rfl
      simp at hreleased
    refine ⟨later'.getLast hleft, List.getLast_mem hleft, ?_⟩
    rw [(bits_suffix hbits).getLast hleft, List.getLast_append_of_ne_nil _ hsome,
      ← shown_eq_none]
    have hmem : shown (released.getLast hsome) ∈ released.map shown :=
      List.mem_map_of_mem (List.getLast_mem hsome)
    rw [hreleased] at hmem
    exact List.eq_of_mem_replicate hmem
  obtain ⟨rest, hrelease⟩ := waitRelease_of_mem ⟨q, hq, hen⟩
  refine ⟨rest, ?_⟩
  rw [receiveFromDut, hstart, Option.bind_some]
  show receiveStarted (a :: p :: (driven ++ released)) = _
  rw [receiveStarted, Assembly.empty, hbits, Option.bind_some, hrelease]
  rfl

/-! ### The transmitter -/

open Clocked FsTx

/-- The pins in a cycle of a transmission; those of the host show anything. -/
def benchPins (host : ℕ → Bool × Bool) (init : Bench) (inp : ℕ → FsTx.Input) (t : ℕ) : Pins where
  dpEnO := (traj Bench.step init inp t).tx.oe
  dpO := (traj Bench.step init inp t).tx.usbDp
  dnO := (traj Bench.step init inp t).tx.usbDn
  dpI := (host t).1
  dnI := (host t).2

theorem wave_traj (init : Bench) (inp : ℕ → FsTx.Input) (T : ℕ) :
    (traj Bench.step init inp T).wave =
      init.wave ++ (List.range T).map fun t => lineOut (traj Bench.step init inp t).tx := by
  induction T with
  | zero => simp
  | succ T ih => simp [traj_succ, Bench.step, ih, List.range_succ]

theorem wires_false (l : Line) : wires false l = levels l := by cases l <;> rfl

/-- The bytes of a packet. -/
def packetBytes (pid : BitVec 4) (payload : List (BitVec 8)) : List (BitVec 8) :=
  0x80#8 :: (~~~pid ++ pid) :: if carriesData pid then
    payload ++ [crcByte ((FsTx.crc16 payload).extractLsb' 8 8),
      crcByte ((FsTx.crc16 payload).extractLsb' 0 8)]
  else []

theorem packetBits_eq (pid : BitVec 4) (payload : List (BitVec 8)) :
    packetBits pid payload = (packetBytes pid payload).flatMap bitsLsb := by
  rw [packetBits, packetBytes, headerBits, FsTx.payloadBits, ← bitsLsb_crcByte, ← bitsLsb_append]
  cases carriesData pid <;> simp

/-- What `get_device_response` has to return for a packet. -/
def expected (pid : BitVec 4) (payload : List (BitVec 8)) : Response where
  noResponse := false
  fromDevice := true
  pid := pid
  data := if carriesData pid then payload else []
  errors := []

theorem response_packetBytes {pid : BitVec 4} (h : Monitor.pidIsData pid = carriesData pid)
    (payload : List (BitVec 8)) : response [] (packetBytes pid payload) = expected pid payload := by
  obtain ⟨hlow, hhigh⟩ := Monitor.pid_of_byte pid
  rw [packetBytes, response, hlow, hhigh, h, expected]
  cases carriesData pid <;> simp

/-- The driver takes a response as the device sent it, whenever it starts to wait before the
device drives the line, unless it gives up first. -/
theorem response_decoded {p : UsbPid}
    (hp : p = .ack ∨ p = .nak ∨ p = .stall ∨ p = .data0 ∨ p = .data1) {r : ℕ} {s : FsTx.State}
    {payload : List (BitVec 8)} {inp : ℕ → FsTx.Input} {T : ℕ} (hs : FsTx.Idle s)
    (h : Transmission false r p.code (Bench.init s payload) inp T)
    (hT : leadIn r + 4 * (packetLines (packetBits p.code payload)).length < T)
    (host : ℕ → Bool × Bool) {before : List Pins} (hbefore : ∀ q ∈ before, q.dpEnO = false)
    {called : ℕ} (hcalled : called ≤ leadIn r)
    (htime : before.length + (leadIn r - called) < rspTimeoutCycles) :
    getDeviceResponse
        (before ++ ((List.range T).map (benchPins host (Bench.init s payload) inp)).drop called) =
      some (expected p.code payload) := by
  have hover := Transmission.over hs h hT.le
  have hwave := hover.wave
  rw [packetBits_eq] at hT hwave
  have hmap : ((List.range T).map (benchPins host (Bench.init s payload) inp)).map shown =
      List.replicate (leadIn r) none ++
        ((wave (packetLines ((packetBytes p.code payload).flatMap bitsLsb))).map some ++
          List.replicate (T - (leadIn r + 4 * (packetLines
            ((packetBytes p.code payload).flatMap bitsLsb)).length)) none) := by
    rw [wave_traj, funext wires_false, List.append_assoc] at hwave
    simp only [wave, List.map_flatMap, List.map_replicate]
    rw [← hwave, List.map_map]
    rfl
  obtain ⟨n, hn⟩ : ∃ n, T - (leadIn r + 4 * (packetLines
      ((packetBytes p.code payload).flatMap bitsLsb)).length) = n + 1 :=
    ⟨T - (leadIn r + 4 * (packetLines
      ((packetBytes p.code payload).flatMap bitsLsb)).length) - 1, by omega⟩
  have hidle : before.map shown = List.replicate before.length none :=
    List.eq_replicate_iff.2 ⟨by simp, fun x hx => by
      obtain ⟨q, hq, rfl⟩ := List.mem_map.1 hx
      exact (shown_eq_none q).2 (hbefore q hq)⟩
  have hshown : (before ++
      ((List.range T).map (benchPins host (Bench.init s payload) inp)).drop called).map shown =
        List.replicate (before.length + (leadIn r - called)) none ++
          (wave (packetLines ((packetBytes p.code payload).flatMap bitsLsb))).map some ++
          List.replicate (n + 1) none := by
    rw [List.map_append, List.map_drop, hmap, hidle, hn,
      List.drop_append_of_le_length (by simpa using hcalled), List.drop_replicate,
      ← List.append_assoc, ← List.replicate_add, ← List.append_assoc]
  obtain ⟨rest, hrest⟩ := receiveFromDut_shown htime hshown
  have hpid : Monitor.pidIsData p.code = carriesData p.code := by
    obtain rfl | rfl | rfl | rfl | rfl := hp <;> decide
  rw [getDeviceResponse, hrest, Option.map_some, response_packetBytes hpid]

/-- A DATA0 packet of one byte, whose bits are stuffed, to a driver that waits from the request
on. -/
theorem response_decoded_data0 :
    getDeviceResponse ([] ++ ((List.range 200).map (benchPins (fun _ => (true, false))
      (Bench.init FsTx.State.reset [0xff#8]) fun t => fifoInput false 2 UsbPid.data0.code t
        (feedback Bench.step (fifoInput false 2 UsbPid.data0.code)
          (Bench.init FsTx.State.reset [0xff#8]) t))).drop 0) =
      some ⟨false, true, 0b0011#4, [0xff#8], []⟩ :=
  response_decoded (by decide) Idle.reset
    (Transmission.closed false (r := 2) (by decide) UsbPid.data0.code
      (Bench.init FsTx.State.reset [0xff#8]) 200)
    (by decide +kernel) (fun _ => (true, false)) (fun _ hq => by cases hq) (by decide) (by decide)

end Reception

end UsbDev
