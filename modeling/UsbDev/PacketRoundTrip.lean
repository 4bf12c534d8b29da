import UsbDev.Monitor

/-!
# From the driver to the monitor

The monitor decodes what the driver sends. A monitor at the beginning of a bit that
has seen the bits before reads the bits to come in their order, whatever was stuffed
between them; fields, bytes and packets follow from that.
-/
namespace UsbDev.Monitor

open LineCode Deserializer

/-! ### The line as the monitor sees it -/

/-- The levels of a symbol. -/
def levels : Line → Bool × Bool
  | .j => (true, false)
  | .k => (false, true)
  | .se0 => (false, false)

theorem levels_ofLevel (level : Bool) : levels (Line.ofLevel level) = (level, !level) := by
  cases level <;> rfl

/-- Each symbol is held for four edges. -/
def wave (lines : List Line) : List (Bool × Bool) :=
  lines.flatMap fun l => List.replicate 4 (levels l)

theorem wave_cons (l : Line) (ls : List Line) :
    wave (l :: ls) = levels l :: levels l :: levels l :: levels l :: wave ls := rfl

theorem wave_append (as bs : List Line) : wave (as ++ bs) = wave as ++ wave bs :=
  List.flatMap_append

theorem wave_replicate (n : ℕ) (l : Line) :
    wave (List.replicate n l) = List.replicate (4 * n) (levels l) := by
  induction n with
  | zero => rfl
  | succ n ih =>
      rw [List.replicate_succ, wave_cons, ih]
      rfl

/-- The line at the present edge and at the edges to come. -/
def view (m : Monitor) : List (Bool × Bool) := m.pins.line :: m.later.map Pins.line

/-- The registers of the monitor, and what it is going to see. -/
structure Sees (m : Monitor) (level : Bool) (ones : ℕ) (xs : List (Bool × Bool)) : Prop where
  prevDp : m.prevDp = level
  onesCnt : m.onesCnt = ones
  view : view m = xs

variable {m : Monitor} {level : Bool} {ones : ℕ} {xs : List (Bool × Bool)}

theorem Sees.set (h : Sees m level ones xs) (level' : Bool) (ones' : ℕ) :
    Sees { m with prevDp := level', onesCnt := ones' } level' ones' xs := ⟨rfl, rfl, h.view⟩

theorem Sees.line {x : Bool × Bool} (h : Sees m level ones (x :: xs)) : m.pins.line = x :=
  (List.cons.inj h.view).1

theorem Sees.lineDp {x : Bool × Bool} (h : Sees m level ones (x :: xs)) : m.pins.lineDp = x.1 :=
  congrArg Prod.fst h.line

theorem Sees.lineIsSe0 {x : Bool × Bool} (h : Sees m level ones (x :: xs)) :
    m.pins.lineIsSe0 = (!x.1 && !x.2) := by
  rw [← h.line]
  rfl

theorem Sees.posedge {x y : Bool × Bool} (h : Sees m level ones (x :: y :: xs)) :
    ∃ m', posedge m = some m' ∧ Sees m' level ones (y :: xs) := by
  obtain ⟨hprev, hones, hview⟩ := h
  rw [Monitor.view, List.cons.injEq, List.map_eq_cons_iff] at hview
  obtain ⟨-, p, ps, hlater, rfl, rfl⟩ := hview
  exact ⟨{ m with pins := p, later := ps }, by rw [Monitor.posedge, hlater], hprev, hones, rfl⟩

theorem Sees.posedges (as : List (Bool × Bool)) {x : Bool × Bool}
    (h : Sees m level ones (as ++ x :: xs)) :
    ∃ m', posedges as.length m = some m' ∧ Sees m' level ones (x :: xs) := by
  induction as generalizing m with
  | nil => exact ⟨m, rfl, h⟩
  | cons a as ih =>
      obtain ⟨y, ys, hys⟩ : ∃ y ys, as ++ x :: xs = y :: ys := by
        cases as with
        | nil => exact ⟨x, xs, rfl⟩
        | cons a' as => exact ⟨a', as ++ x :: xs, rfl⟩
      rw [List.cons_append, hys] at h
      obtain ⟨m₁, h₁, hsees₁⟩ := h.posedge
      rw [← hys] at hsees₁
      obtain ⟨m₂, h₂, hsees₂⟩ := ih hsees₁
      exact ⟨m₂, by rw [List.length_cons, Monitor.posedges, h₁, Option.bind_some, h₂], hsees₂⟩

/-- Two edges on. -/
theorem Sees.two {x y z : Bool × Bool} (h : Sees m level ones (x :: y :: z :: xs)) :
    ∃ m', Monitor.posedges 2 m = some m' ∧ Sees m' level ones (z :: xs) :=
  h.posedges [x, y]

/-! ### Bits -/

/-- The symbols of some bits. -/
def coded (level : Bool) (ones : ℕ) (bits : List Bool) : List Line :=
  (nrzi level (stuff ones bits)).map Line.ofLevel

/-- The symbols of a bit with a stuffed one after it. -/
theorem coded_stuffed (level : Bool) (bs : List Bool) : coded level 5 (true :: bs) =
    Line.ofLevel (nrziStep level true) :: Line.ofLevel (!level) :: coded (!level) 0 bs := by
  rw [coded, stuff_true_five, nrzi_cons, nrzi_cons, nrziStep_true, nrziStep_false]
  rfl

/-- The symbol of any other bit. -/
theorem coded_cons {b : Bool} {ones : ℕ} (hones : ones < 6) (h : ¬ (b = true ∧ ones = 5))
    (level : Bool) (bs : List Bool) :
    coded level ones (b :: bs) =
        Line.ofLevel (nrziStep level b) ::
          coded (nrziStep level b) (if b then ones + 1 else 0) bs ∧
      (if b then ones + 1 else 0) < 6 := by
  cases b with
  | false => exact ⟨rfl, show 0 < 6 by omega⟩
  | true =>
      have hfour : ones < 5 := by
        have hne : ones ≠ 5 := fun h5 => h ⟨rfl, h5⟩
        omega
      rw [coded, stuff_true hfour]
      exact ⟨rfl, show ones + 1 < 6 by omega⟩

/-- The monitor is at the beginning of the first of these bits, which other symbols follow. -/
def Reads (m : Monitor) (bits : List Bool) (l : Line) (after : List Line) : Prop :=
  ∃ level ones, ones < 6 ∧ Sees m level ones (wave (coded level ones bits ++ l :: after))

/-- A bit with no stuffed one after it. -/
theorem Sees.finishBit {x y z : Bool × Bool} (h : Sees m level ones (x :: y :: z :: xs))
    (hones : ones ≠ 6) : ∃ m', finishBit m = some m' ∧ Sees m' level ones (z :: xs) := by
  obtain ⟨m', h', hsees⟩ := h.two
  refine ⟨m', ?_, hsees⟩
  rw [Monitor.finishBit, h', Option.bind_some, if_neg (by rw [hsees.onesCnt] ; exact hones)]

/-- The sixth one in a row and the stuffed bit. -/
theorem Sees.finishStuffed {x y z : Bool × Bool} {l : Line}
    (h : Sees m level 6 (x :: y :: levels l :: levels l :: levels l :: levels l :: z :: xs)) :
    ∃ m', Monitor.finishBit m = some m' ∧ Sees m' (levels l).1 0 (z :: xs) := by
  obtain ⟨m₁, h₁, hsees₁⟩ := h.two
  obtain ⟨m₂, h₂, hsees₂⟩ := hsees₁.two
  obtain ⟨m₃, h₃, hsees₃⟩ := (hsees₂.set m₂.pins.lineDp 0).two
  refine ⟨m₃, ?_, ?_⟩
  · rw [Monitor.finishBit, h₁, Option.bind_some, if_pos hsees₁.onesCnt, h₂, Option.bind_some, h₃]
  · rwa [hsees₂.lineDp] at hsees₃

theorem wave_append_cons (ls : List Line) (l : Line) (after : List Line) :
    ∃ z zs, wave (ls ++ l :: after) = z :: zs := by
  cases ls with
  | nil => exact ⟨_, _, wave_cons l after⟩
  | cons l' ls => exact ⟨_, _, wave_cons l' (ls ++ l :: after)⟩

/-- The first half of a bit time. -/
theorem Sees.getNextBit {b : Bool} {ls : List Line}
    (h : Sees m level ones (wave (Line.ofLevel (nrziStep level b) :: ls))) :
    ∃ m', Monitor.getNextBit m = (Monitor.finishBit m').map (fun m => ⟨b, false, m⟩) ∧
      Sees m' (nrziStep level b) (if b then ones + 1 else 0)
        (levels (Line.ofLevel (nrziStep level b)) :: levels (Line.ofLevel (nrziStep level b)) ::
          wave ls) := by
  rw [wave_cons] at h
  obtain ⟨m₁, h₁, hsees₁⟩ := h.two
  have hdp : m₁.pins.lineDp = nrziStep level b := by rw [hsees₁.lineDp, levels_ofLevel]
  have hse0 : m₁.pins.lineIsSe0 = false := by
    rw [hsees₁.lineIsSe0, levels_ofLevel]
    cases nrziStep level b <;> rfl
  have hbit : (m₁.pins.lineDp == m₁.prevDp) = b := by
    rw [hdp, hsees₁.prevDp, Bool.beq_comm, beq_nrziStep]
  refine ⟨_, ?_, hsees₁.set (nrziStep level b) (if b then ones + 1 else 0)⟩
  rw [Monitor.getNextBit, h₁, Option.bind_some, hse0]
  simp only [Bool.false_eq_true, if_false, hbit]
  rw [hdp, hsees₁.onesCnt]

/-- The next bit is read, and the one stuffed after it is passed over. -/
theorem Reads.next {b : Bool} {bs : List Bool} {l : Line} {after : List Line}
    (h : Reads m (b :: bs) l after) :
    ∃ m', Monitor.getNextBit m = some ⟨b, false, m'⟩ ∧ Reads m' bs l after := by
  obtain ⟨level, ones, hones, hsees⟩ := h
  by_cases hstuffed : b = true ∧ ones = 5
  · obtain ⟨rfl, rfl⟩ := hstuffed
    rw [coded_stuffed, List.cons_append, List.cons_append] at hsees
    obtain ⟨m₁, h₁, hsees₁⟩ := hsees.getNextBit
    obtain ⟨z, zs, hz⟩ := wave_append_cons (coded (!level) 0 bs) l after
    rw [wave_cons, hz] at hsees₁
    obtain ⟨m₂, h₂, hsees₂⟩ := hsees₁.finishStuffed
    refine ⟨m₂, by rw [h₁, h₂] ; rfl, !level, 0, by omega, ?_⟩
    rwa [← hz, levels_ofLevel] at hsees₂
  · obtain ⟨hcode, hlt⟩ := coded_cons hones hstuffed level bs
    rw [hcode, List.cons_append] at hsees
    obtain ⟨m₁, h₁, hsees₁⟩ := hsees.getNextBit
    obtain ⟨z, zs, hz⟩ := wave_append_cons
      (coded (nrziStep level b) (if b then ones + 1 else 0) bs) l after
    rw [hz] at hsees₁
    obtain ⟨m₂, h₂, hsees₂⟩ := hsees₁.finishBit (by omega)
    refine ⟨m₂, by rw [h₁, h₂] ; rfl, nrziStep level b, if b then ones + 1 else 0, hlt, ?_⟩
    rwa [← hz] at hsees₂

/-- After the last bit the monitor finds SE0. -/
theorem Reads.eop {after : List Line} (h : Reads m [] .se0 after) :
    ∃ m', Monitor.getNextBit m = some ⟨false, true, m'⟩ ∧
      view m' = levels .se0 :: levels .se0 :: wave after := by
  obtain ⟨level, ones, -, hsees⟩ := h
  have hcode : coded level ones [] ++ Line.se0 :: after = .se0 :: after := rfl
  rw [hcode, wave_cons] at hsees
  obtain ⟨m', h', hsees'⟩ := hsees.two
  refine ⟨m', ?_, hsees'.view⟩
  rw [Monitor.getNextBit, h', Option.bind_some, if_pos]
  rw [hsees'.lineIsSe0]
  rfl

/-! ### Words and bytes -/

theorem Reads.readBits {w : ℕ} {as bs : List Bool} {l : Line} {after : List Line}
    (h : Reads m (as ++ bs) l after) (k : ℕ) (x : BitVec w) :
    ∃ m', Monitor.readBits as.length k x m = some (fill x k as, m') ∧ Reads m' bs l after := by
  induction as generalizing m k x with
  | nil => exact ⟨m, rfl, h⟩
  | cons a as ih =>
      obtain ⟨m₁, h₁, hreads₁⟩ := h.next
      obtain ⟨m₂, h₂, hreads₂⟩ := ih hreads₁ (k + 1) (setBit x k a)
      exact ⟨m₂, by rw [List.length_cons, Monitor.readBits, h₁, Option.bind_some, h₂, fill],
        hreads₂⟩

/-- A word is read as it was sent. -/
theorem Reads.word {w : ℕ} {y : BitVec w} {bs : List Bool} {l : Line} {after : List Line}
    (h : Reads m (bitsLsb y ++ bs) l after) :
    ∃ m', Monitor.readBits w 0 (0 : BitVec w) m = some (y, m') ∧ Reads m' bs l after := by
  obtain ⟨m', h', hreads⟩ := h.readBits 0 (0 : BitVec w)
  rw [length_bitsLsb, fill_bitsLsb] at h'
  exact ⟨m', h', hreads⟩

theorem Reads.readData {bs : List Bool} {after : List Line} (h : Reads m bs .se0 after)
    (a : Assembly) : ∃ m', Monitor.readData m a = some (bs.foldl Assembly.push a, m') ∧
      view m' = levels .se0 :: levels .se0 :: wave after := by
  induction bs generalizing m a with
  | nil =>
      obtain ⟨m', h', hview⟩ := h.eop
      refine ⟨m', ?_, hview⟩
      rw [readData_eq h', if_pos rfl]
      rfl
  | cons b bs ih =>
      obtain ⟨m₁, h₁, hreads₁⟩ := h.next
      obtain ⟨m₂, h₂, hview⟩ := ih hreads₁ (a.push b)
      refine ⟨m₂, ?_, hview⟩
      rw [readData_eq h₁, if_neg (by simp), h₂]
      rfl

/-! ### Waiting for a state of the line -/

theorem advance_view {p : Pins → Bool} {q : Bool × Bool → Bool} (hp : ∀ x, p x = q x.line)
    {as xs : List (Bool × Bool)} {y : Bool × Bool} (has : ∀ a ∈ as, q a = false)
    (hy : q y = true) {x : Pins} {later : List Pins}
    (h : x.line :: later.map Pins.line = as ++ y :: xs) :
    ∃ r, advance p x later = some r ∧ r.1.line = y ∧ r.2.map Pins.line = xs := by
  induction as generalizing x later with
  | nil =>
      obtain ⟨rfl, rfl⟩ := List.cons.inj h
      refine ⟨(x, later), ?_, rfl, rfl⟩
      have hx : p x = true := by rw [hp, hy]
      cases later <;> simp [advance, hx]
  | cons a as ih =>
      obtain ⟨rfl, hrest⟩ := List.cons.inj h
      have hx : p x = false := by rw [hp, has _ (by simp)]
      cases later with
      | nil => simp at hrest
      | cons z later =>
          obtain ⟨r, hr, hline⟩ := ih (fun b hb => has b (by simp [hb])) hrest
          exact ⟨r, by rw [advance, hx, if_neg (by simp), hr], hline⟩

theorem waitUntil_view {p : Pins → Bool} {q : Bool × Bool → Bool} (hp : ∀ x, p x = q x.line)
    {as : List (Bool × Bool)} {y : Bool × Bool} (has : ∀ a ∈ as, q a = false) (hy : q y = true)
    (h : view m = as ++ y :: xs) : ∃ m', waitUntil p m = some m' ∧ view m' = y :: xs := by
  obtain ⟨r, hr, hline, hlater⟩ := advance_view hp has hy h
  refine ⟨{ m with pins := r.1, later := r.2 }, by rw [waitUntil, hr] ; rfl, ?_⟩
  rw [Monitor.view, hline, hlater]

/-- The monitor is in the SE0 of an end of packet; after it comes J. -/
def AtEop (m : Monitor) (xs : List (Bool × Bool)) : Prop :=
  ∃ n, view m = levels .se0 :: (List.replicate n (levels .se0) ++ levels .j :: xs)

/-- The end of `collect_packet`. -/
theorem AtEop.passed (h : AtEop m xs) : ∃ m₁ m₂, waitUntil Pins.lineIsSe0 m = some m₁ ∧
    waitUntil (fun p => !p.lineIsSe0) m₁ = some m₂ ∧ view m₂ = levels .j :: xs := by
  obtain ⟨n, hview⟩ := h
  rw [← List.nil_append (levels .se0 :: _)] at hview
  obtain ⟨m₁, h₁, hview₁⟩ := waitUntil_view (p := Pins.lineIsSe0) (q := fun x => !x.1 && !x.2)
    (fun _ => rfl) (by simp) rfl hview
  have hsplit : levels .se0 :: (List.replicate n (levels .se0) ++ levels .j :: xs) =
      List.replicate (n + 1) (levels .se0) ++ levels .j :: xs := rfl
  rw [hsplit] at hview₁
  obtain ⟨m₂, h₂, hview₂⟩ := waitUntil_view (p := fun p => !p.lineIsSe0)
    (q := fun x => !(!x.1 && !x.2)) (fun _ => rfl)
    (fun a ha => by rw [List.eq_of_mem_replicate ha] ; rfl) rfl hview₁
  exact ⟨m₁, m₂, h₁, h₂, hview₂⟩

/-! ### Packets -/

/-- What the monitor has to make of a transaction. -/
structure Decodes (t : Collected) (req : UsbTransaction) : Prop where
  normal : t.isBusReset = false
  pid : t.pid = req.pid.code
  token : req.isToken = true → t.addr = req.addr ∧ t.endp = req.endp
  sof : req.isSof = true → t.frameNum = req.frameNum
  data : req.isData = true → t.data = req.data

/-- The line after the bits of a packet. -/
def eopThen (more : List Line) : List Line := .se0 :: .j :: more

/-- What the monitor sees after the first edge of the J that ends a packet. -/
def jThen (more : List Line) : List (Bool × Bool) :=
  levels .j :: levels .j :: levels .j :: wave more

theorem Reads.atEop {more : List Line} (h : Reads m [] .se0 (eopThen more)) :
    AtEop m (jThen more) := by
  obtain ⟨level, ones, -, hsees⟩ := h
  exact ⟨7, hsees.view⟩

theorem Reads.readPayload {payload : List (BitVec 8)} {crc : BitVec 16} {more : List Line}
    (h : Reads m (payload.flatMap bitsLsb ++ bitsMsb crc) .se0 (eopThen more)) :
    ∃ a m', Monitor.readData m .empty = some (a, m') ∧ AtEop m' (jThen more) ∧ a.bitCnt = 0 ∧
      ∃ b c, a.bytes = payload ++ [b, c] := by
  obtain ⟨m', h', hview⟩ := h.readData .empty
  have hcrc : payload.flatMap bitsLsb ++ bitsMsb crc =
      (payload ++ [crc.reverse.extractLsb' 0 8, crc.reverse.extractLsb' 8 8]).flatMap bitsLsb := by
    have hword := bitsLsb_append (crc.reverse.extractLsb' 8 8) (crc.reverse.extractLsb' 0 8)
    rw [bytes_append, bitsLsb_reverse] at hword
    simp [hword]
  obtain ⟨cur, hpush⟩ := Assembly.foldl_push_bytes []
    0 (payload ++ [crc.reverse.extractLsb' 0 8, crc.reverse.extractLsb' 8 8])
  rw [← hcrc, List.nil_append] at hpush
  rw [Assembly.empty, hpush] at h'
  exact ⟨_, m', h', ⟨5, hview⟩, rfl, _, _, rfl⟩

theorem pidIsToken_code (p : UsbPid) :
    pidIsToken p.code = (p == .in || p == .out || p == .setup) := by cases p <;> rfl

theorem pidIsSof_code (p : UsbPid) : (p.code == UsbPid.sof.code) = (p == .sof) := by
  cases p <;> rfl

theorem pidIsData_code (p : UsbPid) : pidIsData p.code = (p == .data0 || p == .data1) := by
  cases p <;> rfl

/-- The word of a token holds its fields below the CRC5. -/
theorem fields_of_word (crc : BitVec 5) (fields : BitVec 11) :
    (crc ++ fields).extractLsb' 0 11 = fields ∧
      (crc ++ fields).extractLsb' 0 7 = fields.extractLsb' 0 7 ∧
      (crc ++ fields).extractLsb' 7 4 = fields.extractLsb' 7 4 := by
  refine ⟨?_, BitVec.extractLsb'_append_eq_of_add_le (by decide),
    BitVec.extractLsb'_append_eq_of_add_le (by decide)⟩
  rw [BitVec.extractLsb'_append_eq_of_add_le (by decide), BitVec.extractLsb'_eq_self]

theorem addr_endp_of_fields (endp : BitVec 4) (addr : BitVec 7) :
    (endp ++ addr).extractLsb' 0 7 = addr ∧ (endp ++ addr).extractLsb' 7 4 = endp := by
  constructor
  · rw [BitVec.extractLsb'_append_eq_of_add_le (by decide), BitVec.extractLsb'_eq_self]
  · rw [BitVec.extractLsb'_append_eq_of_le (by decide), Nat.sub_self, BitVec.extractLsb'_eq_self]

theorem Reads.collectPayload {req : UsbTransaction} {more : List Line} {t : Collected}
    (h : Reads m (Driver.payloadBits req) .se0 (eopThen more)) (hreq : req.pid ≠ .pre)
    (ht : t.isBusReset = false) (hpid : t.pid = req.pid.code) :
    ∃ c, Monitor.collectPayload t m = some c ∧ c.valid = true ∧ Decodes c.trans req ∧
      AtEop c.monitor (jThen more) := by
  have htoken : pidIsToken t.pid = req.isToken := by rw [hpid, pidIsToken_code] ; rfl
  have hsof : (t.pid == UsbPid.sof.code) = req.isSof := by rw [hpid, pidIsSof_code] ; rfl
  have hdata : pidIsData t.pid = req.isData := by rw [hpid, pidIsData_code] ; rfl
  rw [Monitor.collectPayload, htoken, hsof, hdata]
  rw [Driver.payloadBits] at h
  by_cases hfields : (req.isToken || req.isSof) = true
  · rw [if_pos hfields] at h ⊢
    have hnot : req.isData = false := by
      revert hfields
      unfold UsbTransaction.isToken UsbTransaction.isSof UsbTransaction.isData
      cases req.pid <;> decide
    rw [← bitsLsb_reverse, ← bitsLsb_append, ← List.append_nil (bitsLsb _)] at h
    obtain ⟨m', h', hreads⟩ := h.word
    obtain ⟨hframe, haddr, hendp⟩ :=
      fields_of_word (Driver.calcCrc5 (Driver.fields req)).reverse (Driver.fields req)
    rw [h', Option.map_some]
    refine ⟨_, rfl, ?_⟩
    cases hs : req.isSof with
    | true =>
        have hf : Driver.fields req = req.frameNum := by rw [Driver.fields, if_pos hs]
        have hno : req.isToken = false := by
          revert hs
          unfold UsbTransaction.isToken UsbTransaction.isSof
          cases req.pid <;> decide
        rw [if_pos rfl]
        refine ⟨rfl, ⟨ht, hpid, fun htok => ?_, fun _ => by rw [hframe, hf], fun hd => ?_⟩,
          hreads.atEop⟩
        · rw [hno] at htok
          cases htok
        · rw [hnot] at hd
          cases hd
    | false =>
        have hf : Driver.fields req = req.endp ++ req.addr := by
          rw [Driver.fields, if_neg (by rw [hs] ; decide)]
        obtain ⟨ha, he⟩ := addr_endp_of_fields req.endp req.addr
        rw [if_neg (by decide)]
        refine ⟨rfl, ⟨ht, hpid, fun _ => ?_, fun hs' => ?_, fun hd => ?_⟩, hreads.atEop⟩
        · exact ⟨by rw [haddr, hf, ha], by rw [hendp, hf, he]⟩
        · rw [hs] at hs'
          cases hs'
        · rw [hnot] at hd
          cases hd
  · rw [if_neg hfields] at h ⊢
    rw [Bool.not_eq_true, Bool.or_eq_false_iff] at hfields
    have hno : (req.isToken = true → t.addr = req.addr ∧ t.endp = req.endp) ∧
        (req.isSof = true → t.frameNum = req.frameNum) := by
      rw [hfields.1, hfields.2]
      exact ⟨fun h => (by cases h), fun h => (by cases h)⟩
    cases hd : req.isData with
    | true =>
        rw [hd, if_pos rfl] at h
        obtain ⟨a, m', h', heop, hcnt, b, c, hbytes⟩ := h.readPayload
        rw [if_pos rfl, h', Option.map_some, hcnt, hbytes]
        refine ⟨_, rfl, ?_⟩
        rw [if_neg (by simp)]
        refine ⟨rfl, ⟨ht, hpid, hno.1, hno.2, fun _ => ?_⟩, heop⟩
        simp
    | false =>
        rw [hd, if_neg (by decide)] at h
        rw [if_neg (by decide)]
        refine ⟨_, rfl, ?_, ⟨ht, hpid, hno.1, hno.2, fun h' => ?_⟩, h.atEop⟩
        · show pidIsHandshake t.pid = true
          rw [hpid]
          obtain ⟨htok, hs⟩ := hfields
          revert htok hs hd hreq
          unfold UsbTransaction.isToken UsbTransaction.isSof UsbTransaction.isData
          cases req.pid <;> decide
        · rw [hd] at h'
          cases h'

/-- The bits of a packet as the monitor takes them: SYNC, the identifier with its complement, and
what follows. -/
theorem packetBits_eq (req : UsbTransaction) :
    bitsLsb 0x80#8 ++ Driver.bodyBits req =
      bitsLsb 0x80#8 ++ (bitsLsb (~~~req.pid.code ++ req.pid.code) ++ Driver.payloadBits req) := by
  rw [bitsLsb_append, Driver.bodyBits]

/-- The two halves of the identifier byte. -/
theorem pid_of_byte (pid : BitVec 4) :
    (~~~pid ++ pid).extractLsb' 0 4 = pid ∧ (~~~pid ++ pid).extractLsb' 4 4 = ~~~pid := by
  constructor
  · rw [BitVec.extractLsb'_append_eq_of_add_le (by decide), BitVec.extractLsb'_eq_self]
  · rw [BitVec.extractLsb'_append_eq_of_le (by decide), Nat.sub_self, BitVec.extractLsb'_eq_self]

theorem Reads.collectPacket {req : UsbTransaction} {more : List Line}
    (h : Reads m (bitsLsb 0x80#8 ++ Driver.bodyBits req) .se0 (eopThen more))
    (hreq : req.pid ≠ .pre) {t : Collected} :
    ∃ c, Monitor.collectPacket t m = some c ∧ c.valid = true ∧ Decodes c.trans req ∧
      view c.monitor = levels .j :: jThen more := by
  rw [packetBits_eq] at h
  obtain ⟨m₁, h₁, hreads₁⟩ := h.word
  obtain ⟨m₂, h₂, hreads₂⟩ := hreads₁.word
  obtain ⟨hlow, hhigh⟩ := pid_of_byte req.pid.code
  obtain ⟨c, hc, hvalid, hdec, heop⟩ := hreads₂.collectPayload hreq
    (t := { t with pid := req.pid.code, isBusReset := false }) rfl rfl
  obtain ⟨m₃, m₄, h₃, h₄, hview⟩ := heop.passed
  refine ⟨{ c with monitor := m₄ }, ?_, hvalid, hdec, hview⟩
  have hok : (0x80#8 == 0x80#8 && ~~~req.pid.code == ~~~req.pid.code) = true := by simp
  rw [Monitor.collectPacket, h₁, Option.bind_some]
  simp only [h₂, Option.bind_some, hlow, hhigh, hok, if_true, hc, h₃, h₄, Option.map_some]

/-! ### Any number of packets -/

/-- The endpoint of a token is its own. -/
theorem Decodes.inherit {t : Collected} {req : UsbTransaction} (h : Decodes t req) (c : Current) :
    Decodes (inherit c t).1 req := by
  obtain ⟨hnormal, hpid, htoken, hsof, hdata⟩ := h
  unfold Monitor.inherit
  split_ifs with hin hout
  · exact ⟨hnormal, hpid, htoken, hsof, hdata⟩
  · exact ⟨hnormal, hpid, htoken, hsof, hdata⟩
  · refine ⟨hnormal, hpid, fun htok => ?_, hsof, hdata⟩
    exfalso
    rw [hpid] at hin hout
    revert htok hin hout
    unfold UsbTransaction.isToken
    cases req.pid <;> decide

/-- The first K of a packet after some J. -/
theorem waitForStart_of_idle {n : ℕ} {bits : List Bool} {l : Line} {after : List Line}
    (h : m.later.map Pins.line =
      List.replicate n (levels .j) ++ wave (coded true 0 (false :: bits) ++ l :: after)) :
    ∃ m', waitForStartOfPacket m = some m' ∧ m'.pins.lineIsSe0 = false ∧
      Reads m' (false :: bits) l after := by
  have hk : wave (coded true 0 (false :: bits) ++ l :: after) =
      levels .k :: (levels .k :: levels .k :: levels .k ::
        wave (coded false 0 bits ++ l :: after)) := rfl
  rw [hk] at h
  obtain ⟨p, ps, hlater⟩ : ∃ p ps, m.later = p :: ps := by
    cases hl : m.later with
    | nil => simp [hl] at h
    | cons p ps => exact ⟨p, ps, rfl⟩
  have hedge : posedge m = some { m with pins := p, later := ps } := by
    rw [Monitor.posedge, hlater]
  have hview : view { m with pins := p, later := ps } = List.replicate n (levels .j) ++ levels .k ::
      (levels .k :: levels .k :: levels .k :: wave (coded false 0 bits ++ l :: after)) := by
    rw [← h, hlater]
    rfl
  obtain ⟨m', h', hview'⟩ := waitUntil_view (p := fun p => p.lineIsK || p.lineIsSe0)
    (q := fun x => (!x.1 && x.2) || (!x.1 && !x.2)) (fun _ => rfl)
    (fun a ha => by rw [List.eq_of_mem_replicate ha] ; rfl) rfl hview
  have hsees : Sees { m' with prevDp := true, onesCnt := 0 } true 0 (levels .k :: (levels .k ::
      levels .k :: levels .k :: wave (coded false 0 bits ++ l :: after))) := ⟨rfl, rfl, hview'⟩
  refine ⟨{ m' with prevDp := true, onesCnt := 0 }, ?_, ?_, true, 0, by decide, hsees⟩
  · rw [waitForStartOfPacket, hedge, Option.bind_some, h']
    rfl
  · rw [hsees.lineIsSe0]
    rfl

/-- One packet of the driver, after any number of edges in J. -/
theorem collectTrans_packet {req : UsbTransaction} (hreq : req.pid ≠ .pre) (c : Current) {n : ℕ}
    {more : List Line} (h : m.later.map Pins.line = List.replicate n (levels .j) ++
      wave (packetLines (bitsLsb 0x80#8 ++ Driver.bodyBits req) ++ more)) :
    ∃ r t, collectTrans c m = some r ∧ r.written = some t ∧ Decodes t req ∧
      r.monitor.later.map Pins.line = jThen more := by
  have hlines : packetLines (bitsLsb 0x80#8 ++ Driver.bodyBits req) ++ more =
      coded true 0 (false :: ((bitsLsb 0x80#8).tail ++ Driver.bodyBits req)) ++
        .se0 :: eopThen more := by
    rw [packetLines, List.append_assoc]
    rfl
  rw [hlines] at h
  obtain ⟨m₁, h₁, hse0, hreads⟩ := waitForStart_of_idle h
  obtain ⟨r, hr, hvalid, hdec, hview⟩ := hreads.collectPacket hreq
    (t := newTrans m₁.pins.dutDriving)
  refine ⟨⟨some (Monitor.inherit c r.trans).1, (Monitor.inherit c r.trans).2, r.monitor⟩,
    (Monitor.inherit c r.trans).1, ?_, rfl, hdec.inherit c, ?_⟩
  · rw [collectTrans, h₁, Option.bind_some]
    simp only [hse0, Bool.false_eq_true, if_false, hr, Option.map_some, hvalid, if_true]
  · exact (List.cons.inj hview).2

/-- On an idle line the monitor waits. -/
theorem waitForStart_eq_none {n : ℕ} (h : m.later.map Pins.line = List.replicate n (levels .j)) :
    waitForStartOfPacket m = none := by
  have hnone : ∀ (x : Pins) (ps : List Pins), (∀ p ∈ x :: ps, p.line = levels .j) →
      advance (fun p => p.lineIsK || p.lineIsSe0) x ps = none := by
    intro x ps
    induction ps generalizing x with
    | nil =>
        intro hj
        have hline : (x.lineDp, x.lineDn) = (true, false) := hj x (by simp)
        obtain ⟨hdp, hdn⟩ := Prod.mk.inj hline
        simp [advance, Pins.lineIsK, Pins.lineIsSe0, hdp]
    | cons y ps ih =>
        intro hj
        have hline : (x.lineDp, x.lineDn) = (true, false) := hj x (by simp)
        obtain ⟨hdp, hdn⟩ := Prod.mk.inj hline
        have hrest := ih y fun p hp => hj p (by simp [List.mem_cons.1 hp])
        simp [advance, Pins.lineIsK, Pins.lineIsSe0, hdp] at hrest ⊢
        exact hrest
  rw [waitForStartOfPacket, Monitor.posedge]
  cases hl : m.later with
  | nil => rfl
  | cons p ps =>
      rw [hl] at h
      have hj : ∀ q ∈ p :: ps, q.line = levels .j := by
        intro q hq
        have hmem : q.line ∈ (p :: ps).map Pins.line := List.mem_map_of_mem hq
        rw [h] at hmem
        exact List.eq_of_mem_replicate hmem
      simp [waitUntil, hnone p ps hj]

end UsbDev.Monitor

namespace UsbDev.Driver

open LineCode

/-- The loop of `get_and_drive` over transactions of kind `NORMAL`, each after some idle bits. -/
def drivePackets (d : Driver) (reqs : List (ℕ × UsbTransaction)) : Driver :=
  reqs.foldl (fun d p => (d.driveLine .j p.1).drivePacket p.2) d

theorem drivePackets_sent (d : Driver) (reqs : List (ℕ × UsbTransaction)) :
    (d.drivePackets reqs).sent = d.sent ++ reqs.flatMap fun p =>
      List.replicate p.1 .j ++ packetLines (bitsLsb 0x80#8 ++ bodyBits p.2) := by
  induction reqs generalizing d with
  | nil => simp [drivePackets]
  | cons p reqs ih =>
      rw [drivePackets, List.foldl_cons, ← drivePackets, ih, drivePacket_sent, driveLine,
        List.flatMap_cons, List.append_assoc, List.append_assoc, List.append_assoc]

end UsbDev.Driver

namespace UsbDev.Monitor

open LineCode

theorem collects_packets (reqs : List (ℕ × UsbTransaction)) (hreqs : ∀ p ∈ reqs, p.2.pid ≠ .pre)
    (c : Current) (m : Monitor) (n : ℕ)
    (h : m.later.map Pins.line = List.replicate n (levels .j) ++ wave (reqs.flatMap fun p =>
      List.replicate p.1 .j ++ packetLines (bitsLsb 0x80#8 ++ Driver.bodyBits p.2))) :
    ∃ ts c' m', Collects c m ts c' m' ∧ List.Forall₂ Decodes ts (reqs.map Prod.snd) ∧
      waitForStartOfPacket m' = none := by
  induction reqs generalizing c m n with
  | nil => exact ⟨[], c, m, .nil c m, .nil, waitForStart_eq_none (by simpa [wave] using h)⟩
  | cons p reqs ih =>
      rw [List.flatMap_cons, List.append_assoc, wave_append, wave_replicate, ← List.append_assoc,
        ← List.replicate_add] at h
      obtain ⟨r, t, hr, hwritten, hdec, hlater⟩ := collectTrans_packet (hreqs p (by simp)) c h
      obtain ⟨ts, c', m', hrun, hall, hwait⟩ := ih (fun q hq => hreqs q (by simp [hq])) r.current
        r.monitor 3 hlater
      have hcons := Collects.cons hr hrun
      rw [hwritten] at hcons
      exact ⟨t :: ts, c', m', hcons, .cons hdec hall, hwait⟩

/-- Whatever packets the driver sends, from an idle line and with any number of idle bits between
them, the monitor writes one transaction for each, in order and with its contents, and waits for
the next packet after the last. -/
theorem packets_decoded (reqs : List (ℕ × UsbTransaction)) (hreqs : ∀ p ∈ reqs, p.2.pid ≠ .pre)
    (d : Driver) (hd : d.sent = []) (c : Current) (m : Monitor) (idle : ℕ)
    (hm : m.later.map Pins.line =
      List.replicate idle (levels .j) ++ wave (d.drivePackets reqs).sent) :
    ∃ ts c' m', Collects c m ts c' m' ∧ List.Forall₂ Decodes ts (reqs.map Prod.snd) ∧
      waitForStartOfPacket m' = none := by
  rw [Driver.drivePackets_sent, hd, List.nil_append] at hm
  exact collects_packets reqs hreqs c m idle hm

/-- The pins while the host drives the line and the device does not. -/
def hostPins (x : Bool × Bool) : Pins := ⟨false, false, false, x.1, x.2⟩

/-- A SETUP token, and a DATA0 packet of two bytes with stuffed bits, two idle bits apart. -/
def setupStage : List (ℕ × UsbTransaction) :=
  [(2, ⟨.setup, 5, 0, [], 0⟩), (2, ⟨.data0, 0, 0, [0xff#8, 0x3f#8], 0⟩)]

theorem packets_decoded_setupStage :
    ∃ ts c' m', Collects ⟨false, 0⟩
        ⟨true, 0, hostPins (levels .j),
          (wave (Driver.drivePackets ⟨.j, 0, []⟩ setupStage).sent).map hostPins⟩ ts c' m' ∧
      List.Forall₂ Decodes ts (setupStage.map Prod.snd) ∧ waitForStartOfPacket m' = none := by
  refine packets_decoded setupStage (by decide) ⟨.j, 0, []⟩ rfl ⟨false, 0⟩ _ 0 ?_
  rw [List.map_map, List.replicate_zero, List.nil_append]
  exact List.map_id'' (fun _ => rfl) _

end UsbDev.Monitor
