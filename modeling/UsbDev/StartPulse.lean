import UsbDev.RxDiff
import UsbDev.RxPacket

/-!
# The start of a packet

`pkt_start_o` shows a change from J to K while no packet is being received, and
`in_packet_q` holds it down from the next cycle on. The condition that takes
`in_packet_q` back is the end of packet, but also a PRE identifier and the flag
of a bit stuffing error, which stands until the next identifier begins.
-/
namespace UsbDev.FsRx

open LineCode Clocked

/-! ### Waveforms -/

/-- Each symbol is on the line for four cycles. -/
inductive BitTimes (eop : Bool) : List Line → List Input → Prop
  | nil : BitTimes eop [] []
  | cons {l : Line} {ls : List Line} {i₀ i₁ i₂ i₃ : Input} {is : List Input}
      (h₀ : Carries eop l i₀) (h₁ : Carries eop l i₁) (h₂ : Carries eop l i₂)
      (h₃ : Carries eop l i₃) (hs : BitTimes eop ls is) :
      BitTimes eop (l :: ls) (i₀ :: i₁ :: i₂ :: i₃ :: is)

/-- The end of packet and `n` bit times of J. -/
def endLines (n : ℕ) : List Line := [.se0, .se0] ++ List.replicate n .j

/-- A packet of any bits after SYNC, and the bit times of J behind it. -/
structure Sent where
  bits : List Bool
  idle : ℕ
  two_le_idle : 2 ≤ idle

def Sent.lines (p : Sent) : List Line :=
  syncLines ++ ((nrzi false p.bits).map Line.ofLevel ++ endLines p.idle)

/-- The cycles of a line that is idle for a while, and of the packets sent after that. -/
structure BusCycles (eop : Bool) (n : ℕ) (ps : List Sent) (idle : List Input)
    (cycles : List (List Input)) : Prop where
  pos : 1 ≤ n
  idle : BitTimes eop (List.replicate n .j) idle
  packets : List.Forall₂ (fun p is => BitTimes eop (Sent.lines p) is) ps cycles

/-- The last two symbols in `line_history` are J and K. -/
def edge (s : State) : Bool := s.lineHistory.extractLsb' 0 4 == 0b1001#4

/-- The start pulses in one cycle, the first one that has a change from J to K in
`line_history`. -/
def StartsOnce (s : State) (is : List Input) : Prop :=
  ∃ pre i post, is = pre ++ i :: post ∧
    outs step (fun s _ => edge s) s (pre ++ [i]) = List.replicate pre.length false ++ [true] ∧
    outs step seeSop s is =
      List.replicate pre.length false ++ true :: List.replicate post.length false

/-- Each packet has one start pulse. -/
def EachStartsOnce : State → List (List Input) → Prop
  | _, [] => True
  | s, is :: cycles => StartsOnce s is ∧ EachStartsOnce (run step s is) cycles

/-- Bits on which the receiver ends a packet by itself. -/
def EndsEarly (bits : List Bool) : Prop := pidBits usbPidPre <+: bits ∨ violates 0 bits = true

/-- The line changes from J to K after such bits. -/
def LateEdge (bits : List Bool) : Prop :=
  ∃ as bs, bits = as ++ false :: bs ∧ as.foldl nrziStep false = true ∧ EndsEarly as

/-- The packet leaves the flag of the bit stuffing error set. -/
def LeavesError (bits : List Bool) : Prop :=
  violates 0 bits = true ∧ ¬ pidBits usbPidPre <+: bits

/-! ### One bit time -/

/-- The four cycles of the symbol `l` are over. -/
def BitEnd (l : Line) (s : State) : Prop := OnLevel l 2 s ∨ l = .se0 ∧ OnSe0 2 s

/-- What `pkt_start_o` shows while the receiver listens. -/
def starts (s : State) : Bool := edge s && !s.inPacket

/-- The registers behind the clock recovery after one more symbol. -/
def turn (eop : Bool) (c : State) (l : Line) : State := pushed eop (settled eop c) (symbolCode l)

variable {e level : Bool} {l l' : Line} {s c : State} {i : Input} {is : List Input} {ls : List Line}

theorem seeSop_eq (hi : Listens e i) (s : State) : seeSop s i = starts s := by
  simp [seeSop, starts, edge, hi.txEn]

/-- The four cycles of a symbol take their sample in the last one. -/
theorem bit_time {i₀ i₁ i₂ i₃ : Input} (h : BitEnd l s) (h₀ : Carries e l' i₀)
    (h₁ : Carries e l' i₁) (h₂ : Carries e l' i₂) (h₃ : Carries e l' i₃) :
    log step sample s [i₀, i₁, i₂] = [] ∧
      sample (run step s [i₀, i₁, i₂]) i₃ = some (symbolCode l') ∧
      BitEnd l' (run step s [i₀, i₁, i₂, i₃]) := by
  have hjoin : [i₀, i₁, i₂] = [i₀, i₁] ++ [i₂] := rfl
  have hlast (h : OnLevel l' 0 (run step s [i₀, i₁])) (hlog : log step sample s [i₀, i₁] = []) :
      log step sample s [i₀, i₁, i₂] = [] ∧
        sample (run step s [i₀, i₁, i₂]) i₃ = some (symbolCode l') ∧
        BitEnd l' (run step s [i₀, i₁, i₂, i₃]) := by
    refine ⟨?_, ?_, .inl ((h.stay h₂).stay h₃)⟩
    · rw [hjoin, log_append, hlog, log_cons, log_nil, h.sample_eq]
      rfl
    · exact (h.stay h₂).sample_eq i₃
  have hse0 (h : OnSe0 0 (run step s [i₀, i₁])) (hl : l' = .se0)
      (hlog : log step sample s [i₀, i₁] = []) :
      log step sample s [i₀, i₁, i₂] = [] ∧
        sample (run step s [i₀, i₁, i₂]) i₃ = some (symbolCode l') ∧
        BitEnd l' (run step s [i₀, i₁, i₂, i₃]) := by
    subst hl
    refine ⟨?_, ?_, .inr ⟨rfl, (h.stay h₂).stay h₃⟩⟩
    · rw [hjoin, log_append, hlog, log_cons, log_nil, sample_eq h.bitPhase (h.lineStateRx_eq i₂)]
      rfl
    · exact sample_eq (h.stay h₂).bitPhase ((h.stay h₂).lineStateRx_eq i₃)
  obtain h | ⟨rfl, h⟩ := h
  · by_cases hsame : l' = l
    · subst hsame
      refine hlast ((h.stay h₀).stay h₁) ?_
      rw [log_cons, log_cons, log_nil, h.sample_eq, (h.stay h₀).sample_eq]
      rfl
    · by_cases hl : l' = .se0
      · subst hl
        obtain ⟨hfall, hlog⟩ := h.fall (by decide) h₀ h₁
        exact hse0 (hfall.elim id id) rfl hlog
      · obtain ⟨hturn, hlog⟩ := h.turn (by decide) hl hsame h₀ h₁
        exact hlast hturn hlog
  · by_cases hl : l' = .se0
    · subst hl
      refine hse0 ((h.stay h₀).stay h₁) rfl ?_
      rw [log_cons, log_cons, log_nil, sample_eq h.bitPhase (h.lineStateRx_eq i₀),
        sample_eq (h.stay h₀).bitPhase ((h.stay h₀).lineStateRx_eq i₁)]
      rfl
    · obtain ⟨hrise, hlog⟩ := h.rise hl h₀ h₁
      exact hlast hrise hlog

/-- What `pkt_start_o` shows in the four cycles after a sample. -/
def shown (eop : Bool) (c : State) : List Bool :=
  starts c :: List.replicate 3 (starts (settled eop c))

theorem not_valid_of_sample (h : sample s i = none) : lineStateValid s = false := by
  by_contra hv
  rw [sample, if_pos (by simpa using hv)] at h
  exact absurd h (by simp)

theorem core_step_sample {x : BitVec 2} (hi : Listens e i) (h : sample s i = some x) :
    core (step s i) = pushed e (core s) x := by
  by_cases hv : lineStateValid s = true
  · rw [sample, if_pos hv] at h
    rw [core_step_valid hi hv, Option.some.inj h]
    rfl
  · rw [sample, if_neg hv] at h
    exact absurd h (by simp)

theorem turn_bit_time {i₀ i₁ i₂ i₃ : Input} (h : BitEnd l s) (h₀ : Carries e l' i₀)
    (h₁ : Carries e l' i₁) (h₂ : Carries e l' i₂) (h₃ : Carries e l' i₃) :
    core (run step s [i₀, i₁, i₂, i₃]) = turn e (core s) l' ∧
      outs step seeSop s [i₀, i₁, i₂, i₃] = shown e (core s) ∧
      outs step (fun s _ => edge s) s [i₀, i₁, i₂, i₃] = List.replicate 4 (edge s) := by
  obtain ⟨hlog, hsample, -⟩ := bit_time h h₀ h₁ h₂ h₃
  simp only [log_cons, log_nil, List.append_nil, List.append_eq_nil_iff,
    Option.toList_eq_nil_iff] at hlog
  obtain ⟨hn₀, hn₁, hn₂⟩ := hlog
  have hc₁ := core_step_idle h₀.toListens (not_valid_of_sample hn₀)
  have hc₂ := core_step_idle h₁.toListens (not_valid_of_sample hn₁)
  have hc₃ := core_step_idle h₂.toListens (not_valid_of_sample hn₂)
  rw [← settled_core, hc₁, settled_settled] at hc₂
  rw [← settled_core, hc₂, settled_settled] at hc₃
  have hc₄ := core_step_sample h₃.toListens hsample
  have hstarts {t t' : State} (ht : core t = t') : starts t = starts t' := by
    rw [← ht]
    rfl
  have hedge {t : State} (ht : core t = settled e s) : edge t = edge s := by
    have hsame : edge (core t) = edge (settled e s) := by rw [ht]
    rw [settled_eq] at hsame
    exact hsame
  refine ⟨?_, ?_, ?_⟩
  · rw [turn, settled_core, ← hc₃]
    exact hc₄
  · simp only [outs_cons, outs_nil, seeSop_eq h₀.toListens, seeSop_eq h₁.toListens,
      seeSop_eq h₂.toListens, seeSop_eq h₃.toListens, hstarts hc₁, hstarts hc₂, hstarts hc₃, shown,
      settled_core]
    rfl
  · simp only [outs_cons, outs_nil, hedge hc₁, hedge hc₂, hedge hc₃]
    rfl

/-- The receiver over some symbols. -/
theorem BitTimes.turns (h : BitTimes e ls is) (hs : BitEnd l s) :
    core (run step s is) = run (turn e) (core s) ls ∧
      outs step seeSop s is =
        (outs (turn e) (fun c _ => shown e c) (core s) ls).flatten ∧
      ∃ l', BitEnd l' (run step s is) := by
  induction h generalizing s l with
  | nil => exact ⟨rfl, rfl, l, hs⟩
  | @cons l' ls i₀ i₁ i₂ i₃ is h₀ h₁ h₂ h₃ _ ih =>
      obtain ⟨hcore, hshown, -⟩ := turn_bit_time hs h₀ h₁ h₂ h₃
      obtain ⟨-, -, hend⟩ := bit_time hs h₀ h₁ h₂ h₃
      obtain ⟨hrun, houts, hlast⟩ := ih hend
      have hjoin : i₀ :: i₁ :: i₂ :: i₃ :: is = [i₀, i₁, i₂, i₃] ++ is := rfl
      rw [hjoin, run_append, outs_append, hrun, houts, hcore, hshown]
      exact ⟨rfl, rfl, hlast⟩

/-- No start pulse while these symbols come in. -/
def Silent (eop : Bool) : State → List Line → Prop
  | _, [] => True
  | c, l :: ls =>
      (starts c = false ∧ starts (settled eop c) = false) ∧ Silent eop (turn eop c l) ls

theorem silent_iff (c : State) (ls : List Line) : Silent e c ls ↔
    ∀ b ∈ (outs (turn e) (fun c _ => shown e c) c ls).flatten, b = false := by
  induction ls generalizing c with
  | nil => simp [Silent]
  | cons l ls ih =>
      rw [Silent, ih, outs_cons, List.flatten_cons, List.forall_mem_append, shown,
        List.forall_mem_cons]
      simp

theorem silent_append (c : State) (ls ls' : List Line) : Silent e c (ls ++ ls') ↔
    Silent e c ls ∧ Silent e (run (turn e) c ls) ls' := by
  induction ls generalizing c with
  | nil => simp [Silent]
  | cons l ls ih =>
      rw [List.cons_append, Silent, Silent, ih, run_cons]
      exact and_assoc.symm

/-! ### The registers after one more symbol -/

/-- The receiver in the cycle that takes a sample. -/
def asked (eop : Bool) (c : State) (l : Line) : State := present (settled eop c) (symbolCode l)

theorem asked_packetValid (c : State) (l : Line) : (asked e c l).packetValid = c.packetValid := by
  rw [asked, settled_eq]
  rfl

theorem asked_bitstuffHistory (c : State) (l : Line) :
    (asked e c l).bitstuffHistory = c.bitstuffHistory := by
  rw [asked, settled_eq]
  rfl

theorem asked_bitstuffError (c : State) (l : Line) :
    (asked e c l).bitstuffError = c.bitstuffError := by
  rw [asked, settled_eq]
  rfl

theorem settled_inPacket (c : State) : (settled e c).inPacket =
    (!seeEop c (listening e) && (edge c || c.inPacket)) := by
  rw [settled_eq]
  exact inPacketD_listening e c

theorem seeEop_asked (c : State) (l : Line) :
    seeEop (asked e c l) (listening e) = seeEop c (listening e) := by
  rw [asked, settled_eq]
  rfl

theorem turn_inPacket (c : State) (l : Line) : (turn e c l).inPacket =
    (!seeEop c (listening e) && (edge c || c.inPacket)) := by
  rw [← settled_inPacket, ← settled_settled, settled_eq]
  rfl

theorem turn_lineHistory (c : State) (l : Line) :
    (turn e c l).lineHistory = pushSample c.lineHistory (symbolCode l) := by
  have hhist := lineHistory_symbolStep e (settled e c) (symbolCode l)
  rw [symbolStep, settled_eq e (pushed e _ _), settled_eq e c] at hhist
  rw [turn, settled_eq]
  exact hhist

/-- The last two symbols after one more. -/
theorem turn_low {a b : BitVec 2} (h : c.lineHistory.extractLsb' 0 4 = a ++ b) (l : Line) :
    (turn e c l).lineHistory.extractLsb' 0 4 = b ++ symbolCode l := by
  rw [turn_lineHistory]
  exact history_push _ a b _ h

theorem turn_low_two (c : State) (l : Line) :
    (turn e c l).lineHistory.extractLsb' 0 2 = symbolCode l :=
  low_two (turn_low (low_split _) l)

theorem packetStart_asked (c : State) (l : Line) :
    packetStart (asked e c l) (listening e) =
      (!c.packetValid && c.lineHistory == syncHistory) := by
  have hv : lineStateValid (asked e c l) = true := rfl
  have hok : (listening e).diffRxOk = true := rfl
  rw [packetStart, packetValidD, hv, hok, seeEop_asked, asked, settled_eq]
  change ((if !true then false else if (!c.packetValid && c.lineHistory == syncHistory) = true
    then true else if (c.packetValid && seeEop c (listening e)) = true then false
    else c.packetValid) && !c.packetValid) = _
  cases c.packetValid <;> cases c.lineHistory == syncHistory <;> simp

theorem packetEnd_asked (c : State) (l : Line) :
    packetEnd (asked e c l) (listening e) =
      (c.packetValid && seeEop c (listening e)) := by
  have hv : lineStateValid (asked e c l) = true := rfl
  have hok : (listening e).diffRxOk = true := rfl
  rw [packetEnd, packetValidD, hv, hok, seeEop_asked, asked, settled_eq]
  change (!(if !true then false else if (!c.packetValid && c.lineHistory == syncHistory) = true
    then true else if (c.packetValid && seeEop c (listening e)) = true then false
    else c.packetValid) && c.packetValid) = _
  cases c.packetValid <;> cases seeEop c (listening e) <;> simp

/-! ### Between packets -/

/-- No packet is received. -/
structure Hunts (err inside : Bool) (c : State) : Prop where
  packetValid : c.packetValid = false
  inPacket : c.inPacket = inside
  bitstuffHistory : c.bitstuffHistory = 0
  bitstuffError : c.bitstuffError = err

variable {err inside : Bool}

/-- Between packets only the flag stands for an end of packet, besides the symbols. -/
theorem Hunts.seeEop_eq (h : Hunts err inside c)
    (hl : c.lineHistory.extractLsb' 0 2 = symbolCode (Line.ofLevel level)) :
    seeEop c (listening e) = err := by
  have hpre : seePreamble c = false := by simp [seePreamble, h.packetValid]
  cases err with
  | true => simp [seeEop, h.bitstuffError]
  | false =>
      by_contra hne
      obtain herr | hsee := early_of_level (by simpa using hne) hl
      · exact absurd (herr.symm.trans h.bitstuffError) (by decide)
      · exact absurd (hsee.symm.trans hpre) (by decide)

theorem Hunts.turn (h : Hunts err inside c) (hs : c.lineHistory ≠ syncHistory) (l : Line) :
    Hunts err (!seeEop c (listening e) && (edge c || inside)) (turn e c l) := by
  have hreset : (listening e).linkReset = false := rfl
  have hpv : (asked e c l).packetValid = false := by rw [asked_packetValid, h.packetValid]
  have hstart : packetStart (asked e c l) (listening e) = false := by
    rw [packetStart_asked, beq_eq_false_iff_ne.2 hs, Bool.and_false]
  have hvalid : (FsRx.turn e c l).packetValid = false := by
    change (step (asked e c l) (listening e)).packetValid = false
    rw [step_packetValid _ hreset]
    simpa [packetStart, hpv] using hstart
  have hsettled : Settled (asked e c l) := fun _ => by
    rw [asked_bitstuffHistory, h.bitstuffHistory]
  have hraw : dvalidRaw (asked e c l) = false := by rw [dvalidRaw, hpv]; rfl
  constructor
  case packetValid => exact hvalid
  case inPacket => rw [turn_inPacket, h.inPacket]
  case bitstuffHistory => exact hsettled.next hvalid
  case bitstuffError =>
    change (step (asked e c l) (listening e)).bitstuffError = err
    rw [step_bitstuffError, bitstuffErrorD, hstart, hraw, asked_bitstuffError, h.bitstuffError]
    simp

/-- A history completes SYNC only one symbol after a change from J to K. -/
theorem ne_sync_of_edge (h : edge c = false) (l : Line) :
    (FsRx.turn e c l).lineHistory ≠ syncHistory := by
  rw [turn_lineHistory]
  intro hsync
  have hcut := congrArg (fun x : BitVec 12 => x.extractLsb' 2 4) hsync
  have hlow : (pushSample c.lineHistory (symbolCode l)).extractLsb' 2 4 =
      c.lineHistory.extractLsb' 0 4 := by
    refine BitVec.eq_of_getLsbD_eq fun k hk => ?_
    simp only [pushSample, BitVec.getLsbD_extractLsb', BitVec.getLsbD_append, hk, decide_true,
      Bool.true_and, show ¬ 2 + k < 2 by omega, if_false, Nat.zero_add, Nat.add_sub_cancel_left,
      show k < 10 by omega]
  rw [hlow] at hcut
  rw [edge, hcut] at h
  exact absurd h (by decide)

/-! ### Within a packet -/

variable {ds : List Bool} {a b : BitVec 2}

theorem Receiving.asked (h : Receiving c ds) (l : Line) : Receiving (asked e c l) ds := by
  rw [FsRx.asked, settled_eq]
  obtain ⟨hpid, h5, h16, hlen16, hlen, htoken⟩ := h.holds
  exact ⟨h.packetValid, h.bitstuffHistory, h.bitstuffError, hpid, h5, h16, hlen16, hlen, htoken⟩

theorem Receiving.of_core (h : Receiving s ds) : Receiving (core s) ds := by
  obtain ⟨hpid, h5, h16, hlen16, hlen, htoken⟩ := h.holds
  exact ⟨h.packetValid, h.bitstuffHistory, h.bitstuffError, hpid, h5, h16, hlen16, hlen, htoken⟩

theorem decodedBit_asked (h : c.packetValid = true)
    (hl : c.lineHistory.extractLsb' 0 4 = a ++ b) (l : Line) :
    decodedBit (asked e c l) = pairBit a b := by
  have hhist : (asked e c l).lineHistory.extractLsb' 0 4 = a ++ b := by
    rw [asked, settled_eq]
    exact hl
  have hv : lineStateValid (asked e c l) = true := rfl
  rw [decodedBit_eq (by rw [asked_packetValid, h]) hhist, hv, if_pos rfl]

/-- A symbol after which the packet goes on. -/
theorem Receiving.turn (h : Receiving c ds) (he : seeEop c (listening e) = false)
    (hl : c.lineHistory.extractLsb' 0 4 = a ++ b) (l : Line) :
    Receiving (turn e c l) (ds ++ (pairBit a b).toList) := by
  have hend : packetEnd (FsRx.asked e c l) (listening e) = false := by
    rw [packetEnd_asked, he, Bool.and_false]
  have hnext := (h.asked l (e := e)).next rfl hend
  rw [decodedBit_asked h.packetValid hl] at hnext
  exact hnext.of_core

/-- The first symbol after SYNC. -/
theorem Hunts.packet (h : Hunts err inside c) (hs : c.lineHistory = syncHistory) (l : Line) :
    Receiving (FsRx.turn e c l) [] := by
  have hsettled : Settled (asked e c l) := fun _ => by
    rw [asked_bitstuffHistory, h.bitstuffHistory]
  have hstart : packetStart (asked e c l) (listening e) = true := by
    rw [packetStart_asked, h.packetValid, hs]
    rfl
  exact (Receiving.start hsettled rfl hstart).of_core

/-- The error flag after one more symbol, the end of a packet included. -/
theorem Receiving.bitstuffError_turn (h : Receiving c ds)
    (hl : c.lineHistory.extractLsb' 0 4 = a ++ b) (l : Line) :
    (FsRx.turn e c l).bitstuffError = violates 0 (ds ++ (pairBit a b).toList) := by
  have hasked := h.asked l (e := e)
  have hstart := packetStart_of_packetValid (i := listening e) hasked.packetValid
  have hseven : FsRx.bitstuffError (FsRx.asked e c l) = decide (7 ≤ onesEnd 0 ds) := by
    rw [FsRx.bitstuffError, seven_ones, hasked.bitstuffHistory]
    exact decide_eq_decide.2 (by omega)
  have hbit := decodedBit_asked (e := e) h.packetValid hl l
  change (step (FsRx.asked e c l) (listening e)).bitstuffError = _
  rw [step_bitstuffError, bitstuffErrorD, hstart, hseven, hasked.bitstuffError, ← hbit, decodedBit,
    violates_append]
  cases hd : dvalidRaw (FsRx.asked e c l) <;> cases hviol : violates 0 ds <;> simp [violates]

/-- The end of a packet. -/
theorem Receiving.ended (h : Receiving c ds) (he : seeEop c (listening e) = true) (l : Line) :
    Hunts (FsRx.turn e c l).bitstuffError false (FsRx.turn e c l) := by
  have hend : packetEnd (FsRx.asked e c l) (listening e) = true := by
    rw [packetEnd_asked, he, h.packetValid]
    rfl
  have hvalid : packetValidD (FsRx.asked e c l) (listening e) = false := by
    simp only [packetEnd, Bool.and_eq_true, Bool.not_eq_true'] at hend
    exact hend.1
  constructor
  case packetValid =>
    change (step (FsRx.asked e c l) (listening e)).packetValid = false
    rw [step_packetValid _ rfl, hvalid]
  case inPacket => rw [turn_inPacket, he, Bool.not_true, Bool.false_and]
  case bitstuffHistory =>
    change (step (FsRx.asked e c l) (listening e)).bitstuffHistory = 0
    rw [step_bitstuffHistory _ rfl, bitstuffHistoryD, hend, if_pos rfl]
  case bitstuffError => rfl

/-- The identifier is looked for in the bits as they were sent. -/
theorem prefix_unstuff_iff {ones : ℕ} {ps bs : List Bool} (h : FewOnes ones ps) :
    ps <+: unstuff ones bs ↔ ps <+: bs := by
  induction ps generalizing ones bs with
  | nil => simp
  | cons p ps ih =>
      cases bs with
      | nil => rfl
      | cons b bs =>
          have hlt : ¬ 6 ≤ ones := by
            have := h.lt
            omega
          rw [unstuff, if_neg hlt, List.cons_prefix_cons, List.cons_prefix_cons]
          refine and_congr_right fun hpb => ?_
          subst hpb
          exact ih h.2

theorem Receiving.endsEarly_iff (h : Receiving c ds) :
    c.bitstuffError = true ∨ seePreamble c = true ↔ EndsEarly ds := by
  have hpre : seePreamble c = true ↔ pidBits usbPidPre <+: ds := by
    rw [← prefix_unstuff_iff (fewOnes_pidBits usbPidPre)]
    simp only [seePreamble, h.packetValid, Bool.true_and, Bool.and_eq_true, beq_iff_eq]
    rw [h.holds.pidComplete_eq, decide_eq_true_eq]
    constructor
    · rintro ⟨⟨hvalid, hlen⟩, hpid⟩
      have hbits := (h.holds.pidValid_iff hlen usbPidPre).1 ⟨hvalid, hpid⟩
      rw [← hbits]
      exact List.take_prefix 8 _
    · intro hprefix
      have hlen := hprefix.length_le
      rw [length_pidBits] at hlen
      have hbits := List.prefix_iff_eq_take.1 hprefix
      rw [length_pidBits] at hbits
      obtain ⟨hvalid, hpid⟩ := (h.holds.pidValid_iff hlen usbPidPre).2 hbits.symm
      exact ⟨⟨hvalid, hlen⟩, hpid⟩
  rw [h.bitstuffError, hpre, EndsEarly, or_comm]

/-- While J or K is on the line only such bits end a packet. -/
theorem Receiving.seeEop_iff (h : Receiving c ds)
    (hl : c.lineHistory.extractLsb' 0 2 = symbolCode (Line.ofLevel level)) :
    seeEop c (listening e) = true ↔ EndsEarly ds := by
  rw [← h.endsEarly_iff]
  constructor
  · exact fun he => early_of_level he hl
  · rintro (herr | hpre)
    · simp [seeEop, herr]
    · simp [seeEop, hpre]

/-! ### After the end -/

/-- The receiver has given the packet up, or does so with the next symbol, and the flag is `err`
from then on. -/
inductive GivenUp (eop err : Bool) (c : State) : Prop
  | hunts (h : Hunts err false c) (hs : c.lineHistory ≠ syncHistory)
  | ending {ds : List Bool} (h : Receiving c ds) (hin : c.inPacket = true)
      (he : seeEop c (listening eop) = true) (herr : ∀ l, (turn eop c l).bitstuffError = err)

theorem edge_settled (c : State) : edge (settled e c) = edge c := by
  rw [settled_eq]
  rfl

theorem edge_turn (c : State) (l : Line) (h : l ≠ .k) : edge (turn e c l) = false := by
  have hlow := turn_low (e := e) (low_split c.lineHistory) l
  have hne : ∀ x : BitVec 2, x ++ symbolCode l ≠ 0b1001#4 := by
    cases l with
    | k => exact absurd rfl h
    | j => decide
    | se0 => decide
  rw [edge, hlow, beq_eq_false_iff_ne]
  exact hne _

theorem edge_of_j (h : c.lineHistory.extractLsb' 0 2 = symbolCode .j) : edge c = false := by
  have hlow := low_split c.lineHistory
  have hne : ∀ x : BitVec 2, x ++ symbolCode .j ≠ 0b1001#4 := by decide
  rw [h] at hlow
  rw [edge, hlow, beq_eq_false_iff_ne]
  exact hne _

/-- A packet given up makes a start pulse of every change from J to K. -/
theorem GivenUp.silent_iff (h : GivenUp e err c) :
    starts c = false ∧ starts (settled e c) = false ↔ edge c = false := by
  rw [starts, starts, edge_settled, settled_inPacket]
  cases h with
  | hunts h _ =>
      rw [h.inPacket]
      cases edge c <;> simp
  | ending _ hin he _ =>
      rw [hin, he]
      simp

theorem GivenUp.next (h : GivenUp e err c) (he : edge c = false) (l : Line) :
    Hunts err false (turn e c l) ∧ (turn e c l).lineHistory ≠ syncHistory := by
  refine ⟨?_, ne_sync_of_edge he l⟩
  cases h with
  | hunts h hs =>
      have hturn := h.turn (e := e) hs l
      rwa [he, Bool.false_or, Bool.and_false] at hturn
  | ending h _ heop herr =>
      have hended := h.ended heop l
      rwa [herr l] at hended

/-- SE0 and J start nothing. -/
theorem GivenUp.idle (h : GivenUp e err c) (he : edge c = false) {ls : List Line}
    (hls : ∀ l ∈ ls, l ≠ .k) :
    Silent e c ls ∧ GivenUp e err (run (turn e) c ls) ∧
      edge (run (turn e) c ls) = false := by
  induction ls generalizing c with
  | nil => exact ⟨trivial, h, he⟩
  | cons l ls ih =>
      obtain ⟨hhunts, hsync⟩ := h.next he l
      obtain ⟨hsilent, hrest⟩ := ih (.hunts hhunts hsync) (edge_turn c l (hls l (by simp)))
        fun m hm => hls m (by simp [hm])
      exact ⟨⟨h.silent_iff.2 he, hsilent⟩, hrest⟩

/-- The line is idle and the receiver waits for a packet. -/
structure Ready (err : Bool) (c : State) : Prop where
  hunts : Hunts err false c
  low : c.lineHistory.extractLsb' 0 2 = symbolCode .j

theorem Ready.ne_sync (h : Ready err c) : c.lineHistory ≠ syncHistory := by
  intro hsync
  have hlow := h.low
  rw [hsync] at hlow
  exact absurd hlow (by decide)

/-- An idle line. -/
theorem Ready.idle (h : Ready err c) (n : ℕ) :
    Silent e c (List.replicate n .j) ∧ Ready err (run (turn e) c (List.replicate n .j)) := by
  induction n generalizing c with
  | zero => exact ⟨trivial, h⟩
  | succ n ih =>
      have hup : GivenUp e err c := .hunts h.hunts h.ne_sync
      have hedge := edge_of_j h.low
      obtain ⟨hsilent, hready⟩ := ih ⟨(hup.next hedge .j).1, turn_low_two c .j⟩
      exact ⟨⟨hup.silent_iff.2 hedge, hsilent⟩, hready⟩

theorem GivenUp.ready (h : GivenUp e err c) (he : edge c = false) {ls : List Line}
    (hls : ∀ l ∈ ls, l ≠ .k) :
    Silent e c (ls ++ [.j]) ∧ Ready err (run (turn e) c (ls ++ [.j])) := by
  obtain ⟨hsilent, hup, hedge⟩ := h.idle he hls
  rw [silent_append, run_append]
  refine ⟨⟨hsilent, hup.silent_iff.2 hedge, trivial⟩, (hup.next hedge .j).1, ?_⟩
  exact low_two (turn_low (low_split _) .j)

/-! ### Changes after an early end -/

/-- The bits `bs` change the line from J to K after an early end, `ds` before them and `level` on
the line. -/
def LateFrom (ds : List Bool) (level : Bool) (bs : List Bool) : Prop :=
  ∃ as cs, bs = as ++ false :: cs ∧ as.foldl nrziStep level = true ∧ EndsEarly (ds ++ as)

theorem EndsEarly.append (h : EndsEarly ds) (bs : List Bool) : EndsEarly (ds ++ bs) := by
  obtain hpre | hviol := h
  · exact .inl (hpre.trans (List.prefix_append _ _))
  · refine .inr ?_
    rw [violates_append, hviol, Bool.true_or]

theorem not_lateFrom_nil : ¬ LateFrom ds level [] := by
  rintro ⟨as, cs, hsplit, -⟩
  simp at hsplit

theorem lateFrom_cons {b : Bool} {bs : List Bool} : LateFrom ds level (b :: bs) ↔
    (b = false ∧ level = true ∧ EndsEarly ds) ∨
      LateFrom (ds ++ [b]) (nrziStep level b) bs := by
  constructor
  · rintro ⟨as, cs, hsplit, hlevel, hearly⟩
    cases as with
    | nil =>
        obtain ⟨rfl, rfl⟩ := List.cons.inj hsplit
        rw [List.append_nil] at hearly
        exact .inl ⟨rfl, hlevel, hearly⟩
    | cons a as =>
        obtain ⟨rfl, rfl⟩ := List.cons.inj hsplit
        refine .inr ⟨as, cs, rfl, hlevel, ?_⟩
        rwa [List.append_assoc]
  · rintro (⟨rfl, hlevel, hearly⟩ | ⟨as, cs, rfl, hlevel, hearly⟩)
    · exact ⟨[], bs, rfl, hlevel, by rwa [List.append_nil]⟩
    · refine ⟨b :: as, cs, rfl, hlevel, ?_⟩
      rwa [List.append_assoc] at hearly

theorem edge_level (hl : c.lineHistory.extractLsb' 0 2 = symbolCode (Line.ofLevel level))
    (l : Bool) : edge (turn e c (Line.ofLevel l)) = (level && !l) := by
  have hlow := turn_low (e := e) (low_split c.lineHistory) (Line.ofLevel l)
  rw [hl] at hlow
  rw [edge, hlow]
  cases level <;> cases l <;> rfl

/-- A zero takes J to K. -/
theorem fall_iff (level b : Bool) :
    (level && !nrziStep level b) = false ↔ ¬ (b = false ∧ level = true) := by
  cases level <;> cases b <;> decide

theorem endLines_eq {n : ℕ} (hn : 1 ≤ n) :
    endLines n = ([.se0, .se0] ++ List.replicate (n - 1) .j) ++ [.j] := by
  obtain ⟨m, rfl⟩ : ∃ m, n = m + 1 := ⟨n - 1, by omega⟩
  rw [endLines, List.replicate_succ', Nat.add_sub_cancel, List.append_assoc]

/-- The rest of a packet that was given up. -/
theorem GivenUp.silent_bits (h : GivenUp e err c) (hearly : EndsEarly ds) {n : ℕ} (hn : 1 ≤ n)
    (hl : c.lineHistory.extractLsb' 0 2 = symbolCode (Line.ofLevel level)) (bs : List Bool) :
    (Silent e c ((nrzi level bs).map Line.ofLevel ++ endLines n) ↔
        edge c = false ∧ ¬ LateFrom ds level bs) ∧
      (edge c = false → ¬ LateFrom ds level bs →
        Ready err (run (turn e) c ((nrzi level bs).map Line.ofLevel ++ endLines n))) := by
  induction bs generalizing c ds level with
  | nil =>
      rw [nrzi_nil, List.map_nil, List.nil_append, endLines_eq hn]
      have hls : ∀ l ∈ [Line.se0, .se0] ++ List.replicate (n - 1) .j, l ≠ .k := by simp
      constructor
      · constructor
        · rintro ⟨hfirst, -⟩
          exact ⟨h.silent_iff.1 hfirst, not_lateFrom_nil⟩
        · exact fun ⟨he, _⟩ => (h.ready he hls).1
      · exact fun he _ => (h.ready he hls).2
  | cons b bs ih =>
      rw [nrzi_cons, List.map_cons, List.cons_append, Silent, h.silent_iff, run_cons,
        lateFrom_cons]
      have hedge := edge_level (e := e) hl (nrziStep level b)
      have hnone : edge (turn e c (Line.ofLevel (nrziStep level b))) = false ↔
          ¬ (b = false ∧ level = true ∧ EndsEarly ds) := by
        rw [hedge, fall_iff]
        simp only [hearly, and_true]
      have hnext (he : edge c = false) := ih
        (.hunts (h.next he (Line.ofLevel (nrziStep level b))).1
          (h.next he (Line.ofLevel (nrziStep level b))).2)
        (hearly.append [b]) (turn_low_two c (Line.ofLevel (nrziStep level b)))
      constructor
      · constructor
        · rintro ⟨he, hrest⟩
          obtain ⟨hquiet, hlate⟩ := (hnext he).1.1 hrest
          exact ⟨he, not_or.2 ⟨hnone.1 hquiet, hlate⟩⟩
        · rintro ⟨he, hlate⟩
          obtain ⟨hquiet, hlate⟩ := not_or.1 hlate
          exact ⟨he, (hnext he).1.2 ⟨hnone.2 hquiet, hlate⟩⟩
      · intro he hlate
        obtain ⟨hquiet, hlate⟩ := not_or.1 hlate
        exact (hnext he).2 (hnone.2 hquiet) hlate

/-- The end of packet on the line. -/
theorem Receiving.silent_end (h : Receiving c ds) (hin : c.inPacket = true)
    (hl : c.lineHistory.extractLsb' 0 4 = a ++ symbolCode .se0) {n : ℕ} (hn : 1 ≤ n) :
    Silent e c (.se0 :: List.replicate n .j) ∧
      Ready (violates 0 ds)
        (Clocked.run (FsRx.turn e) c (.se0 :: List.replicate n .j)) := by
  obtain ⟨m, rfl⟩ : ∃ m, n = m + 1 := ⟨n - 1, by omega⟩
  have hedge : edge c = false := by
    have hne : ∀ x : BitVec 2, x ++ symbolCode .se0 ≠ 0b1001#4 := by decide
    rw [edge, hl, beq_eq_false_iff_ne]
    exact hne a
  have hlow := turn_low (e := e) hl .se0
  have hfirst : starts c = false ∧ starts (settled e c) = false := by
    rw [starts, starts, edge_settled, hedge]
    exact ⟨rfl, rfl⟩
  have hnone : ∀ x, pairBit x (symbolCode .se0) = none := pairBit_se0
  have hup : GivenUp e (violates 0 ds) (FsRx.turn e c .se0) := by
    cases he : seeEop c (listening e) with
    | true =>
        have herr := h.bitstuffError_turn (e := e) hl .se0
        rw [hnone, Option.toList_none, List.append_nil] at herr
        refine .hunts (herr ▸ h.ended he .se0) ?_
        exact beq_eq_false_iff_ne.1 (not_sync_of_low hlow)
    | false =>
        have hnext := h.turn he hl .se0
        rw [hnone, Option.toList_none, List.append_nil] at hnext
        refine .ending hnext ?_ (seeEop_of_se0 hlow) fun l => ?_
        · rw [turn_inPacket, he, hin, Bool.or_true]
          rfl
        · have herr := hnext.bitstuffError_turn (e := e) hlow l
          rwa [hnone, Option.toList_none, List.append_nil] at herr
  have hready := hup.ready (edge_turn c .se0 (by decide))
    (show ∀ l ∈ List.replicate m Line.j, l ≠ .k by simp)
  rw [← List.replicate_succ'] at hready
  exact ⟨⟨hfirst, hready.1⟩, hready.2⟩

/-! ### A whole packet -/

theorem length_of_violates {ones : ℕ} {bs : List Bool} (h : violates ones bs = true) :
    8 ≤ ones + bs.length := by
  induction bs generalizing ones with
  | nil => exact absurd h (by simp [violates])
  | cons b bs ih =>
      rw [violates, Bool.or_eq_true, decide_eq_true_eq] at h
      rw [List.length_cons]
      obtain hones | hrest := h
      · omega
      · have hlen := ih hrest
        split_ifs at hlen <;> omega

/-- The bits on which a packet ends early tell whether the flag stays set. -/
theorem leavesError_iff {x : Bool} (hnot : ¬ EndsEarly ds) (bs : List Bool)
    (h : EndsEarly (ds ++ [x]) ∨ bs = []) :
    LeavesError (ds ++ [x] ++ bs) ↔ violates 0 (ds ++ [x]) = true := by
  have hpre (h : pidBits usbPidPre <+: ds ++ [x]) : ds ++ [x] = pidBits usbPidPre :=
    ((List.prefix_concat_iff.1 h).resolve_right fun hds => hnot (.inl hds)).symm
  constructor
  · rintro ⟨hviol, hne⟩
    obtain (hfull | hviol') | rfl := h
    · exact absurd (hfull.trans (List.prefix_append _ _)) hne
    · exact hviol'
    · rwa [List.append_nil] at hviol
  · intro hviol
    refine ⟨by rw [violates_append, hviol, Bool.true_or], fun hprefix => ?_⟩
    have hlen := length_of_violates hviol
    have hshort : pidBits usbPidPre <+: ds ++ [x] :=
      List.prefix_of_prefix_length_le hprefix (List.prefix_append _ _) (by
        rw [length_pidBits]
        omega)
    rw [hpre hshort] at hviol
    exact absurd hviol (by decide)

/-- One more bit after an early end does not set the flag. -/
theorem violates_of_early {x : Bool} (hnot : ¬ EndsEarly ds) (h : EndsEarly (ds ++ [x]))
    (y : Option Bool) : violates 0 (ds ++ [x] ++ y.toList) = violates 0 (ds ++ [x]) := by
  cases hviol : violates 0 (ds ++ [x]) with
  | true => rw [violates_append, hviol, Bool.true_or]
  | false =>
      obtain hpre | hviol' := h
      · obtain heq | hds := List.prefix_concat_iff.1 hpre
        · rw [← heq]
          obtain _ | _ | _ := y <;> decide
        · exact absurd (.inl hds) hnot
      · exact absurd (hviol'.symm.trans hviol) (by decide)

/-- A packet is received and has not ended early; the last two symbols are levels. -/
structure Takes (ds : List Bool) (a level : Bool) (c : State) : Prop where
  receiving : Receiving c ds
  inPacket : c.inPacket = true
  low : c.lineHistory.extractLsb' 0 4 =
    symbolCode (Line.ofLevel a) ++ symbolCode (Line.ofLevel level)
  notEarly : ¬ EndsEarly ds

variable {x : Bool}

theorem Takes.seeEop_eq (h : Takes ds x level c) : seeEop c (listening e) = false := by
  by_contra hne
  exact h.notEarly ((h.receiving.seeEop_iff (low_two h.low)).1 (by simpa using hne))

theorem Takes.quiet (h : Takes ds x level c) :
    starts c = false ∧ starts (settled e c) = false := by
  rw [starts, starts, edge_settled, settled_inPacket, h.seeEop_eq, h.inPacket]
  simp

theorem Takes.turn (h : Takes ds x level c) (l : Line) :
    Receiving (FsRx.turn e c l) (ds ++ [x == level]) ∧
      (FsRx.turn e c l).inPacket = true ∧
      (FsRx.turn e c l).lineHistory.extractLsb' 0 4 =
        symbolCode (Line.ofLevel level) ++ symbolCode l := by
  refine ⟨?_, ?_, turn_low h.low l⟩
  · have hnext := h.receiving.turn (h.seeEop_eq (e := e)) h.low l
    rwa [pairBit_level] at hnext
  · rw [turn_inPacket, h.seeEop_eq, h.inPacket, Bool.or_true]
    rfl

/-- The symbols of a packet up to its end of packet. -/
theorem Takes.silent_bits (h : Takes ds x level c) {n : ℕ} (hn : 1 ≤ n) (bs : List Bool) :
    (Silent e c ((nrzi level bs).map Line.ofLevel ++ endLines n) ↔
        ¬ LateFrom (ds ++ [x == level]) level bs) ∧
      (¬ LateFrom (ds ++ [x == level]) level bs → ∃ err,
        Ready err (run (FsRx.turn e) c ((nrzi level bs).map Line.ofLevel ++ endLines n)) ∧
        (err = true ↔ LeavesError (ds ++ [x == level] ++ bs))) := by
  induction bs generalizing c ds x level with
  | nil =>
      obtain ⟨hrec, hin, hlow⟩ := h.turn (e := e) .se0
      obtain ⟨hsilent, hready⟩ := hrec.silent_end (e := e) hin hlow hn
      rw [nrzi_nil, List.map_nil, List.nil_append]
      refine ⟨⟨fun _ => not_lateFrom_nil, fun _ => ⟨h.quiet, hsilent⟩⟩, fun _ => ⟨_, hready, ?_⟩⟩
      exact (leavesError_iff h.notEarly [] (.inr rfl)).symm
  | cons b bs ih =>
      obtain ⟨hrec, hin, hlow⟩ := h.turn (e := e) (Line.ofLevel (nrziStep level b))
      rw [nrzi_cons, List.map_cons, List.cons_append, Silent, run_cons, lateFrom_cons]
      by_cases hearly : EndsEarly (ds ++ [x == level])
      · have hup : GivenUp e (violates 0 (ds ++ [x == level]))
            (FsRx.turn e c (Line.ofLevel (nrziStep level b))) := by
          refine .ending hrec hin ((hrec.seeEop_iff (low_two hlow)).2 hearly) fun l => ?_
          rw [hrec.bitstuffError_turn hlow, violates_of_early h.notEarly hearly]
        have hnone : edge (FsRx.turn e c (Line.ofLevel (nrziStep level b))) = false ↔
            ¬ (b = false ∧ level = true ∧ EndsEarly (ds ++ [x == level])) := by
          rw [edge_level (low_two h.low), fall_iff]
          simp only [hearly, and_true]
        obtain ⟨hsilent, hready⟩ :=
          hup.silent_bits (hearly.append [b]) hn (low_two hlow) bs
        rw [hsilent, hnone, not_or]
        refine ⟨⟨And.right, fun hlate => ⟨h.quiet, hlate⟩⟩, fun hlate => ?_⟩
        exact ⟨_, hready (hnone.2 hlate.1) hlate.2,
          (leavesError_iff h.notEarly (b :: bs) (.inl hearly)).symm⟩
      · have hnext : Takes (ds ++ [x == level]) level (nrziStep level b)
            (FsRx.turn e c (Line.ofLevel (nrziStep level b))) := ⟨hrec, hin, hlow, hearly⟩
        obtain ⟨hsilent, hready⟩ := ih hnext
        rw [beq_nrziStep] at hsilent hready
        have hsplit : ds ++ [x == level] ++ b :: bs = ds ++ [x == level] ++ [b] ++ bs := by simp
        have hlate : ¬ (b = false ∧ level = true ∧ EndsEarly (ds ++ [x == level])) :=
          fun hb => hearly hb.2.2
        rw [hsilent, or_iff_right hlate, hsplit]
        exact ⟨⟨And.right, fun hrest => ⟨h.quiet, hrest⟩⟩, hready⟩

/-- The bits of a packet, once SYNC has been seen. -/
theorem Hunts.silent_bits (h : Hunts false true c) (hs : c.lineHistory = syncHistory) {n : ℕ}
    (hn : 1 ≤ n) (bits : List Bool) :
    (Silent e c ((nrzi false bits).map Line.ofLevel ++ endLines n) ↔ ¬ LateEdge bits) ∧
      (¬ LateEdge bits → ∃ err,
        Ready err (run (FsRx.turn e) c ((nrzi false bits).map Line.ofLevel ++ endLines n)) ∧
        (err = true ↔ LeavesError bits)) := by
  have hlow : c.lineHistory.extractLsb' 0 4 = symbolCode .k ++ symbolCode .k := by
    rw [hs]
    decide
  have hedge : edge c = false := by
    rw [edge, hlow]
    decide
  have heop : seeEop c (listening e) = false := h.seeEop_eq
    (show _ = symbolCode (Line.ofLevel false) from low_two hlow)
  have hquiet : starts c = false ∧ starts (settled e c) = false := by
    rw [starts, starts, edge_settled, hedge]
    exact ⟨rfl, rfl⟩
  have hnext (l : Line) : Receiving (FsRx.turn e c l) [] ∧
      (FsRx.turn e c l).inPacket = true ∧
      (FsRx.turn e c l).lineHistory.extractLsb' 0 4 = symbolCode .k ++ symbolCode l := by
    refine ⟨h.packet hs l, ?_, turn_low hlow l⟩
    rw [turn_inPacket, heop, h.inPacket, Bool.or_true]
    rfl
  have hnot : ¬ EndsEarly [] := by
    rintro (hpre | hviol)
    · exact absurd hpre.length_le (by rw [length_pidBits]; decide)
    · exact absurd hviol (by decide)
  have hlate : LateEdge bits ↔ LateFrom [] false bits := Iff.rfl
  cases bits with
  | nil =>
      obtain ⟨hrec, hin, hlow'⟩ := hnext .se0
      obtain ⟨hsilent, hready⟩ := hrec.silent_end (e := e) hin hlow' hn
      refine ⟨⟨fun _ => mt hlate.1 not_lateFrom_nil, fun _ => ⟨hquiet, hsilent⟩⟩,
        fun _ => ⟨_, hready, ?_⟩⟩
      exact ⟨fun herr => absurd herr (by decide), fun herr => herr.1⟩
  | cons b bs =>
      obtain ⟨hrec, hin, hlow'⟩ := hnext (Line.ofLevel (nrziStep false b))
      have htakes : Takes [] false (nrziStep false b)
          (FsRx.turn e c (Line.ofLevel (nrziStep false b))) := ⟨hrec, hin, hlow', hnot⟩
      obtain ⟨hsilent, hready⟩ := htakes.silent_bits (e := e) hn bs
      rw [beq_nrziStep] at hsilent hready
      have hfirst : ¬ (b = false ∧ false = true ∧ EndsEarly []) := fun hb => hnot hb.2.2
      rw [nrzi_cons, List.map_cons, List.cons_append, Silent, run_cons, hlate, lateFrom_cons,
        or_iff_right hfirst, hsilent]
      exact ⟨⟨And.right, fun hrest => ⟨hquiet, hrest⟩⟩, hready⟩

/-- Symbols of SYNC after its first change from J to K. -/
theorem Hunts.sync (h : Hunts false true c)
    (hl : c.lineHistory.extractLsb' 0 4 = a ++ symbolCode (Line.ofLevel level)) (ls : List Bool)
    (hn : NoSync a (symbolCode (Line.ofLevel level)) (levelSamples ls)) :
    Silent e c (ls.map Line.ofLevel) ∧
      Hunts false true (run (FsRx.turn e) c (ls.map Line.ofLevel)) ∧
      (run (FsRx.turn e) c (ls.map Line.ofLevel)).lineHistory =
        (levelSamples ls).foldl pushSample c.lineHistory := by
  induction ls generalizing c a level with
  | nil => exact ⟨trivial, h, rfl⟩
  | cons l ls ih =>
      have hsync : c.lineHistory ≠ syncHistory := by
        intro hsync
        rw [hsync] at hl
        exact hn.1 (hl.symm.trans (by decide))
      have heop : seeEop c (listening e) = false := h.seeEop_eq (low_two hl)
      have hquiet : starts c = false ∧ starts (settled e c) = false := by
        rw [starts, starts, edge_settled, settled_inPacket, heop, h.inPacket]
        simp
      have hturn := h.turn (e := e) hsync (Line.ofLevel l)
      rw [heop, Bool.or_true] at hturn
      obtain ⟨hsilent, hhunts, hhist⟩ := ih hturn (turn_low hl _) hn.2
      rw [turn_lineHistory] at hhist
      exact ⟨⟨hquiet, hsilent⟩, hhunts, hhist⟩

/-- The symbols of a packet after the change from J to K that begins it. -/
def Sent.rest (p : Sent) : List Line :=
  [false, true, false, true, false, false].map Line.ofLevel ++
    ((nrzi false p.bits).map Line.ofLevel ++ endLines p.idle)

theorem Sent.lines_eq (p : Sent) : p.lines = .k :: .j :: p.rest := rfl

/-- A packet on an idle line: the first change from J to K is shown, for the whole bit time where
the flag is set. -/
theorem Ready.packet (h : Ready err c) (p : Sent) :
    shown e c = List.replicate 4 false ∧
      shown e (FsRx.turn e c .k) = true :: List.replicate 3 err ∧
      (err = false →
        (Silent e (FsRx.turn e (FsRx.turn e c .k) .j) p.rest ↔ ¬ LateEdge p.bits) ∧
          (¬ LateEdge p.bits → ∃ err, Ready err (run (FsRx.turn e) c p.lines) ∧
            (err = true ↔ LeavesError p.bits))) := by
  have hedge := edge_of_j h.low
  have hsync := h.ne_sync
  have hlow₁ := turn_low (e := e) (low_split c.lineHistory) .k
  rw [h.low] at hlow₁
  have hhunts₁ := h.hunts.turn (e := e) hsync .k
  rw [hedge, Bool.or_false, Bool.and_false] at hhunts₁
  have hedge₁ : edge (FsRx.turn e c .k) = true := by
    rw [edge, hlow₁]
    decide
  have heop₁ : seeEop (FsRx.turn e c .k) (listening e) = err :=
    hhunts₁.seeEop_eq (show _ = symbolCode (Line.ofLevel false) from low_two hlow₁)
  refine ⟨?_, ?_, ?_⟩
  · rw [shown, starts, starts, edge_settled, hedge]
    rfl
  · rw [shown, starts, starts, edge_settled, settled_inPacket, hedge₁, hhunts₁.inPacket, heop₁]
    simp
  · rintro rfl
    have hsync₁ : (FsRx.turn e c .k).lineHistory ≠ syncHistory := ne_sync_of_edge hedge .k
    have hhunts₂ := hhunts₁.turn (e := e) hsync₁ .j
    rw [hedge₁, heop₁] at hhunts₂
    have hlow₂ : (FsRx.turn e (FsRx.turn e c .k) .j).lineHistory.extractLsb' 0 4 =
        symbolCode .k ++ symbolCode (Line.ofLevel true) := turn_low hlow₁ .j
    obtain ⟨hsilent, hhunts, hhist⟩ := hhunts₂.sync (e := e) hlow₂
      [false, true, false, true, false, false] (by decide)
    have hfull := hhist.trans (foldl_pushSample_sync _)
    obtain ⟨hbits, hready⟩ := hhunts.silent_bits (e := e) hfull
      (le_trans (by decide) p.two_le_idle) p.bits
    rw [Sent.lines_eq, run_cons, run_cons, Sent.rest, silent_append, run_append]
    exact ⟨⟨fun hall => hbits.1 hall.2, fun hlate => ⟨hsilent, hbits.2 hlate⟩⟩, hready⟩

/-! ### A run -/

theorem replicate_append_true {m n : ℕ} {xs ys : List Bool}
    (h : List.replicate m false ++ true :: xs = List.replicate n false ++ true :: ys) :
    m = n ∧ xs = ys := by
  induction m generalizing n with
  | zero =>
      cases n with
      | zero => exact ⟨rfl, List.tail_eq_of_cons_eq h⟩
      | succ n => exact absurd (List.head_eq_of_cons_eq h) (by decide)
  | succ m ih =>
      cases n with
      | zero => exact absurd (List.head_eq_of_cons_eq h) (by decide)
      | succ n =>
          obtain ⟨hmn, hrest⟩ := ih (List.tail_eq_of_cons_eq h)
          exact ⟨congrArg (· + 1) hmn, hrest⟩

/-- One packet. -/
theorem BitTimes.startsOnce_iff {p : Sent} (h : BitTimes e p.lines is) (hs : BitEnd l s)
    (hr : Ready err (core s)) :
    (StartsOnce s is ↔ err = false ∧ ¬ LateEdge p.bits) ∧
      (StartsOnce s is → ∃ err, Ready err (core (run step s is)) ∧
        (err = true ↔ LeavesError p.bits)) := by
  obtain ⟨hcore, houts, -⟩ := h.turns hs
  obtain ⟨hfirst, hsecond, hpacket⟩ := hr.packet (e := e) p
  rw [Sent.lines_eq] at h houts
  rw [outs_cons, outs_cons, List.flatten_cons, List.flatten_cons, hfirst, hsecond,
    List.cons_append] at houts
  cases h with
  | @cons _ _ i₀ i₁ i₂ i₃ js h₀ h₁ h₂ h₃ hjs =>
  cases hjs with
  | @cons _ _ j₀ j₁ j₂ j₃ ks k₀ k₁ k₂ k₃ hks =>
  obtain ⟨hturn, -, hedges⟩ := turn_bit_time hs h₀ h₁ h₂ h₃
  have hquiet : edge s = false := edge_of_j hr.low
  have hchange : edge (run step s [i₀, i₁, i₂, i₃]) = true := by
    have hlow := turn_low (e := e) (low_split (core s).lineHistory) .k
    rw [hr.low, ← hturn] at hlow
    have hlow' : (run step s [i₀, i₁, i₂, i₃]).lineHistory.extractLsb' 0 4 =
      symbolCode .j ++ symbolCode .k := hlow
    rw [edge, hlow']
    decide
  have hiff : StartsOnce s (i₀ :: i₁ :: i₂ :: i₃ :: j₀ :: j₁ :: j₂ :: j₃ :: ks) ↔
      err = false ∧ ¬ LateEdge p.bits := by
    constructor
    · rintro ⟨pre, i, post, -, -, hshown⟩
      rw [houts] at hshown
      obtain ⟨-, hrest⟩ := replicate_append_true hshown
      have hall : ∀ b ∈ List.replicate 3 err ++ (outs (FsRx.turn e) (fun c _ => shown e c)
          (FsRx.turn e (FsRx.turn e (core s) .k) .j) p.rest).flatten, b = false := by
        intro b hb
        rw [hrest] at hb
        exact List.eq_of_mem_replicate hb
      rw [List.forall_mem_append, ← FsRx.silent_iff] at hall
      have herr : err = false := hall.1 err (by simp)
      exact ⟨herr, (hpacket herr).1.1 hall.2⟩
    · rintro ⟨herr, hlate⟩
      have hsilent := (FsRx.silent_iff _ _).1 ((hpacket herr).1.2 hlate)
      refine ⟨[i₀, i₁, i₂, i₃], j₀, j₁ :: j₂ :: j₃ :: ks, rfl, ?_, ?_⟩
      · rw [outs_append, hedges, hquiet, outs_cons, outs_nil, hchange]
        rfl
      · rw [houts, herr]
        have hlen := congrArg List.length houts
        simp only [outs_length, List.length_append, List.length_cons, List.length_replicate] at hlen
        refine congrArg (fun xs => List.replicate 4 false ++ true :: xs) ?_
        rw [List.eq_replicate_iff]
        refine ⟨?_, ?_⟩
        · simp only [List.length_append, List.length_replicate, List.length_cons]
          omega
        · rw [List.forall_mem_append]
          exact ⟨by simp, hsilent⟩
  refine ⟨hiff, fun hstarts => ?_⟩
  rw [hcore]
  obtain ⟨herr, hlate⟩ := hiff.1 hstarts
  exact (hpacket herr).2 hlate

/-- The first bit time of J after reset. -/
theorem reset_bit_time {i₀ i₁ i₂ i₃ : Input} (h₀ : Carries e .j i₀) (h₁ : Carries e .j i₁)
    (h₂ : Carries e .j i₂) (h₃ : Carries e .j i₃) :
    core (run step State.reset [i₀, i₁, i₂, i₃]) = turn e (turn e State.reset .se0) .j ∧
      outs step seeSop State.reset [i₀, i₁, i₂, i₃] = List.replicate 4 false ∧
      BitEnd .j (run step State.reset [i₀, i₁, i₂, i₃]) := by
  have hreset : OnSe0 0 State.reset := ⟨rfl, .inr rfl, rfl⟩
  obtain ⟨hrise, hlog⟩ := hreset.rise (by decide) h₀ h₁
  have hv₀ : lineStateValid State.reset = false := rfl
  have hn₀ : sample State.reset i₀ = none := by rw [sample, hv₀, if_neg (by decide)]
  have hs₁ : sample (step State.reset i₀) i₁ = some (symbolCode .se0) := by
    rw [log_cons, log_cons, log_nil, hn₀] at hlog
    cases hs : sample (step State.reset i₀) i₁ with
    | none =>
        rw [hs] at hlog
        exact absurd hlog (by decide)
    | some x =>
        rw [hs] at hlog
        exact congrArg some (List.head_eq_of_cons_eq hlog)
  have hn₂ : sample (step (step State.reset i₀) i₁) i₂ = none := by rw [hrise.sample_eq]; rfl
  have hs₃ : sample (step (step (step State.reset i₀) i₁) i₂) i₃ = some (symbolCode .j) :=
    (hrise.stay h₂).sample_eq i₃
  have hc₁ := core_step_idle h₀.toListens hv₀
  have hc₂ := core_step_sample h₁.toListens hs₁
  have hc₃ := core_step_idle h₂.toListens (not_valid_of_sample hn₂)
  have hc₄ := core_step_sample h₃.toListens hs₃
  rw [hc₁] at hc₂
  rw [← settled_core, hc₂] at hc₃
  rw [hc₃] at hc₄
  have hnone : ∀ e, starts State.reset = false ∧ starts (settled e State.reset) = false ∧
      starts (turn e State.reset .se0) = false ∧
      starts (settled e (turn e State.reset .se0)) = false := by decide +kernel
  have hstarts {t t' : State} (ht : core t = t') : starts t = starts t' := by
    rw [← ht]
    rfl
  obtain ⟨hz₀, hz₁, hz₂, hz₃⟩ := hnone e
  refine ⟨hc₄, ?_, .inl ((hrise.stay h₂).stay h₃)⟩
  simp only [outs_cons, outs_nil, seeSop_eq h₀.toListens, seeSop_eq h₁.toListens,
    seeSop_eq h₂.toListens, seeSop_eq h₃.toListens, hz₀, (hstarts hc₁).trans hz₁,
    (hstarts hc₂).trans hz₂, (hstarts hc₃).trans hz₃]
  rfl

/-- An idle line after reset. -/
theorem BitTimes.lead {n : ℕ} (h : BitTimes e (List.replicate n .j) is) (hn : 1 ≤ n) :
    (∀ b ∈ outs step seeSop State.reset is, b = false) ∧
      (∃ l, BitEnd l (run step State.reset is)) ∧
      Ready false (core (run step State.reset is)) := by
  obtain ⟨m, rfl⟩ : ∃ m, n = m + 1 := ⟨n - 1, by omega⟩
  rw [List.replicate_succ] at h
  cases h with
  | @cons _ _ i₀ i₁ i₂ i₃ is h₀ h₁ h₂ h₃ hrest =>
  obtain ⟨hcore, houts, hend⟩ := reset_bit_time h₀ h₁ h₂ h₃
  obtain ⟨hcore', houts', hend'⟩ := hrest.turns hend
  have hready : ∀ e, Ready false (turn e (turn e State.reset .se0) .j) := fun e =>
    { hunts :=
        { packetValid := by revert e; decide +kernel
          inPacket := by revert e; decide +kernel
          bitstuffHistory := by revert e; decide +kernel
          bitstuffError := by revert e; decide +kernel }
      low := by revert e; decide +kernel }
  have hfirst := hready e
  rw [← hcore] at hfirst
  obtain ⟨hsilent, hidle⟩ := hfirst.idle (e := e) m
  have hjoin : i₀ :: i₁ :: i₂ :: i₃ :: is = [i₀, i₁, i₂, i₃] ++ is := rfl
  rw [hjoin, run_append, outs_append, houts, List.forall_mem_append, houts', hcore']
  exact ⟨⟨by simp, (silent_iff _ _).1 hsilent⟩, hend', hidle⟩

/-- The packets after an idle line. -/
theorem eachStartsOnce_iff_of_ready {ps : List Sent} {cycles : List (List Input)}
    (h : List.Forall₂ (fun p is => BitTimes e (Sent.lines p) is) ps cycles) (hs : BitEnd l s)
    (hr : Ready err (core s)) :
    EachStartsOnce s cycles ↔ (err = true → ps = []) ∧ (∀ p ∈ ps, ¬ LateEdge p.bits) ∧
      ∀ p ∈ ps.dropLast, ¬ LeavesError p.bits := by
  induction h generalizing s l err with
  | nil => simp [EachStartsOnce]
  | @cons p is ps cycles hp hps ih =>
      obtain ⟨hone, hnext⟩ := hp.startsOnce_iff hs hr
      obtain ⟨-, -, l', hend⟩ := hp.turns hs
      have hdrop : (∀ q ∈ (p :: ps).dropLast, ¬ LeavesError q.bits) ↔
          (LeavesError p.bits → ps = []) ∧ ∀ q ∈ ps.dropLast, ¬ LeavesError q.bits := by
        cases ps with
        | nil => simp
        | cons q ps => simp
      have herr : (err = true → p :: ps = []) ↔ err = false := by simp
      rw [EachStartsOnce, herr, hdrop, List.forall_mem_cons]
      constructor
      · rintro ⟨hstarts, hrest⟩
        obtain ⟨err', hready, hleaves⟩ := hnext hstarts
        obtain ⟨hnone, hlate, hlast⟩ := (ih hend hready).1 hrest
        obtain ⟨hclear, hfirst⟩ := hone.1 hstarts
        exact ⟨hclear, ⟨hfirst, hlate⟩, fun hl => hnone (hleaves.2 hl), hlast⟩
      · rintro ⟨hclear, ⟨hfirst, hlate⟩, hnone, hlast⟩
        have hstarts := hone.2 ⟨hclear, hfirst⟩
        obtain ⟨err', hready, hleaves⟩ := hnext hstarts
        exact ⟨hstarts, (ih hend hready).2 ⟨fun h => hnone (hleaves.1 h), hlate, hlast⟩⟩

/-- What `pkt_start_o` is to show: nothing on the idle line, and each packet once. -/
def StartsEachPacket (idle : List Input) (cycles : List (List Input)) : Prop :=
  (∀ b ∈ outs step seeSop State.reset idle, b = false) ∧
    EachStartsOnce (run step State.reset idle) cycles

variable {n : ℕ} {ps : List Sent} {idle : List Input} {cycles : List (List Input)}

theorem BusCycles.startsEachPacket_iff (h : BusCycles e n ps idle cycles) :
    StartsEachPacket idle cycles ↔
      (∀ p ∈ ps, ¬ LateEdge p.bits) ∧ ∀ p ∈ ps.dropLast, ¬ LeavesError p.bits := by
  obtain ⟨hsilent, ⟨l, hend⟩, hready⟩ := h.idle.lead h.pos
  rw [StartsEachPacket, eachStartsOnce_iff_of_ready h.packets hend hready]
  exact ⟨fun hall => hall.2.2, fun hall => ⟨hsilent, fun herr => absurd herr (by decide), hall⟩⟩

/-- Where no packet leaves the error flag to the next one, each packet has one start pulse, with
its first change from J to K, unless the line changes from J to K again after the receiver has
ended the packet on a PRE identifier or a bit stuffing error. -/
theorem one_start_pulse (h : BusCycles e n ps idle cycles)
    (hflag : ∀ p ∈ ps.dropLast, ¬ LeavesError p.bits) :
    StartsEachPacket idle cycles ↔ ∀ p ∈ ps, ¬ LateEdge p.bits := by
  rw [h.startsEachPacket_iff, and_iff_left hflag]

theorem not_lateEdge {bits : List Bool} (h : ¬ EndsEarly bits) : ¬ LateEdge bits := by
  rintro ⟨as, bs, rfl, -, hearly⟩
  exact h (hearly.append _)

theorem carries_lineInput (l : Line) : Carries false l (lineInput l) := by
  cases l <;> exact ⟨⟨rfl, rfl, rfl, rfl⟩, rfl, fun _ => rfl⟩

theorem bitTimes_lineCycles (ls : List Line) : BitTimes false ls (lineCycles ls) := by
  induction ls with
  | nil => exact .nil
  | cons l ls ih =>
      have h := carries_lineInput l
      exact .cons h h h h ih

theorem busCycles_lineCycles (ps : List Sent) : BusCycles false 2 ps
    (lineCycles (List.replicate 2 .j)) (ps.map fun p => lineCycles p.lines) where
  pos := by decide
  idle := bitTimes_lineCycles _
  packets := by
    induction ps with
    | nil => exact .nil
    | cons p ps ih => exact .cons (bitTimes_lineCycles _) ih

/-- An OUT token, one with a bit too many, one cut off after its identifier, and an ACK. -/
def mixedPackets : List Sent :=
  [⟨outToken, 2, le_rfl⟩, ⟨outToken ++ [true], 2, le_rfl⟩,
    ⟨outToken.take 10, 3, by decide⟩, ⟨pidBits 0b0010#4, 2, le_rfl⟩]

theorem one_start_pulse_mixedPackets :
    StartsEachPacket (lineCycles (List.replicate 2 .j))
      (mixedPackets.map fun p => lineCycles p.lines) := by
  have hnone : ∀ p ∈ mixedPackets, ¬ EndsEarly p.bits := by
    simp only [EndsEarly]
    decide +kernel
  refine (one_start_pulse (busCycles_lineCycles mixedPackets) fun p hp hl => ?_).2 fun p hp =>
    not_lateEdge (hnone p hp)
  exact hnone p (List.dropLast_subset _ hp) (.inr hl.1)

/-- A PRE identifier and two zeros, which take the line to J and back to K. -/
def preZeros : Sent := ⟨pidBits usbPidPre ++ [false, false], 2, le_rfl⟩

theorem not_forall_startsEachPacket :
    ¬ ∀ e n ps idle cycles, BusCycles e n ps idle cycles → StartsEachPacket idle cycles := by
  intro hall
  have h := busCycles_lineCycles [preZeros]
  refine (h.startsEachPacket_iff.1 (hall _ _ _ _ _ h)).1 preZeros (by simp) ?_
  exact ⟨pidBits usbPidPre ++ [false], [], by decide, by decide, .inl (List.prefix_append _ _)⟩

end UsbDev.FsRx
