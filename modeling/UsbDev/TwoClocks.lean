import Mathlib.Tactic.Common
import UsbDev.Clocked

/-!
# Circuits with two clocks

A circuit between two clock domains sees at every instant an edge of one clock, of
the other, or of both, and nothing bounds how often one ticks between two edges of
the other. A change that travels through a row of flops of both domains is described
by how far it has come; a run settles once each clock has ticked often enough.
-/
namespace UsbDev.TwoClocks

open Clocked

/-- The clock edges of one instant, with what is sampled at each of them. -/
structure Instant (α β : Type*) where
  src : Option α
  dst : Option β
  deriving DecidableEq, Repr

variable {σ ι : Type*} {step : σ → ι → σ} {ok : σ → ι → Prop} {s : σ} {is js : List ι}

/-! ### Runs an environment may choose -/

/-- Every instant of a run is permitted in the state that it meets. -/
def Allowed (step : σ → ι → σ) (ok : σ → ι → Prop) : σ → List ι → Prop
  | _, [] => True
  | s, i :: is => ok s i ∧ Allowed step ok (step s i) is

instance decidableAllowed [∀ s i, Decidable (ok s i)] :
    (s : σ) → (is : List ι) → Decidable (Allowed step ok s is)
  | _, [] => isTrue trivial
  | s, i :: is => @instDecidableAnd _ _ (inferInstanceAs (Decidable (ok s i)))
      (decidableAllowed (step s i) is)

theorem allowed_append :
    Allowed step ok s (is ++ js) ↔ Allowed step ok s is ∧ Allowed step ok (run step s is) js := by
  induction is generalizing s with
  | nil => simp [Allowed]
  | cons i is ih => simp [Allowed, ih, and_assoc]

theorem allowed_concat (i : ι) :
    Allowed step ok s (is ++ [i]) ↔ Allowed step ok s is ∧ ok (run step s is) i := by
  simp [allowed_append, Allowed]

theorem Allowed.and {ok' : σ → ι → Prop} (h : Allowed step ok s is) (h' : Allowed step ok' s is) :
    Allowed step (fun s i => ok s i ∧ ok' s i) s is := by
  induction is generalizing s with
  | nil => trivial
  | cons i is ih => exact ⟨⟨h.1, h'.1⟩, ih h.2 h'.2⟩

theorem allowed_of_forall (step : σ → ι → σ) {p : ι → Prop} (s : σ) (h : ∀ i ∈ is, p i) :
    Allowed step (fun _ i => p i) s is := by
  induction is generalizing s with
  | nil => trivial
  | cons i is ih => exact ⟨h i (by simp), ih _ fun j hj => h j (by simp [hj])⟩

theorem allowed_of_outs {p : σ → ι → Bool} (h : true ∉ outs step p s is) :
    Allowed step (fun s i => p s i = false) s is := by
  induction is generalizing s with
  | nil => trivial
  | cons i is ih =>
      rw [outs_cons, List.mem_cons, not_or] at h
      exact ⟨by simpa using h.1, ih h.2⟩

theorem allowed_of_log {α : Type*} {f : σ → ι → Option α} (h : log step f s is = []) :
    Allowed step (fun s i => f s i = none) s is := by
  induction is generalizing s with
  | nil => trivial
  | cons i is ih =>
      rw [log_cons, List.append_eq_nil_iff, Option.toList_eq_nil_iff] at h
      exact ⟨h.1, ih h.2⟩

/-- What every permitted instant keeps holds along a permitted run. -/
theorem Allowed.invariant (inv : σ → Prop) (hs : ∀ s i, ok s i → inv s → inv (step s i))
    (h : Allowed step ok s is) (h0 : inv s) : inv (run step s is) := by
  induction is generalizing s with
  | nil => exact h0
  | cons i is ih => exact ih h.2 (hs s i h.1 h0)

/-- What goes in comes out or is held. -/
theorem Allowed.ledger {α : Type*} {f g : σ → ι → Option α} (inv : σ → Prop) (held : σ → List α)
    (hs : ∀ s i, ok s i → inv s → inv (step s i) ∧
      held s ++ (f s i).toList = (g s i).toList ++ held (step s i))
    (h : Allowed step ok s is) (h0 : inv s) :
    held s ++ log step f s is = log step g s is ++ held (run step s is) := by
  induction is generalizing s with
  | nil => simp
  | cons i is ih =>
      obtain ⟨hinv, hone⟩ := hs s i h.1 h0
      rw [log_cons, log_cons, run_cons, ← List.append_assoc, hone, List.append_assoc,
        ih h.2 hinv, List.append_assoc]

/-- A value that only what is recorded changes. -/
theorem Allowed.foldl {α β : Type*} {f : σ → ι → Option α} {g : β → α → β} (view : σ → β)
    (inv : σ → Prop) (hs : ∀ s i, ok s i → inv s → inv (step s i) ∧
      view (step s i) = (f s i).toList.foldl g (view s))
    (h : Allowed step ok s is) (h0 : inv s) :
    view (run step s is) = (log step f s is).foldl g (view s) := by
  induction is generalizing s with
  | nil => rfl
  | cons i is ih =>
      obtain ⟨hinv, hone⟩ := hs s i h.1 h0
      rw [run_cons, log_cons, List.foldl_append, ih h.2 hinv, hone]

/-! ### Progress -/

/-- The two clock domains. -/
inductive Side where
  | src
  | dst
  deriving DecidableEq, Repr

/-- Both clocks tick. -/
def Both (ticks : Side → ι → Prop) (seg : List ι) : Prop := ∀ side, ∃ i ∈ seg, ticks side i

instance {ticks : Side → ι → Prop} [∀ side i, Decidable (ticks side i)] (seg : List ι) :
    Decidable (Both ticks seg) :=
  decidable_of_iff ((∃ i ∈ seg, ticks .src i) ∧ ∃ i ∈ seg, ticks .dst i)
    ⟨fun ⟨hsrc, hdst⟩ side => by cases side; exacts [hsrc, hdst], fun h => ⟨h .src, h .dst⟩⟩

/-- A measure that falls when the clock ticks for which it waits; an instant that leaves it as it
was leaves it waiting for the same clock. -/
structure Settles (step : σ → ι → σ) (ok : σ → ι → Prop) (ticks : Side → ι → Prop) (inv : σ → Prop)
    (μ : σ → ℕ) (waits : σ → Side) : Prop where
  keeps : ∀ s i, ok s i → inv s → inv (step s i)
  stays : ∀ s i, ok s i → inv s → μ (step s i) < μ s ∨
    μ (step s i) = μ s ∧ waits (step s i) = waits s
  falls : ∀ s i, ok s i → inv s → μ s ≠ 0 → ticks (waits s) i → μ (step s i) < μ s

namespace Settles
variable {ticks : Side → ι → Prop} {inv : σ → Prop} {μ : σ → ℕ} {waits : σ → Side}

theorem step_le (h : Settles step ok ticks inv μ waits) {i : ι} (hi : ok s i) (hinv : inv s) :
    μ (step s i) ≤ μ s := by
  obtain hlt | ⟨heq, -⟩ := h.stays s i hi hinv
  · exact hlt.le
  · exact heq.le

theorem run_le (h : Settles step ok ticks inv μ waits) (ha : Allowed step ok s is) (hinv : inv s) :
    μ (run step s is) ≤ μ s := by
  induction is generalizing s with
  | nil => exact le_rfl
  | cons i is ih => exact (ih ha.2 (h.keeps s i ha.1 hinv)).trans (h.step_le ha.1 hinv)

/-- The measure falls when both clocks tick. -/
theorem run_lt (h : Settles step ok ticks inv μ waits) (ha : Allowed step ok s is) (hinv : inv s)
    (hne : μ s ≠ 0) (htick : ∃ i ∈ is, ticks (waits s) i) : μ (run step s is) < μ s := by
  induction is generalizing s with
  | nil => simp at htick
  | cons i is ih =>
      have hinv' := h.keeps s i ha.1 hinv
      have hrest := h.run_le ha.2 hinv'
      obtain ⟨j, hj, htj⟩ := htick
      obtain rfl | hmem := List.mem_cons.1 hj
      · exact hrest.trans_lt (h.falls s j ha.1 hinv hne htj)
      · obtain hlt | ⟨heq, hwaits⟩ := h.stays s i ha.1 hinv
        · exact hrest.trans_lt hlt
        · rw [← heq] at hne ⊢
          rw [← hwaits] at htj
          exact ih ha.2 hinv' hne ⟨j, hmem, htj⟩

/-- A position that an instant leaves or takes on by one, and that stays below `n`. -/
theorem of_position {pos : σ → ℕ} {n : ℕ} {side : ℕ → Side}
    (keeps : ∀ s i, ok s i → inv s → inv (step s i)) (below : ∀ s, inv s → pos s < n)
    (moves : ∀ s i, ok s i → inv s → pos (step s i) = pos s ∨ pos (step s i) = pos s + 1)
    (onTime : ∀ s i, ok s i → inv s → ticks (side (pos s)) i → pos (step s i) = pos s + 1) :
    Settles step ok ticks inv (fun s => n - pos s) (fun s => side (pos s)) where
  keeps := keeps
  stays := by
    intro s i hi hinv
    have hlt := below s hinv
    obtain hsame | hsucc := moves s i hi hinv
    · exact .inr ⟨by rw [hsame], by rw [hsame]⟩
    · left
      rw [hsucc]
      omega
  falls := by
    intro s i hi hinv _ ht
    have hlt := below s hinv
    rw [onTime s i hi hinv ht]
    omega

/-- As many rounds of both clocks as the measure says are enough. -/
theorem settled (h : Settles step ok ticks inv μ waits) {segs : List (List ι)}
    (ha : Allowed step ok s segs.flatten) (hinv : inv s)
    (hsegs : ∀ seg ∈ segs, Both ticks seg) (hlen : μ s ≤ segs.length) :
    μ (run step s segs.flatten) = 0 := by
  induction segs generalizing s with
  | nil => simpa using hlen
  | cons seg segs ih =>
      rw [List.flatten_cons, allowed_append] at ha
      rw [List.flatten_cons, run_append]
      have hinv' := ha.1.invariant inv h.keeps hinv
      refine ih ha.2 hinv' (fun t ht => hsegs t (by simp [ht])) ?_
      have hle := h.run_le ha.1 hinv
      rw [List.length_cons] at hlen
      by_cases hne : μ s = 0
      · omega
      · have hlt := h.run_lt ha.1 hinv hne (hsegs seg (by simp) _)
        omega

end Settles

/-! ### A change on its way through a row of flops -/

/-- The flops of a row after a tick: those of the mask take what the flop before them held. -/
def shift {α : Type*} : List Bool → α → List α → List α
  | m :: ms, a, b :: l => (if m then a else b) :: shift ms b l
  | _, _, l => l

/-- A row of flops behind a flop with value `a` that only the first `k` have heard of, and `n`
have not. -/
def cells (a : Bool) (k n : ℕ) : List Bool := List.replicate k a ++ List.replicate n (!a)

theorem cells_succ (a : Bool) (k n : ℕ) : cells a (k + 1) n = a :: cells a k n := rfl

theorem shift_replicate (m : List Bool) (a : Bool) (n : ℕ) :
    shift m a (List.replicate n a) = List.replicate n a := by
  induction n generalizing m with
  | zero => cases m <;> rfl
  | succ n ih =>
      cases m with
      | nil => rfl
      | cons b m => simp [List.replicate_succ, shift, ih]

/-- A new value of the first flop is one that no other has heard of. -/
theorem replicate_eq_cells (a : Bool) (n : ℕ) : List.replicate n a = cells (!a) 0 n := by
  simp [cells]

theorem cells_zero_right (a : Bool) (n : ℕ) : cells a n 0 = List.replicate n a := by simp [cells]

theorem count_cells (a : Bool) (k n : ℕ) : (cells a k n).count a = k := by
  rw [cells, List.count_append, List.count_replicate_self, List.count_replicate]
  cases a <;> rfl

theorem getD_cells (a : Bool) {k m j : ℕ} (hk : k ≤ m) (hj : j < m) :
    (cells a k (m - k)).getD j false = if j < k then a else !a := by
  have hlen : (List.replicate k a).length = k := List.length_replicate
  rw [cells, List.getD_eq_getElem?_getD, List.getElem?_append, hlen]
  split_ifs with hlt
  · simp [hlt]
  · have hrest : j - k < m - k := by omega
    simp [hrest]

/-- How far a change has come after a tick of the flops of the mask. -/
def advance (m : List Bool) (k : ℕ) : ℕ := if m.getD k false then k + 1 else k

theorem advance_le (m : List Bool) {k : ℕ} (hk : k ≤ m.length) : advance m k ≤ m.length := by
  rw [advance]
  split_ifs with hm
  · by_contra hlt
    rw [List.getD_eq_getElem?_getD, List.getElem?_eq_none (by omega)] at hm
    exact Bool.false_ne_true hm
  · exact hk

theorem advance_cases (m : List Bool) (k : ℕ) : advance m k = k ∨ advance m k = k + 1 := by
  rw [advance]
  split_ifs
  · exact .inr rfl
  · exact .inl rfl

/-- A tick carries the change on by one flop if the next flop is among those of the mask. -/
theorem shift_cells (m : List Bool) (a : Bool) {k : ℕ} (hk : k ≤ m.length) :
    shift m a (cells a k (m.length - k)) = cells a (advance m k) (m.length - advance m k) := by
  induction m generalizing k with
  | nil => rw [show k = 0 from Nat.le_zero.1 hk]; rfl
  | cons b m ih =>
      cases k with
      | zero => cases b <;> simp [cells, advance, List.replicate_succ, shift, shift_replicate]
      | succ k =>
          have hlen : (b :: m).length - (k + 1) = m.length - k := by
            rw [List.length_cons]
            omega
          have hnext : advance (b :: m) (k + 1) = advance m k + 1 := by
            rw [advance, advance, List.getD_cons_succ]
            split_ifs <;> rfl
          have hrest := ih (Nat.le_of_succ_le_succ hk)
          rw [hlen, cells_succ, shift, hrest, hnext, cells_succ, ite_self, List.length_cons,
            Nat.add_sub_add_right]

end UsbDev.TwoClocks
