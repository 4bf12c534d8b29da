import Mathlib.Data.List.OfFn
import Mathlib.Tactic.Common
import Mathlib.Data.Nat.Notation
import Mathlib.Data.ZMod.Defs
import Mathlib.Tactic.SplitIfs

/-!
# The synchronous FIFO

`prim_fifo_sync` in its normal form (`Depth ≥ 2`, no pass-through), with the
pointer logic of `prim_fifo_sync_cnt`. A pointer is a position in the storage
with a wrap bit above it. The structure carries the ordering of the two pointers,
so the occupancy is never negative and never exceeds the depth. `toList` reads
the queue off the storage, oldest entry first; `step_toList` is the refinement:
a clock cycle removes at most the head and appends at most one entry.
-/
namespace UsbDev.SyncFifo

/-- A wrap pointer: the extra leading bit and the pointer in `[0, Depth-1]`. -/
structure WrapPtr (d : ℕ) where
  msb : Bool
  ptr : Fin d
  deriving DecidableEq, Repr

/-- Increment; at `Depth-1` the wrap bit is inverted and the pointer cleared. -/
def WrapPtr.incr {d : ℕ} [NeZero d] (p : WrapPtr d) : WrapPtr d :=
  if h : p.ptr.val + 1 < d then ⟨p.msb, ⟨p.ptr.val + 1, h⟩⟩ else ⟨!p.msb, 0⟩

/-- Registers of the FIFO. -/
@[ext] structure State (α : Type*) (d : ℕ) where
  wptr : WrapPtr d
  rptr : WrapPtr d
  storage : Fin d → α
  underRst : Bool
  ordered : if wptr.msb = rptr.msb then rptr.ptr ≤ wptr.ptr else wptr.ptr ≤ rptr.ptr
  rstEmpty : underRst = true → wptr = rptr

/-- One cycle's write and read ports. -/
structure Input (α : Type*) where
  clr : Bool
  wvalid : Bool
  wdata : α
  rready : Bool

namespace State

variable {α : Type*} {d : ℕ}

/-- Register values under `rst_ni`, with whatever the storage holds. -/
def reset [NeZero d] (storage : Fin d → α) : State α d where
  wptr := ⟨false, 0⟩
  rptr := ⟨false, 0⟩
  storage := storage
  underRst := true
  ordered := by simp
  rstEmpty := by simp

def full (f : State α d) : Bool := f.wptr.msb != f.rptr.msb && f.wptr.ptr == f.rptr.ptr

def empty (f : State α d) : Bool := f.wptr.msb == f.rptr.msb && f.wptr.ptr == f.rptr.ptr

def wready (f : State α d) : Bool := !f.full && !f.underRst

def rvalid (f : State α d) : Bool := !f.empty

/-- `depth_o`. -/
def depth (f : State α d) : ℕ :=
  if f.full then d
  else if f.wptr.msb == f.rptr.msb then f.wptr.ptr.val - f.rptr.ptr.val
  else d - f.rptr.ptr.val + f.wptr.ptr.val

/-- `storage_rdata`: the entry under the read pointer. -/
def rdata (f : State α d) : α := f.storage f.rptr.ptr

def incrWptr (f : State α d) (i : Input α) : Bool := i.wvalid && f.wready

def incrRptr (f : State α d) (i : Input α) : Bool := f.rvalid && i.rready && !f.underRst

/-- The entry that leaves in this cycle. -/
def popped (f : State α d) (i : Input α) : Option α := if f.incrRptr i then some f.rdata else none

/-- The entry that is stored in this cycle. -/
def accepted (f : State α d) (i : Input α) : Option α := if f.incrWptr i then some i.wdata else none

/-- The storage position `k` entries above the read pointer. -/
def slot (f : State α d) (k : ℕ) : ℕ :=
  if f.rptr.ptr.val + k < d then f.rptr.ptr.val + k else f.rptr.ptr.val + k - d

/-- Number of entries, without the special case of a full FIFO. -/
def count (f : State α d) : ℕ :=
  if f.wptr.msb = f.rptr.msb then f.wptr.ptr.val - f.rptr.ptr.val
  else d - f.rptr.ptr.val + f.wptr.ptr.val

theorem count_le (f : State α d) : f.count ≤ d := by
  have ho := f.ordered
  have hw := f.wptr.ptr.isLt
  have hr := f.rptr.ptr.isLt
  unfold count
  split_ifs at ho ⊢ with h
  · omega
  · have : f.wptr.ptr.val ≤ f.rptr.ptr.val := ho
    omega

theorem slot_lt (f : State α d) {k : ℕ} (hk : k < f.count) : f.slot k < d := by
  have hr := f.rptr.ptr.isLt
  have hc := f.count_le
  unfold slot
  split_ifs <;> omega

/-- The queue held by the FIFO, oldest entry first. -/
def toList (f : State α d) : List α :=
  List.ofFn fun k : Fin f.count => f.storage ⟨f.slot k.val, f.slot_lt k.isLt⟩

@[simp] theorem length_toList (f : State α d) : f.toList.length = f.count := by simp [toList]

theorem full_iff (f : State α d) : f.full = true ↔ f.count = d := by
  have hr := f.rptr.ptr.isLt
  have hw := f.wptr.ptr.isLt
  have ho := f.ordered
  unfold full count
  by_cases h : f.wptr.msb = f.rptr.msb
  · simp only [h, bne_self_eq_false, Bool.false_and, if_true]
    constructor
    · simp
    · omega
  · simp only [h, if_false] at ho ⊢
    have ho' : f.wptr.ptr.val ≤ f.rptr.ptr.val := ho
    simp only [bne_iff_ne, ne_eq, h, not_false_eq_true, Bool.and_eq_true, true_and, beq_iff_eq,
      Fin.ext_iff]
    omega

theorem empty_iff (f : State α d) : f.empty = true ↔ f.count = 0 := by
  have hr := f.rptr.ptr.isLt
  have ho := f.ordered
  unfold empty count
  by_cases h : f.wptr.msb = f.rptr.msb
  · simp only [h, if_true] at ho ⊢
    have ho' : f.rptr.ptr.val ≤ f.wptr.ptr.val := ho
    simp only [beq_self_eq_true, Bool.true_and, beq_iff_eq, Fin.ext_iff]
    omega
  · simp only [h, if_false, Bool.and_eq_true, beq_iff_eq, false_and, false_iff]
    omega

theorem rvalid_iff (f : State α d) : f.rvalid = true ↔ f.toList ≠ [] := by
  rw [← List.length_pos_iff, length_toList, Nat.pos_iff_ne_zero, ne_eq, ← empty_iff]
  simp [rvalid]

/-- `depth_o` is the length of the queue. -/
theorem depth_eq_length (f : State α d) : f.depth = f.toList.length := by
  rw [length_toList]
  unfold depth
  by_cases hf : f.full = true
  · simp [hf, f.full_iff.mp hf]
  · simp [hf, count]

theorem not_underRst_of_rvalid (f : State α d) (h : f.rvalid = true) : f.underRst = false := by
  by_contra hu
  have he := f.rstEmpty (by simpa using hu)
  simp [rvalid, empty, he] at h

/-- `rdata_o` is the head of a queue that is not empty. -/
theorem toList_eq_cons (f : State α d) (h : f.rvalid = true) :
    f.toList = f.rdata :: f.toList.tail := by
  have hpos : 0 < f.count := by
    rw [← f.length_toList]
    exact List.length_pos_iff.mpr (f.rvalid_iff.mp h)
  have hne : f.toList ≠ [] := f.rvalid_iff.mp h
  have hhead : f.toList.head hne = f.rdata := by
    rw [List.head_eq_getElem]
    simp [toList, rdata, slot]
  rw [← hhead, List.cons_head_tail]

theorem rdata_of_head (f : State α d) {x : α} (h : f.toList.head? = some x) : f.rdata = x := by
  have hne : f.toList ≠ [] := by
    rintro he
    simp [he] at h
  rw [f.toList_eq_cons (f.rvalid_iff.mpr hne)] at h
  simpa using h

/-- A FIFO that is not empty gives its head to a reader. -/
theorem popped_of_head (f : State α d) (i : Input α) {x : α} (hr : i.rready = true)
    (h : f.toList.head? = some x) : f.popped i = some x := by
  have hv : f.rvalid = true := by
    rw [f.rvalid_iff]
    rintro he
    simp [he] at h
  simp [popped, incrRptr, hv, f.not_underRst_of_rvalid hv, hr, f.rdata_of_head h]

theorem popped_eq_none (f : State α d) (i : Input α) (hr : i.rready = false) :
    f.popped i = none := by simp [popped, incrRptr, hr]

end State

theorem WrapPtr.incr_cases {d : ℕ} [NeZero d] (p : WrapPtr d) :
    (p.ptr.val + 1 < d ∧ p.incr.msb = p.msb ∧ p.incr.ptr.val = p.ptr.val + 1) ∨
      (p.ptr.val + 1 = d ∧ p.incr.msb = !p.msb ∧ p.incr.ptr.val = 0) := by
  have hp := p.ptr.isLt
  unfold incr
  split_ifs with h
  · exact .inl ⟨h, rfl, rfl⟩
  · exact .inr ⟨by omega, rfl, rfl⟩

section step

variable {α : Type*} {d : ℕ}

theorem ordered_incr_wptr [NeZero d] (w r : WrapPtr d)
    (ho : if w.msb = r.msb then r.ptr ≤ w.ptr else w.ptr ≤ r.ptr)
    (hf : ¬(w.msb ≠ r.msb ∧ w.ptr = r.ptr)) :
    if w.incr.msb = r.msb then r.ptr ≤ w.incr.ptr else w.incr.ptr ≤ r.ptr := by
  have hr := r.ptr.isLt
  rw [Fin.ext_iff] at hf
  simp only [Fin.le_def] at ho ⊢
  obtain ⟨_, hm, hp⟩ | ⟨_, hm, hp⟩ := w.incr_cases <;> simp only [hm, hp] <;>
    cases hw : w.msb <;> cases hrm : r.msb <;> simp_all <;> omega

theorem ordered_incr_rptr [NeZero d] (w r : WrapPtr d)
    (ho : if w.msb = r.msb then r.ptr ≤ w.ptr else w.ptr ≤ r.ptr)
    (he : ¬(w.msb = r.msb ∧ w.ptr = r.ptr)) :
    if w.msb = r.incr.msb then r.incr.ptr ≤ w.ptr else w.ptr ≤ r.incr.ptr := by
  have hw := w.ptr.isLt
  rw [Fin.ext_iff] at he
  simp only [Fin.le_def] at ho ⊢
  obtain ⟨_, hm, hp⟩ | ⟨_, hm, hp⟩ := r.incr_cases <;> simp only [hm, hp] <;>
    cases hwm : w.msb <;> cases hrm : r.msb <;> simp_all <;> omega

/-- Releasing an entry never makes the storage look full. -/
theorem not_full_incr_rptr [NeZero d] (w r : WrapPtr d)
    (ho : if w.msb = r.msb then r.ptr ≤ w.ptr else w.ptr ≤ r.ptr)
    (he : ¬(w.msb = r.msb ∧ w.ptr = r.ptr)) :
    ¬(w.msb ≠ r.incr.msb ∧ w.ptr = r.incr.ptr) := by
  rw [Fin.ext_iff] at he ⊢
  simp only [Fin.le_def] at ho
  obtain ⟨_, hm, hp⟩ | ⟨_, hm, hp⟩ := r.incr_cases <;> simp only [hm, hp] <;>
    cases hwm : w.msb <;> cases hrm : r.msb <;> simp_all <;> omega

namespace State

theorem not_full_of_incrWptr (f : State α d) (i : Input α) (h : f.incrWptr i = true) :
    ¬(f.wptr.msb ≠ f.rptr.msb ∧ f.wptr.ptr = f.rptr.ptr) := by
  rintro ⟨hm, hp⟩
  simp [incrWptr, wready, full, hm, hp] at h

theorem not_empty_of_incrRptr (f : State α d) (i : Input α) (h : f.incrRptr i = true) :
    ¬(f.wptr.msb = f.rptr.msb ∧ f.wptr.ptr = f.rptr.ptr) := by
  rintro ⟨hm, hp⟩
  simp [incrRptr, rvalid, empty, hm, hp] at h

theorem getElem?_toList (f : State α d) (k : ℕ) :
    f.toList[k]? = if h : k < f.count then some (f.storage ⟨f.slot k, f.slot_lt h⟩) else none := by
  split_ifs with h
  · rw [List.getElem?_eq_getElem (by simpa using h)]
    simp [toList]
  · simpa using h

theorem slot_count (f : State α d) (h : f.count < d) : f.slot f.count = f.wptr.ptr.val := by
  have hw := f.wptr.ptr.isLt
  have hr := f.rptr.ptr.isLt
  have ho := f.ordered
  simp only [Fin.le_def] at ho
  unfold slot count at *
  split_ifs at * <;> omega

theorem slot_injective (f : State α d) {j k : ℕ} (hj : j < d) (hk : k < d)
    (h : f.slot j = f.slot k) : j = k := by
  have hr := f.rptr.ptr.isLt
  unfold slot at h
  split_ifs at h <;> omega

variable [NeZero d]

/-- The write half of a clock cycle: one entry is stored above the newest one. -/
def push (f : State α d) (x : α) (h : ¬(f.wptr.msb ≠ f.rptr.msb ∧ f.wptr.ptr = f.rptr.ptr)) :
    State α d where
  wptr := f.wptr.incr
  rptr := f.rptr
  storage := Function.update f.storage f.wptr.ptr x
  underRst := false
  ordered := ordered_incr_wptr _ _ f.ordered h
  rstEmpty := by simp

/-- The read half of a clock cycle: the oldest entry is released. -/
def pop (f : State α d) (h : ¬(f.wptr.msb = f.rptr.msb ∧ f.wptr.ptr = f.rptr.ptr)) :
    State α d where
  wptr := f.wptr
  rptr := f.rptr.incr
  storage := f.storage
  underRst := false
  ordered := ordered_incr_rptr _ _ f.ordered h
  rstEmpty := by simp

theorem count_push (f : State α d) (x : α)
    (h : ¬(f.wptr.msb ≠ f.rptr.msb ∧ f.wptr.ptr = f.rptr.ptr)) :
    (f.push x h).count = f.count + 1 := by
  have hw := f.wptr.ptr.isLt
  have hr := f.rptr.ptr.isLt
  have ho := f.ordered
  rw [Fin.ext_iff] at h
  simp only [Fin.le_def] at ho
  simp only [count, push]
  obtain ⟨_, hm, hp⟩ | ⟨_, hm, hp⟩ := f.wptr.incr_cases <;> simp only [hm, hp] <;>
    cases hwm : f.wptr.msb <;> cases hrm : f.rptr.msb <;> simp_all <;> omega

/-- Storing an entry appends it to the queue. -/
theorem toList_push (f : State α d) (x : α)
    (h : ¬(f.wptr.msb ≠ f.rptr.msb ∧ f.wptr.ptr = f.rptr.ptr)) :
    (f.push x h).toList = f.toList ++ [x] := by
  have hcount := f.count_push x h
  have hcd : (f.push x h).count ≤ d := count_le _
  have hslot : ∀ k, (f.push x h).slot k = f.slot k := fun _ => rfl
  apply List.ext_getElem?
  intro k
  rw [getElem?_toList]
  by_cases hk : k < f.count
  · have hne : f.slot k ≠ f.wptr.ptr.val := by
      rw [← f.slot_count (by omega)]
      intro he
      have := f.slot_injective (by omega) (by omega) he
      omega
    have hne' : (⟨f.slot k, f.slot_lt hk⟩ : Fin d) ≠ f.wptr.ptr := fun he =>
      hne (congrArg Fin.val he)
    rw [dif_pos (by omega), List.getElem?_append_left (by simpa using hk), getElem?_toList,
      dif_pos hk]
    exact congrArg some (Function.update_of_ne hne' _ _)
  · rw [List.getElem?_append_right (by simpa using hk), length_toList]
    by_cases he : k = f.count
    · subst he
      rw [dif_pos (by omega)]
      have hs : (⟨(f.push x h).slot f.count, (f.push x h).slot_lt (by omega)⟩ : Fin d) =
          f.wptr.ptr := Fin.ext (f.slot_count (by omega))
      rw [hs]
      simp [push]
    · rw [dif_neg (by omega), List.getElem?_eq_none (by simp; omega)]

/-- Releasing an entry drops the head of the queue. -/
theorem toList_pop (f : State α d)
    (h : ¬(f.wptr.msb = f.rptr.msb ∧ f.wptr.ptr = f.rptr.ptr)) :
    (f.pop h).toList = f.toList.tail := by
  have hw := f.wptr.ptr.isLt
  have hr := f.rptr.ptr.isLt
  have ho := f.ordered
  have he := h
  rw [Fin.ext_iff] at he
  simp only [Fin.le_def] at ho
  have hc : (f.pop h).count + 1 = f.count := by
    simp only [count, pop]
    obtain ⟨_, hm, hp⟩ | ⟨_, hm, hp⟩ := f.rptr.incr_cases <;> simp only [hm, hp] <;>
      cases hwm : f.wptr.msb <;> cases hrm : f.rptr.msb <;> simp_all <;> omega
  have hcd := f.count_le
  have hslot : ∀ k, k < (f.pop h).count → (f.pop h).slot k = f.slot (k + 1) := by
    intro k hk
    simp only [slot, pop]
    obtain ⟨_, _, hp⟩ | ⟨_, _, hp⟩ := f.rptr.incr_cases <;> simp only [hp] <;>
      split_ifs <;> omega
  apply List.ext_getElem?
  intro k
  rw [getElem?_toList, List.getElem?_tail, getElem?_toList]
  by_cases hk : k < (f.pop h).count
  · rw [dif_pos hk, dif_pos (by omega)]
    simp only [hslot k hk]
    rfl
  · rw [dif_neg hk, dif_neg (by omega)]

/-- One clock cycle; `clr_i` wins over the pointer increments. -/
def step (f : State α d) (i : Input α) : State α d where
  wptr := if i.clr then ⟨false, 0⟩ else if f.incrWptr i then f.wptr.incr else f.wptr
  rptr := if i.clr then ⟨false, 0⟩ else if f.incrRptr i then f.rptr.incr else f.rptr
  storage := if f.incrWptr i then Function.update f.storage f.wptr.ptr i.wdata else f.storage
  underRst := false
  ordered := by
    have ho := f.ordered
    have hw := f.not_full_of_incrWptr i
    have hr := f.not_empty_of_incrRptr i
    cases hc : i.clr <;> cases hiw : f.incrWptr i <;> cases hir : f.incrRptr i <;>
      simp only [hiw, hir, if_true, if_false, Bool.false_eq_true] at *
    · exact ho
    · exact ordered_incr_rptr _ _ ho (hr trivial)
    · exact ordered_incr_wptr _ _ ho (hw trivial)
    · exact ordered_incr_wptr _ _ (ordered_incr_rptr _ _ ho (hr trivial))
        (not_full_incr_rptr _ _ ho (hr trivial))
    all_goals exact le_refl (0 : Fin d)
  rstEmpty := by simp

/-- Without a clear, a write or a read nothing changes. -/
theorem step_idle (f : State α d) {i : Input α} (hu : f.underRst = false) (hc : i.clr = false)
    (hw : i.wvalid = false) (hr : i.rready = false) : f.step i = f := by
  have hiw : f.incrWptr i = false := by rw [incrWptr, hw, Bool.false_and]
  have hir : f.incrRptr i = false := by rw [incrRptr, hr, Bool.and_false, Bool.false_and]
  ext1 <;> simp [step, hc, hiw, hir, hu]

/-- The write data matters only while it is written. -/
theorem step_congr (f : State α d) {i j : Input α} (hc : i.clr = j.clr)
    (hv : i.wvalid = j.wvalid) (hd : i.wvalid = true → i.wdata = j.wdata)
    (hr : i.rready = j.rready) : f.step i = f.step j := by
  have hiw : f.incrWptr i = f.incrWptr j := by simp [incrWptr, hv]
  have hir : f.incrRptr i = f.incrRptr j := by simp [incrRptr, hr]
  ext1
  · simp [step, hc, hiw]
  · simp [step, hc, hir]
  · simp only [step, hiw]
    split_ifs with h
    · have hw : i.wvalid = true := by
        rw [← hiw] at h
        simp only [incrWptr, Bool.and_eq_true] at h
        exact h.1
      rw [hd hw]
    · rfl
  · rfl

@[simp] theorem underRst_step (f : State α d) (i : Input α) : (f.step i).underRst = false := rfl

/-- Refinement: a cycle drops the head when it is read and appends what is written. -/
theorem toList_step (f : State α d) (i : Input α) (hc : i.clr = false) :
    (f.step i).toList =
      (if f.incrRptr i then f.toList.tail else f.toList) ++
        (if f.incrWptr i then [i.wdata] else []) := by
  have congr : ∀ g g' : State α d, g.wptr = g'.wptr → g.rptr = g'.rptr →
      g.storage = g'.storage → g.toList = g'.toList := by
    rintro ⟨w, r, st, u, o, e⟩ ⟨w', r', st', u', o', e'⟩ hw hr hs
    dsimp only at hw hr hs
    subst hw hr hs
    rfl
  cases hiw : f.incrWptr i <;> cases hir : f.incrRptr i <;>
    simp only [if_true, if_false, Bool.false_eq_true, List.append_nil]
  · exact congr _ _ (by simp [step, hc, hiw]) (by simp [step, hc, hir]) (by simp [step, hiw])
  · rw [← f.toList_pop (f.not_empty_of_incrRptr i hir)]
    exact congr _ _ (by simp [step, hc, hiw, pop]) (by simp [step, hc, hir, pop])
      (by simp [step, hiw, pop])
  · rw [← f.toList_push i.wdata (f.not_full_of_incrWptr i hiw)]
    exact congr _ _ (by simp [step, hc, hiw, push]) (by simp [step, hc, hir, push])
      (by simp [step, hiw, push])
  · have he := f.not_empty_of_incrRptr i hir
    rw [← f.toList_pop he, ← (f.pop he).toList_push i.wdata (not_full_incr_rptr _ _ f.ordered he)]
    exact congr _ _ (by simp [step, hc, hiw, push, pop]) (by simp [step, hc, hir, push, pop])
      (by simp [step, hiw, push, pop])

/-- Conservation: what leaves and what stays is what was there and what arrives. -/
theorem popped_append_toList_step (f : State α d) (i : Input α) (hc : i.clr = false) :
    (f.popped i).toList ++ (f.step i).toList = f.toList ++ (f.accepted i).toList := by
  have hw : (if f.incrWptr i then [i.wdata] else []) = (f.accepted i).toList := by
    unfold accepted
    split_ifs <;> rfl
  rw [f.toList_step i hc, hw, ← List.append_assoc]
  congr 1
  unfold popped
  split_ifs with hr
  · have hv : f.rvalid = true := by
      simp only [incrRptr, Bool.and_eq_true] at hr
      exact hr.1.1
    exact (f.toList_eq_cons hv).symm
  · rfl

theorem toList_step_clr (f : State α d) (i : Input α) (hc : i.clr = true) :
    (f.step i).toList = [] := by
  rw [← List.length_eq_zero_iff, length_toList]
  simp [count, step, hc]

theorem toList_reset (storage : Fin d → α) : (reset storage).toList = [] := by
  rw [← List.length_eq_zero_iff, length_toList]
  simp [count, reset]

end State

end step

end UsbDev.SyncFifo
