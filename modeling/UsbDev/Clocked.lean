import Mathlib.Data.List.Basic
import Mathlib.Data.List.Range
import Mathlib.Data.Set.Defs

/-!
# Clocked machines

A clocked machine is a step function `σ → ι → σ` on its registers, one input per
clock cycle, together with outputs read from the registers and the inputs of the
same cycle. `run` consumes a finite list of cycles, `traj` an infinite input
sequence. Each induction over cycles is done here once: an invariant is proved
for one step and used along every run.
-/
namespace UsbDev.Clocked

variable {σ ι ο : Type*}

/-- The registers after the cycles `is`, in order. -/
def run (step : σ → ι → σ) (s : σ) : List ι → σ
  | [] => s
  | i :: is => run step (step s i) is

/-- What `out` shows in each of the cycles `is`. -/
def outs (step : σ → ι → σ) (out : σ → ι → ο) (s : σ) : List ι → List ο
  | [] => []
  | i :: is => out s i :: outs step out (step s i) is

/-- The registers in cycle `t` of an infinite run. -/
def traj (step : σ → ι → σ) (s : σ) (inp : ℕ → ι) : ℕ → σ
  | 0 => s
  | t + 1 => step (traj step s inp t) (inp t)

@[simp] theorem run_nil (step : σ → ι → σ) (s : σ) : run step s [] = s := rfl

@[simp] theorem run_cons (step : σ → ι → σ) (s : σ) (i : ι) (is : List ι) :
    run step s (i :: is) = run step (step s i) is := rfl

theorem run_append (step : σ → ι → σ) (s : σ) (is js : List ι) :
    run step s (is ++ js) = run step (run step s is) js := by
  induction is generalizing s with
  | nil => rfl
  | cons i is ih => exact ih _

@[simp] theorem outs_nil (step : σ → ι → σ) (out : σ → ι → ο) (s : σ) :
    outs step out s [] = [] := rfl

@[simp] theorem outs_cons (step : σ → ι → σ) (out : σ → ι → ο) (s : σ) (i : ι) (is : List ι) :
    outs step out s (i :: is) = out s i :: outs step out (step s i) is := rfl

theorem outs_length (step : σ → ι → σ) (out : σ → ι → ο) (s : σ) (is : List ι) :
    (outs step out s is).length = is.length := by
  induction is generalizing s with
  | nil => rfl
  | cons i is ih => simp [ih]

theorem outs_append (step : σ → ι → σ) (out : σ → ι → ο) (s : σ) (is js : List ι) :
    outs step out s (is ++ js) = outs step out s is ++ outs step out (run step s is) js := by
  induction is generalizing s with
  | nil => rfl
  | cons i is ih => simp [ih]

/-- What `f` records over the cycles `is`. -/
def log {α : Type*} (step : σ → ι → σ) (f : σ → ι → Option α) (s : σ) : List ι → List α
  | [] => []
  | i :: is => (f s i).toList ++ log step f (step s i) is

section log
variable {α : Type*} (step : σ → ι → σ) (f : σ → ι → Option α)

@[simp] theorem log_nil (s : σ) : log step f s [] = [] := rfl

@[simp] theorem log_cons (s : σ) (i : ι) (is : List ι) :
    log step f s (i :: is) = (f s i).toList ++ log step f (step s i) is := rfl

theorem log_append (s : σ) (is js : List ι) :
    log step f s (is ++ js) = log step f s is ++ log step f (run step s is) js := by
  induction is generalizing s with
  | nil => rfl
  | cons i is ih => simp [ih]

theorem log_map {β : Type*} (g : α → β) (s : σ) (is : List ι) :
    log step (fun s i => (f s i).map g) s is = (log step f s is).map g := by
  induction is generalizing s with
  | nil => rfl
  | cons i is ih =>
      rw [log_cons, log_cons, ih, List.map_append]
      cases f s i <;> rfl

/-- What is recorded after `xs` is recorded in some cycle, with `xs` before it. -/
theorem exists_log_split {s : σ} {is : List ι} {xs : List α} {y : α}
    (h : xs ++ [y] <+: log step f s is) :
    ∃ as i bs, is = as ++ i :: bs ∧ log step f s as = xs ∧ f (run step s as) i = some y := by
  induction is generalizing s xs with
  | nil => simp at h
  | cons i is ih =>
      rw [log_cons] at h
      cases hf : f s i with
      | none =>
          rw [hf, Option.toList_none, List.nil_append] at h
          obtain ⟨as, j, bs, rfl, hlog, hout⟩ := ih h
          exact ⟨i :: as, j, bs, rfl, by rw [log_cons, hf, hlog]; rfl, hout⟩
      | some z =>
          rw [hf, Option.toList_some, List.singleton_append] at h
          cases xs with
          | nil =>
              obtain ⟨rfl, -⟩ := List.cons_prefix_cons.1 h
              exact ⟨[], i, is, rfl, rfl, hf⟩
          | cons x xs =>
              obtain ⟨rfl, htail⟩ := List.cons_prefix_cons.1 h
              obtain ⟨as, j, bs, rfl, hlog, hout⟩ := ih htail
              exact ⟨i :: as, j, bs, rfl, by rw [log_cons, hf, hlog]; rfl, hout⟩

end log

/-- Nothing is recorded while `p` never holds. -/
theorem log_eq_nil {α : Type*} {step : σ → ι → σ} {f : σ → ι → Option α} {p : σ → ι → Bool}
    (hf : ∀ s i, p s i = false → f s i = none) {s : σ} {is : List ι}
    (h : ∀ e ∈ outs step p s is, e = false) : log step f s is = [] := by
  induction is generalizing s with
  | nil => rfl
  | cons i is ih =>
      simp only [outs_cons, List.mem_cons, forall_eq_or_imp] at h
      rw [log_cons, hf s i h.1, ih h.2]
      rfl

/-- The first cycle of a run in which `p` holds, if there is one. -/
theorem exists_first (step : σ → ι → σ) (p : σ → ι → Bool) (s : σ) (is : List ι) :
    (∀ e ∈ outs step p s is, e = false) ∨
      ∃ as i bs, is = as ++ i :: bs ∧ (∀ e ∈ outs step p s as, e = false) ∧
        p (run step s as) i = true := by
  induction is generalizing s with
  | nil => exact .inl (by simp)
  | cons i is ih =>
      cases hp : p s i with
      | true => exact .inr ⟨[], i, is, rfl, by simp, hp⟩
      | false =>
          obtain hnone | ⟨as, j, bs, rfl, hnone, hfound⟩ := ih (step s i)
          · exact .inl (by simpa [hp] using hnone)
          · exact .inr ⟨i :: as, j, bs, rfl, by simpa [hp] using hnone, hfound⟩

@[simp] theorem traj_zero (step : σ → ι → σ) (s : σ) (inp : ℕ → ι) :
    traj step s inp 0 = s := rfl

theorem traj_succ (step : σ → ι → σ) (s : σ) (inp : ℕ → ι) (t : ℕ) :
    traj step s inp (t + 1) = step (traj step s inp t) (inp t) := rfl

/-- An infinite run that begins with the cycles `is`. -/
theorem traj_getD (step : σ → ι → σ) (s : σ) (is : List ι) (d : ι) {t : ℕ} (ht : t ≤ is.length) :
    traj step s (fun u => is.getD u d) t = run step s (is.take t) := by
  induction t with
  | zero => rfl
  | succ t ih =>
      have hlt : t < is.length := by omega
      rw [traj_succ, ih (by omega), List.take_add_one, List.getElem?_eq_getElem hlt, run_append,
        List.getD_eq_getElem?_getD, List.getElem?_eq_getElem hlt]
      rfl

theorem outs_getD (step : σ → ι → σ) (out : σ → ι → ο) (s : σ) (is : List ι) (d : ι) (o : ο)
    {t : ℕ} (ht : t < is.length) :
    (outs step out s is).getD t o = out (run step s (is.take t)) (is.getD t d) := by
  induction is generalizing s t with
  | nil => simp at ht
  | cons i is ih =>
      cases t with
      | zero => rfl
      | succ t => simpa using ih (step s i) (by simpa using ht)

/-- What holds of the cycles `is` and of the cycle after them holds of every cycle. -/
theorem getD_of_forall (p : ι → Prop) {is : List ι} {d : ι} (h : ∀ i ∈ is, p i) (hd : p d)
    (t : ℕ) : p (is.getD t d) := by
  rw [List.getD_eq_getElem?_getD]
  cases hget : is[t]? with
  | none => exact hd
  | some i => exact h i (List.mem_of_getElem? hget)

/-- The outputs of a finite run from cycle `m` on, in an infinite run that begins with it. -/
theorem out_traj_of_drop {step : σ → ι → σ} {out : σ → ι → ο} {s : σ} {is : List ι} {f : ℕ → ο}
    {m n : ℕ} (h : (outs step out s is).drop m = (List.range n).map f) (js : List ι) (d : ι) {t : ℕ}
    (ht : t < n) :
    out (traj step s (fun u => (is ++ js).getD u d) (m + t)) ((is ++ js).getD (m + t) d) = f t := by
  have hlen : is.length - m = n := by
    have hlen := congrArg List.length h
    rwa [List.length_drop, outs_length, List.length_map, List.length_range] at hlen
  have hlt : m + t < (is ++ js).length := by
    rw [List.length_append]
    omega
  have hget := outs_getD step out s (is ++ js) d (f t) hlt
  have hdrop : (outs step out s (is ++ js))[m + t]? = (outs step out s is)[m + t]? := by
    rw [outs_append, List.getElem?_append_left]
    rw [outs_length]
    omega
  rw [List.getD_eq_getElem?_getD, hdrop, ← List.getElem?_drop, h] at hget
  rw [traj_getD step s (is ++ js) d hlt.le, ← hget]
  simp [ht]

theorem out_traj_of_outs {step : σ → ι → σ} {out : σ → ι → ο} {s : σ} {is : List ι} {f : ℕ → ο}
    {n : ℕ} (h : outs step out s is = (List.range n).map f) (d : ι) {t : ℕ} (ht : t < n) :
    out (traj step s (fun u => is.getD u d) t) (is.getD t d) = f t := by
  have hout := out_traj_of_drop (m := 0) h [] d ht
  rwa [List.append_nil, Nat.zero_add] at hout

/-- Equal inputs so far, equal registers. -/
theorem traj_congr (step : σ → ι → σ) (s : σ) {inp inp' : ℕ → ι} {t : ℕ}
    (h : ∀ u < t, inp u = inp' u) : traj step s inp t = traj step s inp' t := by
  induction t with
  | zero => rfl
  | succ t ih =>
      have hprev := ih fun u hu => h u (by omega)
      rw [traj_succ, traj_succ, hprev, h t (by omega)]

/-- A part of the registers that has a step of its own, fed from the whole machine. -/
theorem traj_part {σ' ι' : Type*} {step : σ → ι → σ} {step' : σ' → ι' → σ'} (part : σ → σ')
    (feed : σ → ι → ι') (h : ∀ s i, part (step s i) = step' (part s) (feed s i)) (s : σ)
    (inp : ℕ → ι) (t : ℕ) : part (traj step s inp t) =
      traj step' (part s) (fun u => feed (traj step s inp u) (inp u)) t := by
  induction t with
  | zero => rfl
  | succ t ih => rw [traj_succ, traj_succ, h, ih]

/-- A register that changes by the events of each cycle holds the fold of all of them. -/
theorem traj_fold {β ε : Type*} {step : σ → ι → σ} {s : σ} {inp : ℕ → ι} (reg : σ → β)
    (apply : β → ε → β) (events : σ → ι → List ε)
    (h : ∀ t, reg (step (traj step s inp t) (inp t)) =
      (events (traj step s inp t) (inp t)).foldl apply (reg (traj step s inp t))) (t : ℕ) :
    reg (traj step s inp t) =
      ((List.range t).flatMap fun u => events (traj step s inp u) (inp u)).foldl apply (reg s) := by
  induction t with
  | zero => rfl
  | succ t ih =>
      rw [List.range_succ, List.flatMap_append, List.foldl_append, ← ih, List.flatMap_singleton,
        traj_succ, h]

/-- The run in which the environment answers the registers of the same cycle. -/
def feedback (step : σ → ι → σ) (env : ℕ → σ → ι) (s : σ) : ℕ → σ
  | 0 => s
  | t + 1 => step (feedback step env s t) (env t (feedback step env s t))

theorem traj_feedback (step : σ → ι → σ) (env : ℕ → σ → ι) (s : σ) (t : ℕ) :
    traj step s (fun u => env u (feedback step env s u)) t = feedback step env s t := by
  induction t with
  | zero => rfl
  | succ t ih => rw [traj_succ, ih, feedback]

/-- The states some run of permitted cycles reaches from `init`; what a cycle may do can
depend on the state it meets. -/
inductive Reachable (step : σ → ι → σ) (ok : σ → ι → Prop) (init : σ) : σ → Prop
  | init : Reachable step ok init init
  | step {s : σ} (i : ι) : Reachable step ok init s → ok s i → Reachable step ok init (step s i)

/-- The invariant rule: what holds initially and survives every permitted cycle
holds in every reachable state. -/
theorem Reachable.invariant {step : σ → ι → σ} {ok : σ → ι → Prop} {init s : σ}
    (inv : σ → Prop) (h0 : inv init) (hs : ∀ s i, ok s i → inv s → inv (step s i))
    (h : Reachable step ok init s) : inv s := by
  induction h with
  | init => exact h0
  | step i _ hi ih => exact hs _ i hi ih

theorem Reachable.run {step : σ → ι → σ} {ok : σ → ι → Prop} {init s : σ}
    (h : Reachable step ok init s) (is : List ι) (his : ∀ i ∈ is, ∀ s, ok s i) :
    Reachable step ok init (Clocked.run step s is) := by
  induction is generalizing s with
  | nil => exact h
  | cons i is ih =>
      exact ih (h.step i (his i (by simp) s)) (fun j hj => his j (by simp [hj]))

/-- The invariant rule along one finite run. -/
theorem run_invariant {step : σ → ι → σ} (inv : σ → Prop) (ok : ι → Prop)
    (hs : ∀ s i, ok i → inv s → inv (step s i)) {s : σ} (h : inv s) (is : List ι)
    (his : ∀ i ∈ is, ok i) : inv (run step s is) := by
  induction is generalizing s with
  | nil => exact h
  | cons i is ih =>
      exact ih (hs s i (his i (by simp)) h) (fun j hj => his j (by simp [hj]))

/-- The simulation rule: two machines fed the same cycles stay related, and show the same outputs if
these agree in related states. -/
theorem outs_related {σ' : Type*} {step : σ → ι → σ} {step' : σ' → ι → σ'} {out : σ → ι → ο}
    {out' : σ' → ι → ο} (R : σ → σ' → Prop) (ok : ι → Prop)
    (hs : ∀ s s' i, ok i → R s s' → R (step s i) (step' s' i))
    (ho : ∀ s s' i, ok i → R s s' → out s i = out' s' i) {s : σ} {s' : σ'}
    (h : R s s') (is : List ι) (his : ∀ i ∈ is, ok i) :
    outs step out s is = outs step' out' s' is := by
  induction is generalizing s s' with
  | nil => rfl
  | cons i is ih =>
      have hi := his i (by simp)
      simp only [outs_cons, ho s s' i hi h]
      rw [ih (hs s s' i hi h) (fun j hj => his j (by simp [hj]))]

/-- The invariant rule along an infinite run. -/
theorem traj_invariant {step : σ → ι → σ} (inv : σ → Prop) {s : σ} {inp : ℕ → ι}
    (h : inv s) (hs : ∀ t, inv (traj step s inp t) → inv (step (traj step s inp t) (inp t)))
    (t : ℕ) : inv (traj step s inp t) := by
  induction t with
  | zero => exact h
  | succ t ih => exact hs t ih

/-- The invariant rule along a stretch of an infinite run. -/
theorem traj_persists {step : σ → ι → σ} (inv : σ → Prop) {s : σ} {inp : ℕ → ι} {m n : ℕ}
    (hmn : m ≤ n) (h : inv (traj step s inp m))
    (hs : ∀ t, m ≤ t → t < n → inv (traj step s inp t) →
      inv (step (traj step s inp t) (inp t))) : inv (traj step s inp n) := by
  induction n, hmn using Nat.le_induction with
  | base => exact h
  | succ t ht ih =>
      have hprev := ih fun u hu hut => hs u hu (by omega)
      exact hs t ht (by omega) hprev

/-- The last entry into a phase that does not hold at the start. From the entry on every step
was `good`, and after it every step kept the phase up. -/
theorem exists_entry (phase good entry stay : ℕ → Prop) (h₀ : ¬ phase 0)
    (hprev : ∀ t, phase (t + 1) → good t ∧ (entry t ∨ phase t ∧ stay t)) {n : ℕ} (hn : phase n) :
    ∃ m < n, entry m ∧ (∀ t, m ≤ t → t < n → good t) ∧
      ∀ t, m < t → t < n → phase t ∧ stay t := by
  induction n with
  | zero => exact absurd hn h₀
  | succ n ih =>
      obtain ⟨hgood, hentry | hkeep⟩ := hprev n hn
      · refine ⟨n, Nat.lt_succ_self n, hentry, fun t ht htn => ?_, fun t ht htn => by omega⟩
        rwa [show t = n by omega]
      · obtain ⟨m, hm, hentry, hgood', hkeep'⟩ := ih hkeep.1
        refine ⟨m, by omega, hentry, fun t ht htn => ?_, fun t ht htn => ?_⟩
        · obtain hlt | rfl : t < n ∨ t = n := by omega
          · exact hgood' t ht hlt
          · exact hgood
        · obtain hlt | rfl : t < n ∨ t = n := by omega
          · exact hkeep' t ht hlt
          · exact hkeep

theorem toNat_pred {w : ℕ} {c : BitVec w} (h : c ≠ 0) : (c - 1).toNat + 1 = c.toNat := by
  have hpos : c.toNat ≠ 0 := fun hz => h (BitVec.eq_of_toNat_eq hz)
  have hlt := c.isLt
  have hpow : 1 < 2 ^ w := by omega
  have hone : (1 : BitVec w).toNat = 1 := Nat.mod_eq_of_lt hpow
  have hle : 1 ≤ c := by
    rw [BitVec.le_def, hone]
    omega
  rw [BitVec.toNat_sub_of_le hle, hone]
  omega

/-- A wait with a countdown: the register is loaded at its start and counts down in each cycle
after it, so that the wait is over in time. -/
theorem exists_wait {w : ℕ} (phase entry : ℕ → Prop) (timer : ℕ → BitVec w) (load : BitVec w)
    (h₀ : ¬ phase 0)
    (hprev : ∀ t, phase (t + 1) → entry t ∧ timer (t + 1) = load ∨
      phase t ∧ timer t ≠ 0 ∧ timer (t + 1) = timer t - 1) {n : ℕ} (hn : phase n) :
    ∃ m < n, entry m ∧ (timer n).toNat + n = m + (load.toNat + 1) ∧
      ∀ t, m < t → t ≤ n → phase t := by
  induction n with
  | zero => exact absurd hn h₀
  | succ n ih =>
      obtain ⟨hentry, hload⟩ | ⟨hphase, hne, hdec⟩ := hprev n hn
      · refine ⟨n, Nat.lt_succ_self n, hentry, ?_, fun t ht htn => ?_⟩
        · rw [hload]
          omega
        · rwa [show t = n + 1 by omega]
      · obtain ⟨m, hm, hentry, htime, hkeep⟩ := ih hphase
        have hpred := toNat_pred hne
        refine ⟨m, by omega, hentry, ?_, fun t ht htn => ?_⟩
        · rw [hdec]
          omega
        · obtain hle | rfl : t ≤ n ∨ t = n + 1 := by omega
          · exact hkeep t ht hle
          · exact hn

/-- Every output of a run satisfies what each cycle establishes from the invariant. -/
theorem forall_outs {step : σ → ι → σ} {out : σ → ι → ο} (inv : σ → Prop) (ok : ι → Prop)
    (good : ο → Prop) (hs : ∀ s i, ok i → inv s → inv (step s i))
    (ho : ∀ s i, ok i → inv s → good (out s i)) {s : σ} (h : inv s) (is : List ι)
    (his : ∀ i ∈ is, ok i) : ∀ o ∈ outs step out s is, good o := by
  induction is generalizing s with
  | nil => simp
  | cons i is ih =>
      have hi := his i (by simp)
      simp only [outs_cons, List.mem_cons, forall_eq_or_imp]
      exact ⟨ho s i hi h, ih (hs s i hi h) (fun j hj => his j (by simp [hj]))⟩

end UsbDev.Clocked
