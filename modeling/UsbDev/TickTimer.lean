import Mathlib.Data.Nat.Count
import Mathlib.Order.Basic
import Mathlib.Tactic.Common

/-!
# Timeouts measured in ticks

A timer that starts when a signal rises, counts the ticks while it stays high,
and is pending from the tick that finds the count at its limit until the signal
falls. The tick is any sequence of pulses; a cycle counts from the one after
the signal rose.
-/
namespace UsbDev.TickTimer

inductive State where
  | idle
  | counting (n : ℕ)
  | pending
  deriving DecidableEq, Repr

/-- One cycle of a timer with this limit. -/
def step (limit : ℕ) (s : State) (signal tick : Bool) : State :=
  match s with
  | .idle => if signal then .counting 0 else .idle
  | .counting n =>
      if !signal then .idle
      else if tick then if n = limit then .pending else .counting (n + 1)
      else .counting n
  | .pending => if signal then .pending else .idle

/-- A timer fed with these signals from the start. -/
structure Runs (limit : ℕ) (signal tick : ℕ → Bool) (timer : ℕ → State) : Prop where
  zero : timer 0 = .idle
  succ : ∀ t, timer (t + 1) = step limit (timer t) (signal t) (tick t)

/-- The signal is high in all cycles from `a` up to but not including `b`. -/
def HighOn (signal : ℕ → Bool) (a b : ℕ) : Prop := ∀ u, a ≤ u → u < b → signal u = true

/-- The ticks before cycle `t`. -/
def ticks (tick : ℕ → Bool) (t : ℕ) : ℕ := Nat.count (fun u => tick u = true) t

variable {limit : ℕ} {signal tick : ℕ → Bool} {timer : ℕ → State}

theorem HighOn.snoc {a t : ℕ} (h : HighOn signal a t) (hs : signal t = true) :
    HighOn signal a (t + 1) := by
  intro u ha hu
  obtain hlt | rfl := Nat.lt_succ_iff_lt_or_eq.1 hu
  · exact h u ha hlt
  · exact hs

theorem HighOn.init {a t : ℕ} (h : HighOn signal a (t + 1)) : HighOn signal a t :=
  fun u ha hu => h u ha (by omega)

theorem HighOn.last {a t : ℕ} (h : HighOn signal a (t + 1)) (ha : a ≤ t) : signal t = true :=
  h t ha (by omega)

theorem HighOn.mono {a b t : ℕ} (h : HighOn signal a t) (hab : a ≤ b) : HighOn signal b t :=
  fun u hb hu => h u (by omega) hu

theorem ticks_succ (tick : ℕ → Bool) (t : ℕ) :
    ticks tick (t + 1) = ticks tick t + if tick t then 1 else 0 := by
  rw [ticks, Nat.count_succ]
  rfl

/-- What the timer says about the signal and the ticks so far. -/
inductive Explains (limit : ℕ) (signal tick : ℕ → Bool) (t : ℕ) : State → Prop
  | idle : Explains limit signal tick t .idle
  | counting {n : ℕ} (a : ℕ) : a < t → HighOn signal a t → n ≤ limit →
      ticks tick t = ticks tick (a + 1) + n → Explains limit signal tick t (.counting n)
  | pending (a : ℕ) : a < t → HighOn signal a t →
      ticks tick (a + 1) + limit + 1 ≤ ticks tick t → Explains limit signal tick t .pending

theorem Explains.step {s : State} {t : ℕ} (h : Explains limit signal tick t s) :
    Explains limit signal tick (t + 1) (step limit s (signal t) (tick t)) := by
  cases hs : signal t with
  | false =>
      cases h <;> exact .idle
  | true =>
      cases h with
      | idle => exact .counting t (by omega) (fun u ha hu => by
          obtain rfl : u = t := by omega
          exact hs) (Nat.zero_le _) rfl
      | counting a ha hhigh hle hticks =>
          have hsucc := ticks_succ tick t
          cases ht : tick t with
          | false =>
              rw [ht] at hsucc
              exact .counting a (by omega) (hhigh.snoc hs) hle (by simpa [hticks] using hsucc)
          | true =>
              rw [ht, if_pos rfl] at hsucc
              rename_i n
              by_cases hn : n = limit
              · have hnext : TickTimer.step limit (.counting n) true true = .pending := by
                  simp [TickTimer.step, hn]
                rw [hnext]
                exact .pending a (by omega) (hhigh.snoc hs) (by omega)
              · have hnext : TickTimer.step limit (.counting n) true true = .counting (n + 1) := by
                  simp [TickTimer.step, hn]
                rw [hnext]
                exact .counting a (by omega) (hhigh.snoc hs) (by omega) (by omega)
      | pending a ha hhigh hticks =>
          have hsucc := ticks_succ tick t
          exact .pending a (by omega) (hhigh.snoc hs) (by omega)

namespace Runs

theorem explains (h : Runs limit signal tick timer) (t : ℕ) :
    Explains limit signal tick t (timer t) := by
  induction t with
  | zero =>
      rw [h.zero]
      exact .idle
  | succ t ih =>
      rw [h.succ]
      exact ih.step

/-- A pending timer has seen more ticks than its limit with the signal high. -/
theorem high_of_pending (h : Runs limit signal tick timer) {t : ℕ} (hp : timer t = .pending) :
    ∃ a < t, HighOn signal a t ∧ ticks tick (a + 1) + limit + 1 ≤ ticks tick t := by
  have hex := h.explains t
  rw [hp] at hex
  cases hex with
  | pending a ha hhigh hticks => exact ⟨a, ha, hhigh, hticks⟩

/-- The timeout comes at the tick after the limit. -/
theorem high_of_timeout (h : Runs limit signal tick timer) {t : ℕ}
    (hc : timer t = .counting limit) (hs : signal t = true) (ht : tick t = true) :
    ∃ a < t, HighOn signal a (t + 1) ∧ ticks tick (t + 1) = ticks tick (a + 1) + (limit + 1) := by
  have hex := h.explains t
  rw [hc] at hex
  cases hex with
  | counting a ha hhigh hle hticks =>
      have hsucc := ticks_succ tick t
      rw [ht, if_pos rfl] at hsucc
      exact ⟨a, ha, hhigh.snoc hs, by omega⟩

/-- After a cycle with the signal low, or at the start, the timer is idle. -/
theorem idle_of_low (h : Runs limit signal tick timer) {a : ℕ}
    (ha : ∀ b, b + 1 = a → signal b = false) : timer a = .idle := by
  cases a with
  | zero => exact h.zero
  | succ b =>
      rw [h.succ, ha b rfl]
      cases timer b <;> rfl

/-- With the signal high the count keeps up with the ticks. -/
theorem reaches (h : Runs limit signal tick timer) {a t : ℕ} (hat : a < t)
    (hhigh : HighOn signal a t) :
    timer t = .pending ∨ ∃ n, timer t = .counting n ∧ ticks tick t ≤ ticks tick (a + 1) + n := by
  induction t, hat using Nat.le_induction with
  | base =>
      have hs := hhigh a (by omega) (by omega)
      have hle (m : ℕ) : ticks tick (a + 1) ≤ ticks tick (a + 1) + m := Nat.le_add_right _ _
      rw [h.succ, hs]
      cases timer a with
      | idle => exact .inr ⟨0, rfl, hle 0⟩
      | counting n =>
          cases tick a with
          | false => exact .inr ⟨n, rfl, hle n⟩
          | true =>
              by_cases hn : n = limit
              · exact .inl (by simp [step, hn])
              · exact .inr ⟨n + 1, by simp [step, hn], hle (n + 1)⟩
      | pending => exact .inl rfl
  | succ t hat ih =>
      have hs := hhigh.last (Nat.le_of_succ_le hat)
      have hsucc := ticks_succ tick t
      rw [h.succ, hs]
      obtain hp | ⟨n, hn, hle⟩ := ih hhigh.init
      · rw [hp]
        exact .inl rfl
      · rw [hn]
        cases ht : tick t with
        | false =>
            rw [ht] at hsucc
            exact .inr ⟨n, rfl, by simpa [hsucc] using hle⟩
        | true =>
            rw [ht, if_pos rfl] at hsucc
            by_cases hlim : n = limit
            · exact .inl (by simp [step, hlim])
            · exact .inr ⟨n + 1, by simp [step, hlim], by omega⟩

/-- The signal has been high for more ticks than the limit: the timer is pending. -/
theorem pending_of_high (h : Runs limit signal tick timer) {a t : ℕ} (hat : a < t)
    (hhigh : HighOn signal a t) (hticks : ticks tick (a + 1) + limit + 1 ≤ ticks tick t) :
    timer t = .pending := by
  obtain hp | ⟨n, hn, hle⟩ := h.reaches hat hhigh
  · exact hp
  · have hex := h.explains t
    rw [hn] at hex
    cases hex with
    | counting b hb hhigh' hlim hcount => omega

/-- From an idle timer the count is the number of ticks since the signal rose. -/
theorem counting_of_high (h : Runs limit signal tick timer) {a t : ℕ} (hidle : timer a = .idle)
    (hat : a < t) (hhigh : HighOn signal a t)
    (hticks : ticks tick t ≤ ticks tick (a + 1) + limit) :
    timer t = .counting (ticks tick t - ticks tick (a + 1)) := by
  induction t, hat using Nat.le_induction with
  | base =>
      rw [h.succ, hidle, hhigh a (by omega) (by omega), Nat.sub_self]
      rfl
  | succ t hat ih =>
      have hmono : ticks tick (a + 1) ≤ ticks tick t := Nat.count_monotone _ hat
      have hsucc := ticks_succ tick t
      rw [h.succ, hhigh.last (Nat.le_of_succ_le hat), ih hhigh.init (by omega)]
      cases ht : tick t with
      | false =>
          rw [ht] at hsucc
          simp [step, hsucc]
      | true =>
          rw [ht, if_pos rfl] at hsucc
          have hne : ticks tick t - ticks tick (a + 1) ≠ limit := by omega
          simp only [step, hne, Bool.not_true, Bool.false_eq_true, if_false, if_true]
          congr 1
          omega

end Runs

/-! ### Periodic ticks -/

/-- With a tick every `p` cycles, the ticks before a cycle. -/
theorem ticks_periodic {p phase : ℕ} (hp : phase < p)
    (h : ∀ t, tick t = true ↔ t % p = phase) (t : ℕ) :
    ticks tick t = (t + (p - 1 - phase)) / p := by
  have hpos : 0 < p := by omega
  induction t with
  | zero => rw [Nat.zero_add, Nat.div_eq_of_lt (by omega)]; rfl
  | succ t ih =>
      have hdiv := @Nat.succ_div (t + (p - 1 - phase)) p
      rw [ticks_succ, ih, show t + 1 + (p - 1 - phase) = t + (p - 1 - phase) + 1 by omega, hdiv]
      congr 1
      have hiff : p ∣ t + (p - 1 - phase) + 1 ↔ t % p = phase := by
        rw [show t + (p - 1 - phase) + 1 = t + (p - phase) by omega, Nat.dvd_iff_mod_eq_zero,
          Nat.add_mod]
        have hlt := Nat.mod_lt t hpos
        by_cases hzero : phase = 0
        · subst hzero
          simp
        · rw [Nat.mod_eq_of_lt (show p - phase < p by omega)]
          constructor
          · intro hm
            have hge : p ≤ t % p + (p - phase) := by
              by_contra hlt'
              rw [Nat.mod_eq_of_lt (by omega)] at hm
              omega
            have hsub : t % p + (p - phase) - p < p := by omega
            rw [Nat.mod_eq_sub_mod hge, Nat.mod_eq_of_lt hsub] at hm
            omega
          · intro hm
            rw [hm, show phase + (p - phase) = p by omega, Nat.mod_self]
      by_cases ht : t % p = phase
      · rw [if_pos ((h t).2 ht), if_pos (hiff.2 ht)]
      · rw [if_neg (fun hc => ht ((h t).1 hc)), if_neg fun hc => ht (hiff.1 hc)]

end UsbDev.TickTimer
