import UsbDev.BusResponses
import UsbDev.Device

/-!
# The interrupts

`prim_intr_hw` for each of the 18 interrupts, with the three registers behind which
software has them: `intr_state`, `intr_enable` and `intr_test`. An event is kept until
software clears it; a status is shown for as long as it lasts. Software acts on both
through the requests that the bus accepts.
-/
namespace UsbDev.Interrupts

open Clocked

/-! ### Flags and registers over a run -/

section
variable {σ ι : Type*} {step : σ → ι → σ} {q : σ → Bool}

theorem true_not_mem_outs_concat (f : σ → ι → Bool) (s : σ) (is : List ι) (i : ι) :
    true ∉ outs step f s (is ++ [i]) ↔ true ∉ outs step f s is ∧ f (run step s is) i = false := by
  rw [outs_append, List.mem_append, not_or]
  simp

/-- A flag that is set, and cleared with priority, is up if it was set in a cycle in which it was
not cleared, nor in any since. -/
theorem latch_iff {set clear : σ → ι → Bool}
    (hs : ∀ s i, q (step s i) = ((q s || set s i) && !clear s i)) {s : σ} (h0 : q s = false)
    (is : List ι) : q (run step s is) = true ↔
      ∃ as i bs, is = as ++ i :: bs ∧ set (run step s as) i = true ∧
        true ∉ outs step clear (run step s as) (i :: bs) := by
  induction is using List.reverseRecOn with
  | nil => simp [h0]
  | append_singleton is j ih =>
      rw [run_append, run_cons, run_nil, hs, Bool.and_eq_true, Bool.or_eq_true, Bool.not_eq_true',
        ih]
      constructor
      · rintro ⟨⟨as, i, bs, rfl, hset, hkept⟩ | hset, hclear⟩
        · refine ⟨as, i, bs ++ [j], by simp, hset, ?_⟩
          rw [run_append] at hclear
          rw [← List.cons_append, true_not_mem_outs_concat]
          exact ⟨hkept, hclear⟩
        · exact ⟨is, j, [], rfl, hset, by simp [hclear]⟩
      · rintro ⟨as, i, bs, heq, hset, hkept⟩
        obtain rfl | ⟨bs, b, rfl⟩ := List.eq_nil_or_concat' bs
        · obtain ⟨rfl, hj⟩ := List.append_inj' heq rfl
          obtain rfl : j = i := by simpa using hj
          exact ⟨.inr hset, by simpa using hkept⟩
        · rw [← List.cons_append, ← List.append_assoc] at heq
          obtain ⟨rfl, hj⟩ := List.append_inj' heq rfl
          obtain rfl : j = b := by simpa using hj
          rw [← List.cons_append, true_not_mem_outs_concat] at hkept
          refine ⟨.inl ⟨as, i, bs, rfl, hset, hkept.1⟩, ?_⟩
          rw [run_append]
          exact hkept.2

/-- A register holds what was written last. -/
theorem last_write {f : σ → ι → Option Bool} (hs : ∀ s i, q (step s i) = (f s i).getD (q s)) (s : σ)
    (is : List ι) : q (run step s is) = (log step f s is).getLastD (q s) := by
  induction is generalizing s with
  | nil => rfl
  | cons i is ih =>
      rw [run_cons, ih, hs, log_cons]
      cases f s i with
      | none => rfl
      | some d => exact (List.getLastD_cons ..).symm

end

/-! ### The registers of an interrupt -/

/-- `IntrT`. -/
inductive IntrT where
  | event
  | status
  deriving DecidableEq, Repr

/-- `pkt_received`, `pkt_sent`, `av_out_empty`, `rx_full` and `av_setup_empty` are status. -/
def intrT (k : Fin 18) : IntrT := if k ∈ [0, 1, 7, 8, 17] then .status else .event

/-- The fields of `intr_state` and `intr_enable`, `test_q` and `intr_o`. -/
structure Intr where
  state : Bool
  enable : Bool
  testQ : Bool
  intrO : Bool
  deriving DecidableEq, Repr

def Intr.reset : Intr := ⟨false, false, false, false⟩

/-- A cycle of an interrupt: the write enables of its registers with the bit that is written, and
`event_intr_i`. -/
structure Signals where
  stateWe : Bool
  enableWe : Bool
  testWe : Bool
  wd : Bool
  event : Bool
  deriving DecidableEq, Repr

/-- `hw2reg_intr_state_de_o`. -/
def hwDe (kind : IntrT) (e : Signals) : Bool :=
  match kind with
  | .event => e.testWe && e.wd || e.event
  | .status => true

/-- `hw2reg_intr_state_d_o`. -/
def hwD (kind : IntrT) (r : Intr) (e : Signals) : Bool :=
  match kind with
  | .event => e.testWe && e.wd || e.event || r.state
  | .status => e.event || r.testQ

def status (kind : IntrT) (r : Intr) (e : Signals) : Bool :=
  match kind with
  | .event => r.state
  | .status => e.event || r.testQ

/-- One clock cycle; software cannot write the state of a status. -/
def Intr.step (kind : IntrT) (r : Intr) (e : Signals) : Intr where
  state := match kind with
    | .event => subregW1C e.stateWe e.wd (hwDe kind e) (hwD kind r e) r.state
    | .status => if hwDe kind e then hwD kind r e else r.state
  enable := subregRW e.enableWe e.wd false false r.enable
  testQ := match kind with
    | .event => r.testQ
    | .status => if e.testWe then e.wd else r.testQ
  intrO := status kind r e && r.enable

/-! ### The interrupts behind the bus -/

structure Input where
  bus : RegTop.Input
  eventIntr : Fin 18 → Bool

structure State where
  top : RegTop.State
  intr : Fin 18 → Intr

/-- Register values under `rst_ni`. -/
def State.reset (req : AdapterSram.Req) (mask : BitVec 4) (rsp : AdapterSram.Rsp)
    (mem : BitVec 9 → BitVec 32) (sramRdata : BitVec 32) : State :=
  ⟨.reset req mask rsp mem sramRdata, fun _ => .reset⟩

def intrState : ℕ := 0
def intrEnable : ℕ := 1
def intrTest : ℕ := 2

/-- `reg_wdata`. -/
def regWdata (s : State) (i : Input) : BitVec 32 := (RegTop.regTl s.top i.bus).aData

def signals (s : State) (i : Input) (k : Fin 18) : Signals where
  stateWe := RegTop.writeEnable s.top i.bus intrState
  enableWe := RegTop.writeEnable s.top i.bus intrEnable
  testWe := RegTop.writeEnable s.top i.bus intrTest
  wd := (regWdata s i).getLsbD k
  event := i.eventIntr k

/-- One clock cycle. -/
def step (s : State) (i : Input) : State where
  top := RegTop.step s.top i.bus
  intr k := (s.intr k).step (intrT k) (signals s i k)

/-- The bit that software writes to a register: the bus accepts the request and does not refuse
it. -/
def wrote (r : ℕ) (k : Fin 18) (s : State) (i : Input) : Option Bool :=
  if RegTop.acceptReq s.top i.bus && RegTop.regSteer i.bus.tl && i.bus.tl.isPut &&
      !RegTop.refused i.bus.tl && RegTop.regHit i.bus r then
    some (i.bus.tl.aData.getLsbD k)
  else none

/-- The event happens, or software tests it. -/
def raised (k : Fin 18) (s : State) (i : Input) : Bool :=
  i.eventIntr k || wrote intrTest k s i == some true

/-- Software writes a one to the state. -/
def cleared (k : Fin 18) (s : State) (i : Input) : Bool := wrote intrState k s i == some true

variable {s : State} {i : Input} {k : Fin 18}

theorem intr_step (s : State) (i : Input) (k : Fin 18) :
    (step s i).intr k = (s.intr k).step (intrT k) (signals s i k) := rfl

/-- The registers see what was written. -/
theorem wrote_eq {r : ℕ} (hr : RegTop.readOnly.contains r = false) (k : Fin 18)
    (s : State) (i : Input) :
    wrote r k s i = if RegTop.writeEnable s.top i.bus r then some ((regWdata s i).getLsbD k)
      else none := by
  have hwe : RegTop.writeEnable s.top i.bus r = (RegTop.acceptReq s.top i.bus &&
      RegTop.regSteer i.bus.tl && i.bus.tl.isPut && !RegTop.refused i.bus.tl &&
      RegTop.regHit i.bus r) := by
    rw [RegTop.writeEnable_eq, hr, Bool.not_false, Bool.true_and, Bool.and_comm]
  rw [wrote, ← hwe]
  split_ifs with hset
  · rw [hwe, Bool.and_eq_true, Bool.and_eq_true, Bool.and_eq_true, Bool.and_eq_true] at hset
    obtain ⟨⟨⟨⟨hacc, hsteer⟩, -⟩, -⟩, -⟩ := hset
    rw [regWdata, RegTop.regTl_of_accept hacc hsteer]
  · rfl

theorem wrote_one {r : ℕ} (hr : RegTop.readOnly.contains r = false) (k : Fin 18) (s : State)
    (i : Input) : (wrote r k s i == some true) =
      (RegTop.writeEnable s.top i.bus r && (regWdata s i).getLsbD k) := by
  rw [wrote_eq hr]
  split_ifs with hset
  · rw [hset]
    cases (regWdata s i).getLsbD k <;> rfl
  · rw [Bool.eq_false_iff.2 hset]
    rfl

theorem wrote_getD {r : ℕ} (hr : RegTop.readOnly.contains r = false) (k : Fin 18) (s : State)
    (i : Input) (b : Bool) : (wrote r k s i).getD b =
      if RegTop.writeEnable s.top i.bus r then (regWdata s i).getLsbD k else b := by
  rw [wrote_eq hr]
  split_ifs <;> rfl

theorem Intr.state_step (r : Intr) (e : Signals) : (r.step .event e).state =
    ((r.state || (e.event || e.testWe && e.wd)) && !(e.stateWe && e.wd)) := by
  obtain ⟨stateWe, enableWe, testWe, wd, event⟩ := e
  simp only [Intr.step, subregW1C, hwDe, hwD]
  cases r.state <;> cases stateWe <;> cases testWe <;> cases wd <;> cases event <;> rfl

/-- The state of an event. -/
theorem state_step (hk : intrT k = .event) (s : State) (i : Input) :
    ((step s i).intr k).state = (((s.intr k).state || raised k s i) && !cleared k s i) := by
  rw [raised, cleared, wrote_one rfl, wrote_one rfl, intr_step, hk, Intr.state_step]
  rfl

theorem enable_step (s : State) (i : Input) :
    ((step s i).intr k).enable = (wrote intrEnable k s i).getD (s.intr k).enable := by
  rw [wrote_getD rfl]
  rfl

theorem testQ_step (hk : intrT k = .status) (s : State) (i : Input) :
    ((step s i).intr k).testQ = (wrote intrTest k s i).getD (s.intr k).testQ := by
  rw [wrote_getD rfl, intr_step, hk]
  rfl

section
variable {req : AdapterSram.Req} {mask : BitVec 4} {rsp : AdapterSram.Rsp}
  {mem : BitVec 9 → BitVec 32} {sramRdata : BitVec 32}

/-- What `intr_o` shows after a cycle: the interrupt was enabled by the last write to
`intr_enable`, and an event has happened, or was tested, in a cycle in which software did not clear
it and has not cleared it since; a status holds in the cycle, or the last write to `intr_test` left
it on. -/
theorem intrO_iff (is : List Input) (i : Input) (k : Fin 18) :
    ((run step (.reset req mask rsp mem sramRdata) (is ++ [i])).intr k).intrO = true ↔
      (log step (wrote intrEnable k) (.reset req mask rsp mem sramRdata) is).getLastD false = true ∧
      match intrT k with
      | .event => ∃ as j bs, is = as ++ j :: bs ∧
          raised k (run step (.reset req mask rsp mem sramRdata) as) j = true ∧
          true ∉ outs step (cleared k) (run step (.reset req mask rsp mem sramRdata) as) (j :: bs)
      | .status => i.eventIntr k = true ∨
          (log step (wrote intrTest k) (.reset req mask rsp mem sramRdata) is).getLastD false =
            true := by
  have henable := last_write (q := fun s : State => (s.intr k).enable) enable_step
    (State.reset req mask rsp mem sramRdata) is
  rw [run_append, run_cons, run_nil]
  cases hk : intrT k with
  | event =>
      have hstate := latch_iff (q := fun s : State => (s.intr k).state) (state_step hk)
        (s := State.reset req mask rsp mem sramRdata) rfl is
      simp only [step, Intr.step, hk, status, Bool.and_eq_true]
      rw [hstate, henable]
      exact and_comm
  | status =>
      have htest := last_write (q := fun s : State => (s.intr k).testQ) (testQ_step hk)
        (State.reset req mask rsp mem sramRdata) is
      simp only [step, Intr.step, hk, status, signals, Bool.and_eq_true, Bool.or_eq_true]
      rw [htest, henable]
      exact and_comm

end

end UsbDev.Interrupts
