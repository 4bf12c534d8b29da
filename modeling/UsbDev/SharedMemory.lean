import UsbDev.Clocked
import UsbDev.PacketRam

/-!
# The packet RAM as a memory with two ports

`latest` says what a memory holds after a list of writes. The packet RAM holds
that for the requests of both sides in the order in which they are granted, and
every read response is the value it names.
-/
namespace UsbDev

/-! ### Writes in order -/

namespace Memory

variable {α β : Type*} [DecidableEq α]

/-- The value of the last write to `a`, if there is one. -/
def lastWrite (ws : List (α × β)) (a : α) : Option β :=
  (ws.filter fun w => w.1 = a).getLast?.map Prod.snd

/-- The latest value at `a`: written last, or there from the start. -/
def latest (mem : α → β) (ws : List (α × β)) (a : α) : β := (lastWrite ws a).getD (mem a)

@[simp] theorem latest_nil (mem : α → β) : latest mem [] = mem := rfl

theorem lastWrite_append (ws : List (α × β)) (a b : α) (x : β) :
    lastWrite (ws ++ [(b, x)]) a = if b = a then some x else lastWrite ws a := by
  unfold lastWrite
  rw [List.filter_append]
  by_cases h : b = a
  · simp [h]
  · simp [h]

theorem latest_append (mem : α → β) (ws : List (α × β)) (a : α) (x : β) :
    latest mem (ws ++ [(a, x)]) = Function.update (latest mem ws) a x := by
  ext b
  rw [latest, lastWrite_append, Function.update_apply]
  by_cases h : a = b
  · rw [if_pos h, if_pos h.symm]
    rfl
  · rw [if_neg h, if_neg (Ne.symm h)]
    rfl

end Memory

namespace PacketRam
open Memory

/-- The requests of the USB side and of software in one cycle. -/
abbrev Cycle := Option Req × Option Req

def cycle (r : State) (i : Cycle) : State := step r i.1 i.2

/-- The requests granted in a cycle: every request of the USB side, and a request of software
when `sw_mem_a_gnt` says so. -/
def granted (i : Cycle) : List Req := i.1.toList ++ if swGnt i.1 then i.2.toList else []

/-- Address and data of a write. -/
def Req.write? (q : Req) : Option (BitVec 9 × BitVec 32) :=
  if q.write then some (q.addr, q.wdata) else none

/-- The writes granted in the cycles `is`, in the order of the grants. -/
def writes (is : List Cycle) : List (BitVec 9 × BitVec 32) :=
  (is.flatMap granted).filterMap Req.write?

/-- A read of the USB side. -/
def usbReads (i : Cycle) : Bool := i.1.any fun q => !q.write

/-! ### One cycle -/

/-- What is granted is what the RAM serves, one request in a cycle. -/
theorem granted_eq (i : Cycle) : granted i = (served i.1 i.2).toList := by
  obtain ⟨usb, sw⟩ := i
  cases usb with
  | none => rfl
  | some q => rfl

theorem writes_append (is : List Cycle) (i : Cycle) :
    writes (is ++ [i]) = writes is ++ (served i.1 i.2).toList.filterMap Req.write? := by
  simp [writes, granted_eq]

/-- A cycle appends its write. -/
theorem mem_cycle {r : State} {mem : BitVec 9 → BitVec 32} {is : List Cycle}
    (h : r.mem = latest mem (writes is)) (i : Cycle) :
    (cycle r i).mem = latest mem (writes (is ++ [i])) := by
  have hstep : (cycle r i).mem = writeMem r.mem (served i.1 i.2) := rfl
  rw [hstep, writes_append, h]
  cases served i.1 i.2 with
  | none => simp
  | some q =>
      obtain ⟨write, a, w⟩ := q
      cases write with
      | false => simp [Req.write?]
      | true => simp [Req.write?, latest_append]

/-- A response for software follows exactly a granted read of software. -/
theorem swRvalid_cycle (r : State) (i : Cycle) :
    (cycle r i).swRvalid = true ↔ ∃ a w, i.2 = some ⟨false, a, w⟩ ∧ swGnt i.1 = true := by
  obtain ⟨usb, sw⟩ := i
  cases usb with
  | some q => simp [cycle, step, State.swRvalid, swGnt]
  | none =>
      cases sw with
      | none => simp [cycle, step, State.swRvalid, served]
      | some q =>
          obtain ⟨write, a, w⟩ := q
          cases write with
          | true => simp [cycle, step, State.swRvalid, served]
          | false => simp [cycle, step, State.swRvalid, served, swGnt]

theorem swRdata_cycle (r : State) {i : Cycle} {a : BitVec 9} {w : BitVec 32}
    (h : i.2 = some ⟨false, a, w⟩) (hg : swGnt i.1 = true) : (cycle r i).swRdata = r.mem a := by
  obtain ⟨usb, sw⟩ := i
  obtain rfl : usb = none := by simpa [swGnt] using hg
  obtain rfl : sw = some ⟨false, a, w⟩ := h
  simp [cycle, step, State.swRdata, State.memRdata, served]

/-! ### Runs -/

theorem mem_run (mem : BitVec 9 → BitVec 32) (rdata : BitVec 32) (is : List Cycle) :
    (Clocked.run cycle (State.reset mem rdata) is).mem = latest mem (writes is) := by
  induction is using List.reverseRecOn with
  | nil => rfl
  | append_singleton is i ih =>
      rw [Clocked.run_append]
      exact mem_cycle ih i

/-- The USB side's data stay what they are until its next read. -/
theorem usbRdata_run (r : State) (is : List Cycle) (h : ∀ i ∈ is, usbReads i = false) :
    (Clocked.run cycle r is).usbRdata = r.usbRdata := by
  induction is generalizing r with
  | nil => rfl
  | cons i is ih =>
      rw [Clocked.run_cons, ih _ fun j hj => h j (by simp [hj])]
      exact usbRdata_step_hold r i.1 i.2 (h i (by simp))

/-- The packet RAM behaves like one memory that serves the granted requests one after another:
the contents are the latest values, software gets one response exactly in the cycle after a
granted read, with the latest value, the USB side is always granted alone, and its read data are
the latest value at its last read however many cycles follow. -/
theorem two_port_memory (mem : BitVec 9 → BitVec 32) (rdata : BitVec 32) (is : List Cycle)
    (i : Cycle) :
    let r := Clocked.run cycle (State.reset mem rdata) is
    r.mem = latest mem (writes is) ∧
      ((cycle r i).swRvalid = true ↔ ∃ a w, i.2 = some ⟨false, a, w⟩ ∧ swGnt i.1 = true) ∧
      (∀ a w, i.2 = some ⟨false, a, w⟩ → swGnt i.1 = true →
        (cycle r i).swRdata = latest mem (writes is) a) ∧
      (∀ q, i.1 = some q → granted i = [q]) ∧
      (i.1 = none → granted i = i.2.toList) ∧
      (∀ as j bs a w, is ++ [i] = as ++ j :: bs → j.1 = some ⟨false, a, w⟩ →
        (∀ k ∈ bs, usbReads k = false) → (cycle r i).usbRdata = latest mem (writes as) a) := by
  intro r
  refine ⟨mem_run mem rdata is, swRvalid_cycle r i, ?_, ?_, ?_, ?_⟩
  · intro a w hread hgnt
    rw [swRdata_cycle r hread hgnt, mem_run]
  · intro q hq
    rw [granted_eq, hq]
    rfl
  · intro hnone
    rw [granted_eq, hnone]
    rfl
  · intro as j bs a w hsplit hread hquiet
    have hrun : cycle r i = Clocked.run cycle (State.reset mem rdata) (is ++ [i]) := by
      rw [Clocked.run_append]
      rfl
    rw [hrun, hsplit, Clocked.run_append, Clocked.run_cons, usbRdata_run _ _ hquiet,
      ← mem_run mem rdata as, cycle, hread]
    exact usbRdata_step_read _ a w j.2

/-- The USB side reads a word that software has written and writes it before software reads it
back. -/
theorem two_port_memory_writeRead :
    (cycle (Clocked.run cycle (State.reset (fun _ => 0) 0)
        [(none, some ⟨true, 5, 7⟩), (some ⟨false, 5, 0⟩, some ⟨false, 5, 0⟩),
          (some ⟨true, 5, 9⟩, some ⟨false, 5, 0⟩)])
      (none, some ⟨false, 5, 0⟩)).swRdata = 9 ∧
    (cycle (Clocked.run cycle (State.reset (fun _ => 0) 0)
        [(none, some ⟨true, 5, 7⟩), (some ⟨false, 5, 0⟩, some ⟨false, 5, 0⟩),
          (some ⟨true, 5, 9⟩, some ⟨false, 5, 0⟩)])
      (none, some ⟨false, 5, 0⟩)).usbRdata = 7 := by
  obtain ⟨-, -, hsw, -, -, husb⟩ := two_port_memory (fun _ => 0) 0
    [(none, some ⟨true, 5, 7⟩), (some ⟨false, 5, 0⟩, some ⟨false, 5, 0⟩),
      (some ⟨true, 5, 9⟩, some ⟨false, 5, 0⟩)] (none, some ⟨false, 5, 0⟩)
  constructor
  · exact hsw 5 0 rfl rfl
  · exact husb [(none, some ⟨true, 5, 7⟩)] (some ⟨false, 5, 0⟩, some ⟨false, 5, 0⟩)
      [(some ⟨true, 5, 9⟩, some ⟨false, 5, 0⟩), (none, some ⟨false, 5, 0⟩)] 5 0 rfl rfl (by decide)

end PacketRam

end UsbDev
