import UsbDev.Traffic

/-!
# Registers written from both sides

`rxenable_out` and `in_sent` are written by software and by hardware, sometimes
in the same cycle. For `rxenable_out` each write says for every endpoint whether
it takes part; for `in_sent` the arbiter lets software win.
-/
namespace UsbDev.Device

open Clocked UsbIf

section
variable {N : ℕ}

/-- Software enables reception on `e`: its `preserve` bit is 0 and its `out` bit is 1. -/
def EnablesOut (e : Fin N) (i : Input N) : Prop :=
  ∃ out preserve, i.sw.rxenableOut = some (out, preserve) ∧ preserve e = false ∧ out e = true

/-- Software writes a one to the `in_sent` bit of `e`. -/
def ClearsSent (e : Fin N) (i : Input N) : Prop := ∃ bits, i.sw.inSent = some bits ∧ bits e = true

variable [NeZero N] {s : State N} {i : Input N} {e : Fin N}

/-! ### Enabling OUT reception -/

/-- An OUT packet is accepted on `e`, and not a SETUP packet. -/
def outAccepted (e : Fin N) (s : State N) (i : Input N) : Bool :=
  rxWvalid s i && !currentSetup s.out && s.out.pe.outEpCurrent == e

/-- A write that preserves the bit of `e` leaves it to the hardware. -/
theorem rxenableOut_preserve {out preserve : Fin N → Bool}
    (h : i.sw.rxenableOut = some (out, preserve)) (hp : preserve e = true) :
    (step s i).rxenableOut e = if clearRxenableOut s i e then false else s.rxenableOut e := by
  simp [step, h, hp]

/-- Only software enables reception. -/
theorem rxenableOut_step (h : s.rxenableOut e = false ∨ clearRxenableOut s i e = true)
    (hw : ¬ EnablesOut e i) : (step s i).rxenableOut e = false := by
  have hkeep : (if clearRxenableOut s i e then false else s.rxenableOut e) = false := by
    obtain h | h := h <;> simp [h]
  match hs : i.sw.rxenableOut with
  | none => simpa [step, hs] using hkeep
  | some (out, preserve) =>
      cases hp : preserve e with
      | true => rw [rxenableOut_preserve hs hp, hkeep]
      | false =>
          have hout : out e = false := by
            rw [← Bool.not_eq_true]
            exact fun ho => hw ⟨out, preserve, hs, hp, ho⟩
          simp [step, hs, hp, hout]

/-- An OUT packet is accepted only with reception enabled. -/
theorem rxenableOut_of_accepted (h : outAccepted e s i = true) : s.rxenableOut e = true := by
  simp only [outAccepted, Bool.and_eq_true, Bool.not_eq_true', beq_iff_eq] at h
  obtain ⟨⟨hacked, hsetup⟩, rfl⟩ := h
  have hfull : outEpFull s.out (outInput s i) s.out.pe.outEpCurrent = false :=
    (OutPe.acked_cases hacked).2.2
  have hsetup' : s.out.pe.outEpSetup s.out.pe.outEpCurrent = false := hsetup
  simp only [outEpFull, hsetup', Bool.not_false, Bool.true_and, Bool.or_eq_false_iff,
    Bool.not_eq_false'] at hfull
  exact hfull.2

/-- With `set_nak_out` the packet takes the enable away. -/
theorem clearRxenableOut_of_accepted (h : outAccepted e s i = true)
    (hn : i.cfg.setNakOut e = true) : clearRxenableOut s i e = true := by
  simp only [outAccepted, Bool.and_eq_true, beq_iff_eq] at h
  simp [clearRxenableOut, h.1.1, h.2, hn]

/-- Without reception enabled nothing is accepted up to the next write that enables it. -/
theorem count_accepted_of_disabled (hs : s.rxenableOut e = false) (is : List (Input N))
    (hw : ∀ i ∈ is, ¬ EnablesOut e i) (i : Input N) :
    (outs step (outAccepted e) s (is ++ [i])).count true = 0 := by
  have hnone : ∀ (q : State N) (j : Input N), q.rxenableOut e = false →
      outAccepted e q j = false := by
    intro q j hq
    rw [← Bool.not_eq_true]
    intro h
    rw [rxenableOut_of_accepted h] at hq
    exact absurd hq (by decide)
  induction is generalizing s with
  | nil => simp [hnone s i hs]
  | cons j is ih =>
      have hstep := rxenableOut_step (i := j) (.inl hs) (hw j (by simp))
      rw [List.cons_append, outs_cons, hnone s j hs, List.count_cons_of_ne (by decide)]
      exact ih hstep fun k hk => hw k (by simp [hk])

/-- Up to the next write that enables reception one packet is accepted at most. -/
theorem count_accepted_le_one (s : State N) (is : List (Input N))
    (hn : ∀ i ∈ is, i.cfg.setNakOut e = true) (hw : ∀ i ∈ is, ¬ EnablesOut e i) (i : Input N) :
    (outs step (outAccepted e) s (is ++ [i])).count true ≤ 1 := by
  induction is generalizing s with
  | nil => exact List.count_le_length
  | cons j is ih =>
      have hn' : ∀ k ∈ is, k.cfg.setNakOut e = true := fun k hk => hn k (by simp [hk])
      have hw' : ∀ k ∈ is, ¬ EnablesOut e k := fun k hk => hw k (by simp [hk])
      rw [List.cons_append, outs_cons]
      cases ha : outAccepted e s j with
      | false =>
          rw [List.count_cons_of_ne (by decide)]
          exact ih _ hn' hw'
      | true =>
          have hclear := clearRxenableOut_of_accepted ha (hn j (by simp))
          have hstep := rxenableOut_step (.inr hclear) (hw j (by simp))
          rw [List.count_cons_self, count_accepted_of_disabled hstep is hw']

/-- From a write that enables reception on an endpoint with `set_nak_out`, which leaves the device
in `s`, to the next such write in the last cycle at most one OUT packet is accepted on it; and a
write that preserves its bit leaves the bit to the hardware. -/
theorem one_packet_per_enable (s : State N) (is : List (Input N)) (e : Fin N)
    (hnak : ∀ i ∈ is, i.cfg.setNakOut e = true) (hno : ∀ i ∈ is, ¬ EnablesOut e i)
    (last : Input N) :
    (outs step (outAccepted e) s (is ++ [last])).count true ≤ 1 ∧
      ∀ (q : State N) (i : Input N) (out preserve : Fin N → Bool),
        i.sw.rxenableOut = some (out, preserve) → preserve e = true →
          (step q i).rxenableOut e = if clearRxenableOut q i e then false else q.rxenableOut e :=
  ⟨count_accepted_le_one s is hnak hno last, fun _ _ _ _ => rxenableOut_preserve⟩

/-! ### The sent bits -/

/-- What a completed packet and a write leave in the bit. -/
theorem inSent_step (s : State N) (i : Input N) (e : Fin N) :
    (step s i).inSent e = true ↔ (setSentbit s i e = true ∨ s.inSent e = true) ∧ ¬ ClearsSent e i := by
  have hstep : (step s i).inSent e = subregW1C i.sw.inSent.isSome
      ((i.sw.inSent.getD fun _ => false) e) (setSentbit s i e) true (s.inSent e) := rfl
  rw [hstep, subregW1C, Bool.and_eq_true]
  refine and_congr ?_ ?_
  · cases setSentbit s i e <;> simp
  · match hs : i.sw.inSent with
    | none => simp [ClearsSent, hs]
    | some bits => cases hb : bits e <;> simp [ClearsSent, hs, hb]

theorem inSent_run {s : State N} (hs : s.inSent e = true) (is : List (Input N))
    (h : ∀ i ∈ is, ¬ ClearsSent e i) : (run step s is).inSent e = true :=
  run_invariant (fun s => s.inSent e = true) (fun i => ¬ ClearsSent e i)
    (fun s i hi hs => (inSent_step s i e).2 ⟨.inr hs, hi⟩) hs is h

/-- A completed transaction sets the bit unless software clears it in that very cycle, and the
bit then stays until software clears it. -/
theorem inSent_completion (s : State N) (i : Input N) (e : Fin N) (h : setSentbit s i e = true) :
    ((step s i).inSent e = true ↔ ¬ ClearsSent e i) ∧
      (¬ ClearsSent e i → ∀ is : List (Input N), (∀ j ∈ is, ¬ ClearsSent e j) →
        (run step (step s i) is).inSent e = true) := by
  have hiff : (step s i).inSent e = true ↔ ¬ ClearsSent e i := by
    rw [inSent_step, h]
    simp
  exact ⟨hiff, fun hno is => inSent_run (hiff.2 hno) is⟩

end

/-! ### Two packets and an acknowledgement -/

/-- An OUT packet of two bytes for endpoint 1 with `set_nak_out` everywhere. -/
def nakkedOut (pid : BitVec 4) : List (Input 12) :=
  ((tokenPacket usbPidOut 1).cycles ++ (dataPacket pid 1 [1, 2, 0, 0]).cycles ++
    [cycle (rxQuiet 1)]).map fun i : Input 12 =>
      { i with cfg := { i.cfg with setNakOut := fun _ => true } }

/-- The second of two packets is refused. -/
theorem one_packet_per_enable_twice :
    (outs step (outAccepted 1) suppliedDevice
      (nakkedOut usbPidData0 ++ nakkedOut usbPidData1 ++ [cycle (rxQuiet 1)])).count true = 1 := by
  refine le_antisymm (one_packet_per_enable suppliedDevice _ 1 ?_ ?_ _).1 (by decide +kernel)
  · decide +kernel
  · have hnone : ∀ i ∈ nakkedOut usbPidData0 ++ nakkedOut usbPidData1,
        i.sw.rxenableOut.isNone = true := by decide +kernel
    rintro i hi ⟨out, preserve, hs, -⟩
    have h := hnone i hi
    rw [hs] at h
    exact absurd h (by simp)

/-- An empty packet armed on endpoint 1, asked for and sent; its handshake has begun. -/
def sentPacket : List (Input 12) :=
  cycle (rxQuiet 1) { configin := some (1, ⟨4, 0, false, false, true⟩) } ::
    ((tokenPacket usbPidIn 1).cycles ++ [cycle (rxQuiet 1), cycle (rxQuiet 1),
      { cycle (rxQuiet 1) with txPktEnd := true }, cycle (rxStart 1)])

theorem reachable_sentPacket :
    Reachable step RxAllowed clearedDevice (run step clearedDevice sentPacket) := by
  refine Reachable.init.run sentPacket fun i hi _ => ?_
  have hput : ∀ i ∈ sentPacket, i.rx.dataPut = false := by decide +kernel
  exact ⟨by simp [hput i hi]⟩

theorem inSent_completion_ack :
    (step (run step clearedDevice sentPacket) (cycle (rxEnd usbPidAck 1))).inSent 1 = true := by
  refine (inSent_completion (run step clearedDevice sentPacket) (cycle (rxEnd usbPidAck 1)) 1
    (by decide +kernel)).1.2 ?_
  rintro ⟨bits, hs, -⟩
  cases hs

/-- A one written in the cycle of the acknowledgement hides it. -/
theorem not_forall_inSent :
    ¬ ∀ s : State 12, Reachable step RxAllowed clearedDevice s → ∀ i e,
      setSentbit s i e = true → (step s i).inSent e = true := by
  intro hall
  have h := hall _ reachable_sentPacket
    (cycle (rxEnd usbPidAck 1) { inSent := some fun _ => true }) 1 (by decide +kernel)
  exact ((inSent_step _ _ _).1 h).2 ⟨fun _ => true, rfl, rfl⟩

end UsbDev.Device
