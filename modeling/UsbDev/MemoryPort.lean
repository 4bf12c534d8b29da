import UsbDev.Interface
import UsbDev.OutViews
import UsbDev.Traffic

/-!
# The memory port

The OUT engine writes the words of a received packet and the IN engine fetches
the words of a packet to send, over one port without an interlock. A word is
fetched only after an IN token or while a payload is sent, and then the OUT
engine is at rest: the token finds it there or ends what it does, the last byte
before the token is already written, and no other token ends before the payload
is complete.
-/
namespace UsbDev.FsRx

variable {s : State} {i : Input}

theorem dvalid_of_rxDataPut_step (h : rxDataPut (step s i) = true) : dvalid s = true := by
  by_contra hd
  have hbit : dvalid s = false := by simpa using hd
  have hput : rxDataPut (step s i) = false := by
    cases hl : i.linkReset with
    | true => simp [step, hl, State.reset, rxDataPut]
    | false =>
        rw [rxDataPut, step_rxDataBuffer s hl, rxDataBufferD, hbit]
        simp only [Bool.false_and, Bool.false_eq_true, if_false]
        split_ifs with hempty
        · decide
        · simp only [Bool.or_eq_true, not_or, Bool.not_eq_true] at hempty
          exact hempty.2
  rw [hput] at h
  exact absurd h (by decide)

/-- A byte is complete in the cycle after a sample, never in the cycle of one. -/
theorem not_valid_of_rxDataPut_step (h : rxDataPut (step s i) = true) :
    lineStateValid (step s i) = false := by
  have hphase := (dvalid_cases (dvalid_of_rxDataPut_step h)).1
  apply lineStateValid_of_ne
  obtain ⟨hnext, -, -⟩ | hnext := bitPhase_after_valid (i := i) hphase <;> rw [hnext] <;> decide

/-- So no packet ends in that cycle. -/
theorem packetEnd_of_not_valid (h : lineStateValid s = false) (i : Input) :
    packetEnd s i = false := by
  simp [packetEnd, packetValidD, h]

end UsbDev.FsRx

namespace UsbDev.Usbdev

open Clocked

variable {N : ℕ} [NeZero N]

/-- The receiver strobes no byte to the engines in the cycle in which a packet ends. -/
theorem rxOk_devInputs (R : ℕ) (dev : Device.State N) (inp : ℕ → Input N) (t : ℕ) :
    Device.RxOk (devInputs (State.reset R dev) inp t) := by
  have hput : FsRx.rxDataPut (traj step (State.reset R dev) inp t).rx = true →
      FsRx.lineStateValid (traj step (State.reset R dev) inp t).rx = false := by
    cases t with
    | zero => simp [State.reset, FsRx.State.reset, FsRx.rxDataPut]
    | succ t => exact FsRx.not_valid_of_rxDataPut_step
  exact ⟨fun h => FsRx.packetEnd_of_not_valid (hput h) _⟩

end UsbDev.Usbdev

namespace UsbDev.NbPe

section
variable {N : ℕ} [NeZero N] {s : State N} {i : Input N}

/-- An IN token has been received, or a payload is sent. -/
def Fetching (s : State N) : Prop :=
  s.inp.inEpNewpkt = true ∨ s.inp.inXactState = .rcvdIn ∨ s.inp.inXactState = .sendData

/-- The IN engine fetches words only while the OUT engine is at rest. -/
structure Apart (s : State N) : Prop where
  turnaround : Turnaround s
  put : FsRx.rxDataPut s.rx = true → FsRx.lineStateValid s.rx = false
  rest : Fetching s → s.out.outXactState = .idle ∧ s.out.outEpDataPut = false

theorem apart_reset : Apart (State.reset N) where
  turnaround := turnaround_reset
  put := by simp [State.reset, FsRx.State.reset, FsRx.rxDataPut]
  rest := fun _ => ⟨rfl, rfl⟩

/-- What makes the IN engine fetch. -/
theorem fetching_step (h : Fetching (step s i)) :
    (inInput s i).inTokenReceived = true ∨
      s.inp.inXactState = .rcvdIn ∨ s.inp.inXactState = .sendData := by
  obtain hnew | hrcvd | hsend := h
  · exact .inl hnew
  · exact .inl (rcvdIn_step hrcvd).1
  · obtain ⟨-, hnext⟩ := inXactState_step (s := s) (i := i) (by simp [hsend])
    obtain ⟨hs, -, -⟩ | ⟨hs, -⟩ := InPe.sendData_cases (hnext.symm.trans hsend)
    · exact .inr (.inl hs)
    · exact .inr (.inr hs)

/-- Without a token the OUT engine stays at rest. -/
theorem idle_step_of_not_token (hs : s.out.outXactState = .idle)
    (htok : ∀ d, (rxSignals s i).tokenReceived d = false) :
    (step s i).out.outXactState = .idle := by
  by_contra hne
  apply hne
  rw [(outXactState_step hne).2]
  have hnone : (outInput s i).rx.tokenReceived (outInput s i).devAddr = false := htok _
  simp [outComb, OutPe.comb, hs, OutPe.Input.outTokenReceived, OutPe.Input.setupTokenReceived,
    hnone]

theorem xactStart_of_inToken (h : (inInput s i).inTokenReceived = true) :
    (outComb s i).xactStart = false := by
  by_contra hx
  have hidle := OutPe.idle_of_xactStart (Bool.eq_true_of_not_eq_false hx)
  have hpid : (outInput s i).rx.pid = usbPidIn := by
    simp only [InPe.Input.inTokenReceived, Bool.and_eq_true, beq_iff_eq] at h
    exact h.2
  apply hx
  simp [outComb, OutPe.comb, hidle, OutPe.Input.outTokenReceived, OutPe.Input.setupTokenReceived,
    hpid, usbPidIn, usbPidOut, usbPidSetup]

theorem not_dataEnd_step (hs : s.out.outXactState = .idle) :
    (step s i).out.outXactState ≠ .rcvdDataEnd ∧ (step s i).out.outXactState ≠ .rcvdIsoDataEnd := by
  have hnot : ¬ ((step s i).out.outXactState = .rcvdDataEnd ∨
      (step s i).out.outXactState = .rcvdIsoDataEnd) := by
    intro hend
    obtain ⟨-, hnext⟩ := outXactState_step (s := s) (i := i)
      (by obtain hend | hend := hend <;> simp [hend])
    rw [hnext] at hend
    have hdata := (OutPe.dataPacket_of_dataEnd hend).1
    rw [hs] at hdata
    exact absurd hdata (by decide)
  exact not_or.1 hnot

theorem Apart.rest_step (h : Apart s) (hf : Fetching (step s i)) :
    (step s i).out.outXactState = .idle ∧ (step s i).out.outEpDataPut = false := by
  have hput : (step s i).out.outEpDataPut =
      (s.out.outXactState == .rcvdDataStart && FsRx.rxDataPut s.rx) := rfl
  obtain htoken | hsend := fetching_step hf
  · have htok : (rxSignals s i).tokenReceived i.devAddr = true := by
      simp only [InPe.Input.inTokenReceived, Bool.and_eq_true] at htoken
      exact htoken.1
    have hsample : FsRx.lineStateValid s.rx = true :=
      FsRx.lineStateValid_iff.2 (rxDataLen16_of_token htok).1
    constructor
    · by_contra hne
      have hnot := h.turnaround.outWaits.not_token (xactStart_of_inToken htoken) hne i.devAddr
      rw [htok] at hnot
      exact absurd hnot (by decide)
    · rw [hput, Bool.and_eq_false_iff]
      right
      rw [← Bool.not_eq_true]
      intro hbyte
      rw [h.put hbyte] at hsample
      exact absurd hsample (by decide)
  · obtain ⟨hidle, -⟩ := h.rest (.inr hsend)
    constructor
    · refine idle_step_of_not_token hidle fun d => ?_
      rw [← Bool.not_eq_true]
      intro htok
      obtain ⟨hin, -⟩ := h.turnaround.of_token htok
      obtain hs | hs := hsend <;> simp [hs] at hin
    · simp [hput, hidle]

theorem Apart.step (h : Apart s) (ho : i.txOscTestMode = false) : Apart (NbPe.step s i) where
  turnaround := h.turnaround.step ho
  put := FsRx.not_valid_of_rxDataPut_step
  rest := h.rest_step

end

end UsbDev.NbPe

namespace UsbDev.Interface

open Clocked

variable {N : ℕ} [NeZero N]

section
variable {s : State N} {i : Input N}

/-- While the IN engine fetches, nothing is left to write. -/
theorem not_writing_step (h : NbPe.Apart (nb s)) (hr : memRead (step s i) = true) :
    (step s i).out.stdWrite = false ∧ (step s i).out.pe.outXactState ≠ .rcvdDataEnd ∧
      (step s i).out.pe.outXactState ≠ .rcvdIsoDataEnd := by
  have hfetch : NbPe.Fetching (nb s) := by
    simp only [memRead, UsbIf.memRead, Bool.or_eq_true, Bool.and_eq_true] at hr
    obtain hnew | ⟨hget, -⟩ := hr
    · exact .inl hnew
    · have hsend : (s.inp.pe.inXactState == .sendData && FsTx.txDataGet s.tx) = true := hget
      simp only [Bool.and_eq_true, beq_iff_eq] at hsend
      exact .inr (.inr hsend.1)
  obtain ⟨hidle, hput⟩ := h.rest hfetch
  refine ⟨?_, NbPe.not_dataEnd_step (i := nbInput s i) hidle⟩
  change (if _ then false else UsbIf.stdWriteD s.out) = false
  rw [UsbIf.stdWriteD, show s.out.pe.outEpDataPut = false from hput]
  simp

end

theorem apart_stateAt {inp : ℕ → Input N} {t : ℕ} (ho : ∀ u < t, (inp u).txOscTestMode = false) :
    NbPe.Apart (nb (stateAt inp t)) := by
  induction t with
  | zero => exact NbPe.apart_reset
  | succ t ih =>
      rw [stateAt_succ, nb_step]
      exact (ih fun u hu => ho u (by omega)).step (ho t (by omega))

/-- As long as the oscillator test has not been on, a fetch has the memory port for itself. -/
theorem port_exclusive (inp : ℕ → Input N) (t : ℕ) (ho : ∀ u < t, (inp u).txOscTestMode = false)
    (hr : memRead (stateAt inp t) = true) :
    memWrite (stateAt inp t) (inp t) = false ∧
      memAddr (stateAt inp t) (inp t) = memRaddr (stateAt inp t) (inp t) := by
  have hwrite : memWrite (stateAt inp t) (inp t) = false := by
    cases t with
    | zero => exact absurd (show false = true from hr) (by decide)
    | succ t =>
        obtain ⟨hstd, hend⟩ := not_writing_step (apart_stateAt fun u hu => ho u (by omega)) hr
        rw [← stateAt_succ] at hstd hend
        have hacked : (UsbIf.outComb (stateAt inp (t + 1)).out
            (outInput (stateAt inp (t + 1)) (inp (t + 1)))).acked = false :=
          OutPe.acked_eq_false _ hend
        simp [memWrite, UsbIf.memWrite, hstd, hacked]
  exact ⟨hwrite, by rw [memAddr, hwrite]; rfl⟩

/-! ### A host on the line -/

open LineCode NbPe

/-- A cycle that shows a symbol to an attached device, whose only endpoint takes packets and has
one of 64 bytes to send. -/
def busInput (l : Line) : Input 1 where
  usbD := l == .j
  usbDp := l == .j
  usbDn := l == .k
  usbSense := true
  rxSetup := fun _ => false
  rxOut := fun _ => true
  rxStall := fun _ => false
  avsetupRvalid := true
  avsetupRdata := 0
  avoutRvalid := true
  avoutRdata := 1
  rxWreadySetup := true
  rxWreadyOut := true
  inBuf := 2
  inSize := 64
  inStall := fun _ => false
  inRdy := fun _ => true
  memRdata := 0
  usTick := false
  connectEn := true
  devaddr := 0
  inEpEnabled := fun _ => true
  outEpEnabled := fun _ => true
  outEpIso := fun _ => false
  inEpIso := fun _ => false
  diffRxOk := true
  cfgEopSingleBit := false
  cfgUseDiffRcvr := false
  cfgPinflip := false
  txOscTestMode := false
  outDatatog := none
  inDatatog := none
  resumeLinkActive := true

/-- An IN token after the link has become active. -/
def inTokenLines : List Line := List.replicate 7 .j ++ hostPacket (hostToken usbPidIn) ++ [.j]

/-- The first word is fetched two cycles after the token. -/
theorem port_exclusive_inToken :
    let inp := fun t => ((quickCycles .j inTokenLines).map busInput).getD t (busInput .j)
    memRead (stateAt inp 128) = true ∧ memWrite (stateAt inp 128) (inp 128) = false := by
  intro inp
  have hread : memRead (stateAt inp 128) = true := by
    have hstate : stateAt inp 128 = Clocked.run step (State.reset 1)
        (((quickCycles .j inTokenLines).map busInput).take 128) :=
      traj_getD _ _ _ _ (by decide +kernel)
    rw [hstate]
    decide +kernel
  refine ⟨hread, (port_exclusive inp 128 (fun u _ => ?_) hread).1⟩
  refine getD_of_forall (fun i : Input 1 => i.txOscTestMode = false) ?_ rfl u
  intro i hi
  obtain ⟨l, -, rfl⟩ := List.mem_map.1 hi
  rfl

/-- The oscillator test is on for one cycle just before the IN token ends: the transmitter sends
without driving the line, and a DATA packet is received while the payload is fetched. -/
def oscInputs : List (Input 1) :=
  let data := hostPacket (FsRx.pidBits usbPidData0 ++ List.replicate 16 false)
  (quickCycles .j (inTokenLines ++ List.replicate 3 .j ++ hostPacket (hostToken usbPidOut) ++
    .j :: data ++ [.j, .j])).mapIdx fun t l => { busInput l with txOscTestMode := t == 124 }

theorem collision_oscInputs :
    let s := Clocked.run step (State.reset 1) (oscInputs.take 352)
    memRead s = true ∧ memWrite s (oscInputs.getD 352 (busInput .j)) = true := by
  decide +kernel

theorem not_forall_port_exclusive :
    ¬ ∀ (inp : ℕ → Input 1) (t : ℕ), memRead (stateAt inp t) = true →
      memWrite (stateAt inp t) (inp t) = false := by
  intro hall
  have hstate : stateAt (fun t => oscInputs.getD t (busInput .j)) 352 =
      Clocked.run step (State.reset 1) (oscInputs.take 352) :=
    traj_getD _ _ _ _ (by decide +kernel)
  have hrun := hall (fun t => oscInputs.getD t (busInput .j)) 352
  rw [hstate] at hrun
  obtain ⟨hread, hwrite⟩ := collision_oscInputs
  rw [hrun hread] at hwrite
  exact absurd hwrite (by decide)

end UsbDev.Interface

namespace UsbDev.Usbdev

open Clocked

variable {N R : ℕ} [NeZero N]

/-- In the whole device every fetch reaches the packet RAM. -/
theorem usbReq_of_memRead {dev : Device.State N} (hdev : Fresh dev) (inp : ℕ → Input N) (t : ℕ)
    (ho : ∀ u < t, (inp u).txOscTestMode = false) :
    let s : State N R := traj step (State.reset R dev) inp t
    let i := devInput s (inp t)
    UsbIf.memRead s.dev.inp = true → Device.usbReq s.dev i =
      some ⟨false, UsbIf.memRaddr s.dev.inp (Device.inInput s.dev i), s.dev.out.wdata⟩ := by
  intro s i hr
  have hpart := interface_traj (R := R) hdev inp t
  have hport := Interface.port_exclusive
    (fun u => interfaceInput (traj step (State.reset R dev) inp u) (inp u)) t ho
  rw [← hpart] at hport
  have hwrite : UsbIf.memWrite s.dev.out (Device.outInput s.dev i) = false := (hport hr).1
  simp [Device.usbReq, hwrite, hr]

end UsbDev.Usbdev
