import UsbDev.EngineTwins
import UsbDev.OutTransaction

/-!
# Aborted OUT and SETUP transactions

A run of bus cycles in which nothing is accepted is compared with the run in
which the bus was silent and software did the same. Both leave the same FIFOs
and registers behind, and from then on the two devices are indistinguishable:
`Alike` relates them through every later transaction.
-/
namespace UsbDev.Device

open Clocked UsbIf
open OutPe (XactState)

variable {N : ℕ} [NeZero N]

/-- The same cycle with a silent bus. -/
def hush (i : Input N) : Input N :=
  { i with
    rx := { i.rx with pktStart := false, pktEnd := false, dataPut := false }
    linkReset := false }

/-- What a cycle without acceptance does to the data toggles: a SETUP token clears that of its
endpoint, a link reset clears them all, and software writes those it selects. -/
def toggleEffect (toggle : Fin N → Bool) (i : Input N) : Fin N → Bool :=
  let setupToken := i.rx.tokenReceived i.cfg.devAddr && i.rx.pid == usbPidSetup &&
    (i.cfg.epOutEnable i.rx.epCurrentD && i.rx.epInHw N)
  let busy := if setupToken then Function.update toggle i.rx.epCurrentD false else toggle
  if i.linkReset then fun _ => false
  else match i.sw.outDatatog with
    | none => busy
    | some (status, mask) => fun e => (busy e && !mask e) || (status e && mask e)

/-- The device with other OUT data toggles. -/
def withToggles (s : State N) (toggle : Fin N → Bool) : State N :=
  { s with out := { s.out with pe := { s.out.pe with dataToggle := toggle } } }

/-- The same buffers, entries and OUT registers outside the engine. -/
structure Kept (s s' : State N) : Prop where
  avsetup : s.avsetup = s'.avsetup
  avout : s.avout = s'.avout
  rxFifo : s.rxFifo = s'.rxFifo
  rxenableOut : s.rxenableOut = s'.rxenableOut
  outStall : s.outStall = s'.outStall
  inStall : s.inStall = s'.inStall
  avsetupRready : s.out.avsetupRready = s'.out.avsetupRready
  avoutRready : s.out.avoutRready = s'.out.avoutRready

theorem setupReceived_eq_false {s : State N} {i : Input N} (h : rxWvalid s i = false) :
    setupReceived s i = false := by
  have h' : UsbIf.rxWvalid s.out (outInput s i) = false := h
  simp [setupReceived, UsbIf.setupReceived, h']

/-- Cycles in which neither device accepts a packet, with the same software accesses. -/
theorem Kept.step {s s' : State N} {i j : Input N} (h : Kept s s') (hsw : i.sw = j.sw)
    (ha : rxWvalid s i = false) (ha' : rxWvalid s' j = false) :
    Kept (step s i) (step s' j) where
  avsetup := by
    have hin : avsetupIn s i = avsetupIn s' j := by simp [avsetupIn, hsw, h.avsetupRready]
    change s.avsetup.step (avsetupIn s i) = s'.avsetup.step (avsetupIn s' j)
    rw [h.avsetup, hin]
  avout := by
    have hin : avoutIn s i = avoutIn s' j := by simp [avoutIn, hsw, h.avoutRready]
    change s.avout.step (avoutIn s i) = s'.avout.step (avoutIn s' j)
    rw [h.avout, hin]
  rxFifo := by
    change s.rxFifo.step (rxFifoIn s i) = s'.rxFifo.step (rxFifoIn s' j)
    rw [h.rxFifo]
    apply SyncFifo.State.step_congr <;> simp [rxFifoIn, hsw, ha, ha']
  rxenableOut := by
    funext e
    simp [Device.step, clearRxenableOut, ha, ha', hsw, h.rxenableOut]
  outStall := by
    funext e
    simp [Device.step, setupReceived_eq_false ha, setupReceived_eq_false ha', hsw, h.outStall]
  inStall := by
    funext e
    simp [Device.step, setupReceived_eq_false ha, setupReceived_eq_false ha', hsw, h.inStall]
  avsetupRready := by
    have h1 := avRready_step s i true
    have h2 := avRready_step s' j true
    rw [ha, Bool.false_and] at h1
    rw [ha', Bool.false_and] at h2
    exact h1.trans h2.symm
  avoutRready := by
    have h1 := avRready_step s i false
    have h2 := avRready_step s' j false
    rw [ha, Bool.false_and] at h1
    rw [ha', Bool.false_and] at h2
    exact h1.trans h2.symm

/-- Without acceptance the toggles change as `toggleEffect` says. -/
theorem dataToggle_step {s : State N} {i : Input N} (ha : rxWvalid s i = false) :
    (step s i).out.pe.dataToggle = toggleEffect s.out.pe.dataToggle i := by
  have hack : (OutPe.comb s.out.pe (peInput s i)).acked = false := ha
  have hnew : (OutPe.comb s.out.pe (peInput s i)).newPktEnd = false := by
    rw [OutPe.newPktEnd_eq_acked, hack]
  have hstep : (step s i).out.pe.dataToggle =
      if i.linkReset then fun _ => false else OutPe.dataToggleD s.out.pe (peInput s i) := rfl
  rw [hstep]
  unfold toggleEffect
  split_ifs with hl
  · rfl
  · simp only [OutPe.dataToggleD, hnew]
    rfl

/-! ### Indistinguishable devices -/

/-- Two devices whose engines proceed alike. Between packets they may differ in their put address,
the byte on its way, their flags for the last endpoint and the word register, and always in their
length counters and RAMs. -/
structure Alike (s s' : State N) : Prop where
  kept : Kept s s'
  phase : phase s = phase s'
  dataToggle : s.out.pe.dataToggle = s'.out.pe.dataToggle
  dataPut : Device.phase s ≠ .idle → s.out.pe.outEpDataPut = s'.out.pe.outEpDataPut
  bounded : Bounded s
  bounded' : Bounded s'
  current : Device.phase s ≠ .idle → s.out.pe.outEpCurrent = s'.out.pe.outEpCurrent ∧
    s.out.pe.currentXactSetup = s'.out.pe.currentXactSetup ∧
    currentSetup s.out = currentSetup s'.out
  timeout : Device.phase s = .rcvdOut → s.out.pe.timeoutCntdown = s'.out.pe.timeoutCntdown
  data : Device.phase s ≠ .idle → Device.phase s ≠ .rcvdOut →
    s.out.pe.nakOutTransaction = s'.out.pe.nakOutTransaction ∧
    s.out.pe.outEpPutAddr = s'.out.pe.outEpPutAddr

theorem not_idle_of_acked {s : State N} {i : Input N} (ha : rxWvalid s i = true) :
    phase s ≠ .idle := by
  intro hs
  have := (OutPe.acked_cases ha).1
  unfold phase at hs
  simp [hs] at this

namespace Alike

variable {s s' : State N}

omit [NeZero N] in
theorem full_eq (h : Alike s s') (hs : Device.phase s ≠ .idle) (i : Input N) :
    (peInput s i).full s.out.pe.outEpCurrent = (peInput s' i).full s'.out.pe.outEpCurrent := by
  obtain ⟨hcur, -, hcs⟩ := h.current hs
  have hblocked : allOutBlocked s.out (outInput s i) = allOutBlocked s'.out (outInput s' i) := by
    simp only [allOutBlocked, rxWready, avRvalid, hcs, outInput, rxWreadyOut, h.kept.rxFifo,
      h.kept.avsetup, h.kept.avout]
  have hsetup : s.out.pe.outEpSetup s.out.pe.outEpCurrent =
      s'.out.pe.outEpSetup s'.out.pe.outEpCurrent := hcs
  change outEpFull s.out (outInput s i) _ = outEpFull s'.out (outInput s' i) _
  simp only [outEpFull, hblocked, hsetup]
  simp only [outInput, h.kept.rxenableOut, hcur]

omit [NeZero N] in
theorem twin (h : Alike s s') : OutPe.Twin s.out.pe s'.out.pe where
  phase := h.phase
  dataToggle := h.dataToggle
  current := h.current
  timeout := h.timeout
  data := h.data

omit [NeZero N] in
theorem agree (h : Alike s s') (i : Input N) : (peInput s i).Agree (peInput s' i) where
  linkReset := rfl
  devAddr := rfl
  enabled := rfl
  control := rfl
  stall := h.kept.outStall
  iso := rfl
  datatog := rfl
  rx := .refl i.rx

/-- The engines decide alike. -/
theorem comb_eq (h : Alike s s') (i : Input N) :
    OutPe.comb s.out.pe (peInput s i) = OutPe.comb s'.out.pe (peInput s' i) :=
  h.twin.comb_eq (h.agree i) (fun _ => rfl) fun hs => h.full_eq hs i

theorem twin_step (h : Alike s s') (i : Input N) :
    OutPe.Twin (step s i).out.pe (step s' i).out.pe :=
  h.twin.step (h.agree i) h.dataPut (fun _ => rfl) fun hs => h.full_eq hs i

/-- The put addresses that are read in the next cycle. -/
theorem putAddr_step (h : Alike s s') (i : Input N) (hs : Device.phase s ≠ .idle) :
    (step s i).out.pe.outEpPutAddr = (step s' i).out.pe.outEpPutAddr := by
  have hpe : (OutPe.step s.out.pe (peInput s i)).outEpPutAddr =
      (OutPe.step s'.out.pe (peInput s' i)).outEpPutAddr :=
    (h.twin.data_step h.dataPut (fun hs => h.full_eq hs i) hs).2
  exact hpe

theorem rxWvalid_eq (h : Alike s s') (i : Input N) : rxWvalid s i = rxWvalid s' i := by
  rw [Device.rxWvalid_eq, Device.rxWvalid_eq, h.comb_eq i]

theorem outTx_eq (h : Alike s s') (i : Input N) : outTx s i = outTx s' i := by
  have hcomb : outComb s.out (outInput s i) = outComb s'.out (outInput s' i) := h.comb_eq i
  simp only [outTx, hcomb]

/-- An accepted packet of the same length is posted in the same entry. -/
theorem rxWdata_eq (h : Alike s s') (i : Input N) (ha : rxWvalid s i = true)
    (hu : s.out.outMaxUsed = s'.out.outMaxUsed) : rxWdata s i = rxWdata s' i := by
  obtain ⟨hcur, -, hcs⟩ := h.current (not_idle_of_acked ha)
  simp only [rxWdata, UsbIf.rxWdata, avRdata, hcs, hcur, hu, outInput, h.kept.avsetup,
    h.kept.avout]

theorem rxPush_eq (h : Alike s s') (i : Input N)
    (hu : rxWvalid s i = true → s.out.outMaxUsed = s'.out.outMaxUsed) :
    rxPush s i = rxPush s' i := by
  cases ha : rxWvalid s i with
  | false => simp [rxPush, ha, ← h.rxWvalid_eq i]
  | true => simp [rxPush, ← h.rxWvalid_eq i, ha, h.kept.rxFifo, h.rxWdata_eq i ha (hu ha)]

theorem step_kept (h : Alike s s') (i : Input N)
    (hu : rxWvalid s i = true → s.out.outMaxUsed = s'.out.outMaxUsed) :
    Kept (step s i) (step s' i) := by
  cases ha : rxWvalid s i with
  | false => exact h.kept.step rfl ha (by rw [← h.rxWvalid_eq i, ha])
  | true =>
      obtain ⟨hcur, -, hcs⟩ := h.current (not_idle_of_acked ha)
      have ha' : rxWvalid s' i = true := by rw [← h.rxWvalid_eq i, ha]
      have hsetup : setupReceived s i = setupReceived s' i := by
        change (currentSetup s.out && rxWvalid s i) = (currentSetup s'.out && rxWvalid s' i)
        rw [ha, ha', hcs]
      constructor
      · change s.avsetup.step (avsetupIn s i) = s'.avsetup.step (avsetupIn s' i)
        rw [h.kept.avsetup]
        simp [avsetupIn, h.kept.avsetupRready]
      · change s.avout.step (avoutIn s i) = s'.avout.step (avoutIn s' i)
        rw [h.kept.avout]
        simp [avoutIn, h.kept.avoutRready]
      · change s.rxFifo.step (rxFifoIn s i) = s'.rxFifo.step (rxFifoIn s' i)
        rw [h.kept.rxFifo]
        simp [rxFifoIn, ha, ha', h.rxWdata_eq i ha (hu ha)]
      · funext e
        simp [Device.step, clearRxenableOut, ha, ha', hcur, h.kept.rxenableOut]
      · funext e
        simp [Device.step, hsetup, hcur, h.kept.outStall]
      · funext e
        simp [Device.step, hsetup, hcur, h.kept.inStall]
      · have h1 := avRready_step s i true
        have h2 := avRready_step s' i true
        rw [ha, hcs] at h1
        rw [ha'] at h2
        exact h1.trans h2.symm
      · have h1 := avRready_step s i false
        have h2 := avRready_step s' i false
        rw [ha, hcs] at h1
        rw [ha'] at h2
        exact h1.trans h2.symm

/-- Alike devices stay alike, if an accepted packet has the same length in both. -/
theorem step (h : Alike s s') {i : Input N} (hi : RxOk i)
    (hu : rxWvalid s i = true → s.out.outMaxUsed = s'.out.outMaxUsed) :
    Alike (Device.step s i) (Device.step s' i) where
  kept := h.step_kept i hu
  phase := (h.twin_step i).phase
  dataToggle := (h.twin_step i).dataToggle
  dataPut := fun _ => by rw [dataPut_step, dataPut_step, h.phase]
  bounded := h.bounded.step hi
  bounded' := h.bounded'.step hi
  current := (h.twin_step i).current
  timeout := (h.twin_step i).timeout
  data := (h.twin_step i).data

omit [NeZero N] in
theorem avQueue_eq (h : Alike s s') (setup : Bool) : avQueue s setup = avQueue s' setup := by
  simp only [avQueue, h.kept.avsetup, h.kept.avout]

omit [NeZero N] in
/-- After a run without acceptance that ends between transactions, the device differs from
the one that saw a silent bus at most in its toggles and in what is dead or counted. -/
theorem of_kept (hk : Kept s s') (hc : Bounded s) (hc' : Bounded s')
    (hs : Device.phase s = .idle) (hs' : Device.phase s' = .idle) :
    Alike s (withToggles s' s.out.pe.dataToggle) where
  kept := { hk with }
  phase := hs.trans hs'.symm
  dataToggle := rfl
  dataPut := fun hn => absurd hs hn
  bounded := hc
  bounded' := ⟨hc'.dataPut, hc'.outMaxUsed⟩
  current := fun hn => absurd hs hn
  timeout := fun hr => by simp [hs] at hr
  data := fun hn => absurd hs hn

/-- Between packets the length counters are equal, or as they were. -/
theorem count_step {i : Input N} (h : Alike s s')
    (hn : Device.phase (Device.step s i) = .idle ∨ Device.phase (Device.step s i) = .rcvdOut) :
    count (Device.step s i) = count (Device.step s' i) ∨
      (Device.phase s = .idle ∨ Device.phase s = .rcvdOut) ∧
        count (Device.step s i) = count s ∧ count (Device.step s' i) = count s' := by
  by_cases hs : Device.phase s = .idle ∨ Device.phase s = .rcvdOut
  · have hs' := hs
    rw [h.phase] at hs'
    cases hl : i.linkReset with
    | true =>
        have hd : Device.phase s ≠ .rcvdDataStart := by rcases hs with hs | hs <;> simp [hs]
        have hd' : Device.phase s' ≠ .rcvdDataStart := by rwa [← h.phase]
        left
        simp [count, dataPut_step, hd, hd', Device.outMaxUsed_step, hl]
    | false => exact .inr ⟨hs, h.bounded.count_step hs hl, h.bounded'.count_step hs' hl⟩
  · simp only [not_or] at hs
    have hput : (Device.step s i).out.pe.outEpDataPut = (Device.step s' i).out.pe.outEpDataPut := by
      rw [dataPut_step, dataPut_step, h.phase]
    have hzero : (Device.step s i).out.outMaxUsed = (Device.step s' i).out.outMaxUsed := by
      rw [Device.outMaxUsed_step, Device.outMaxUsed_step]
      by_cases hl : i.linkReset = true
      · simp [hl]
      · rw [phase_step, if_neg hl] at hn
        have hended := OutPe.ended_of_data hs.1 hs.2 hn
        have hended' := hended
        rw [h.comb_eq i] at hended'
        rw [outMaxUsedD_of_ended hended, outMaxUsedD_of_ended hended']
    left
    rw [count, count, hput, hzero, h.putAddr_step i hs.1]

end Alike

/-! ### Length counters -/

/-- Two devices whose length counters make no difference: before the first byte of a packet, of
which `seen` tells, neither of them is jammed, and then they are equal. -/
structure Matched (seen : Bool) (s s' : State N) : Prop extends Alike s s' where
  jammed : Device.phase s = .idle ∨ Device.phase s = .rcvdOut → (Jammed s ↔ Jammed s')
  used : Device.phase s = .rcvdDataStart → s.out.outMaxUsed = s'.out.outMaxUsed ∨
    (s.out.outMaxUsed.toNat < 63 ∧ s'.out.outMaxUsed.toNat < 63) ∧
      (seen = true → s.out.pe.outEpDataPut = true)
  last : Device.phase s = .rcvdDataEnd ∨ Device.phase s = .rcvdIsoDataEnd →
    s.out.outMaxUsed = s'.out.outMaxUsed

namespace Matched

variable {seen : Bool} {s s' : State N} {i : Input N}

theorem outMaxUsed_of_acked (h : Matched seen s s') (ha : rxWvalid s i = true) :
    s.out.outMaxUsed = s'.out.outMaxUsed :=
  h.last (OutPe.acked_cases ha).1

/-- The counters of a packet that goes on: they are equal once a byte has passed. -/
theorem outMaxUsed_step (h : Matched seen s s') (hs : phase s = .rcvdDataStart)
    (hack : (OutPe.comb s.out.pe (peInput s i)).acked = false)
    (hroll : (OutPe.comb s.out.pe (peInput s i)).rollback = false) (hl : i.linkReset = false) :
    (step s i).out.outMaxUsed = (step s' i).out.outMaxUsed ∨
      ((step s i).out.outMaxUsed.toNat < 63 ∧ (step s' i).out.outMaxUsed.toNat < 63) ∧
        seen = false := by
  have hcomb := h.comb_eq i
  have hput := h.dataPut (by simp [hs])
  obtain ⟨-, haddr⟩ := h.data (by simp [hs]) (by simp [hs])
  have hack' := hack
  have hroll' := hroll
  rw [hcomb] at hack' hroll'
  rw [Device.outMaxUsed_step, Device.outMaxUsed_step, if_neg (by simp [hl]),
    if_neg (by simp [hl]), outMaxUsedD_of_open hack hroll, outMaxUsedD_of_open hack' hroll',
    ← hput, ← haddr]
  obtain heq | ⟨⟨hu, hu'⟩, hseen⟩ := h.used hs
  · left
    rw [heq]
  · cases hd : s.out.pe.outEpDataPut with
    | true =>
        left
        simp [hu, hu']
    | false =>
        right
        simp only [Bool.false_eq_true, if_false]
        refine ⟨⟨hu, hu'⟩, ?_⟩
        rw [← Bool.not_eq_true]
        exact fun ht => by simp [hseen ht] at hd

/-- A cycle of two devices whose counters make no difference. -/
theorem step (h : Matched seen s s') (hi : RxOk i)
    (hb : phase s = .rcvdDataStart → i.rx.dataPacketReceived = true → seen = true) :
    Matched (byteSeen seen i) (Device.step s i) (Device.step s' i) := by
  refine ⟨h.toAlike.step hi h.outMaxUsed_of_acked, ?_, ?_, ?_⟩
  · intro hn
    obtain heq | ⟨hs, heq, heq'⟩ := h.count_step hn
    · rw [Jammed, Jammed, heq]
    · rw [Jammed, Jammed, heq, heq']
      exact h.jammed hs
  · intro hn
    have hl : i.linkReset = false := by
      rw [← Bool.not_eq_true]
      exact fun hl => by simp [phase_step, hl] at hn
    cases hs : phase s with
    | idle =>
        rcases phase_step_idle_end hs (i := i) with hn' | ⟨hn', -⟩ <;> simp [hn'] at hn
    | rcvdOut =>
        have hs' : phase s' = .rcvdOut := h.phase.symm.trans hs
        have hstart : i.rx.pktStart = true := by
          rw [phase_step_rcvdOut hs] at hn
          by_contra hstart
          split_ifs at hn
        rw [h.bounded.outMaxUsed_step (.inr hs) hl, h.bounded'.outMaxUsed_step (.inr hs') hl]
        have hle := h.bounded.count_le (.inr hs)
        have hle' := h.bounded'.count_le (.inr hs')
        have hj := h.jammed (.inr hs)
        by_cases hjam : Jammed s
        · exact .inl (hjam.trans (hj.1 hjam).symm)
        · have hne : (count s).toNat ≠ 63 := fun heq => hjam (BitVec.eq_of_toNat_eq heq)
          have hne' : (count s').toNat ≠ 63 := fun heq =>
            hjam (hj.2 (BitVec.eq_of_toNat_eq heq))
          refine .inr ⟨⟨by omega, by omega⟩, fun hseen => ?_⟩
          simp [byteSeen, hstart] at hseen
    | rcvdDataStart =>
        have he : i.rx.pktEnd = false := by
          rw [← Bool.not_eq_true]
          intro he
          rcases phase_step_dataStart_end hs he with hn' | hn' | hn' <;> simp [hn'] at hn
        have hcomb := OutPe.comb_dataStart_of_not_end (i := peInput s i) he hs
        obtain heq | ⟨hlt, hunseen⟩ :=
          h.outMaxUsed_step (i := i) hs (by rw [hcomb]) (by rw [hcomb]) hl
        · exact .inl heq
        · refine .inr ⟨hlt, fun hseen => ?_⟩
          simp only [byteSeen, hunseen, Bool.false_or, Bool.and_eq_true] at hseen
          rw [dataPut_step, hs, hseen.2]
          rfl
    | rcvdDataEnd => simp [phase_step_dataEnd (.inl hs)] at hn
    | rcvdIsoDataEnd => simp [phase_step_dataEnd (.inr hs)] at hn
  · intro hn
    obtain ⟨hl, hroll, -, -⟩ := step_of_dataEnd hn
    rw [phase_step, if_neg (by simp [hl])] at hn
    obtain ⟨hs, hdata, -, -⟩ := OutPe.dataPacket_of_dataEnd hn
    have hs : phase s = .rcvdDataStart := hs
    have hack : (OutPe.comb s.out.pe (peInput s i)).acked = false :=
      rxWvalid_eq_false i (by simp [hs])
    obtain heq | ⟨-, hunseen⟩ := h.outMaxUsed_step (i := i) hs hack hroll hl
    · exact heq
    · rw [hb hs hdata] at hunseen
      exact Bool.noConfusion hunseen

/-- Such devices answer alike and post the same entries, whatever follows. -/
theorem outs_eq (h : Matched seen s s') (is : List (Input N)) (hi : ∀ i ∈ is, RxOk i)
    (hb : HasBytes seen is) :
    outs Device.step (fun s i => (outTx s i, rxPush s i)) s is =
      outs Device.step (fun s i => (outTx s i, rxPush s i)) s' is := by
  induction is generalizing seen s s' with
  | nil => rfl
  | cons i is ih =>
      have hnext := h.step (hi i (by simp)) fun _ => hb.1
      rw [outs_cons, outs_cons, h.outTx_eq i, h.rxPush_eq i h.outMaxUsed_of_acked,
        ih hnext (fun j hj => hi j (by simp [hj])) hb.2]

/-- While no packet ends. -/
theorem run_of_not_end (h : Matched seen s s') (is : List (Input N)) (hi : ∀ i ∈ is, RxOk i)
    (he : ∀ i ∈ is, i.rx.pktEnd = false) :
    ∃ seen', Matched seen' (Clocked.run Device.step s is) (Clocked.run Device.step s' is) := by
  induction is generalizing seen s s' with
  | nil => exact ⟨seen, h⟩
  | cons i is ih =>
      refine ih (h.step (hi i (by simp)) fun _ hd => ?_) (fun j hj => hi j (by simp [hj]))
        fun j hj => he j (by simp [hj])
      simp [he i (by simp)] at hd

end Matched

/-- Two devices whose length counters are equal. -/
structure Level (s s' : State N) : Prop extends Alike s s' where
  count : Device.phase s = .idle ∨ Device.phase s = .rcvdOut → Device.count s = Device.count s'
  used : Device.phase s ≠ .idle → Device.phase s ≠ .rcvdOut → s.out.outMaxUsed = s'.out.outMaxUsed

namespace Level

variable {s s' : State N} {i : Input N}

theorem outMaxUsed_of_acked (h : Level s s') (ha : rxWvalid s i = true) :
    s.out.outMaxUsed = s'.out.outMaxUsed := by
  refine h.used (not_idle_of_acked ha) fun hs => ?_
  have hphase : phase s = .rcvdDataEnd ∨ phase s = .rcvdIsoDataEnd := (OutPe.acked_cases ha).1
  simp [hs] at hphase

theorem step (h : Level s s') (hi : RxOk i) : Level (Device.step s i) (Device.step s' i) := by
  refine ⟨h.toAlike.step hi h.outMaxUsed_of_acked, ?_, ?_⟩
  · intro hn
    obtain heq | ⟨hs, heq, heq'⟩ := h.count_step hn
    · exact heq
    · rw [heq, heq']
      exact h.count hs
  · intro hn hn'
    have hl : i.linkReset = false := by
      rw [← Bool.not_eq_true]
      exact fun hl => hn (by simp [phase_step, hl])
    cases hs : phase s with
    | idle => obtain hnext | ⟨hnext, -⟩ := phase_step_idle_end (i := i) hs <;> simp [hnext] at hn hn'
    | rcvdOut =>
        have hs' : phase s' = .rcvdOut := h.phase.symm.trans hs
        rw [h.bounded.outMaxUsed_step (.inr hs) hl, h.bounded'.outMaxUsed_step (.inr hs') hl]
        exact h.count (.inr hs)
    | rcvdDataStart =>
        obtain ⟨-, haddr⟩ := h.data (by simp [hs]) (by simp [hs])
        have hused := h.used (by simp [hs]) (by simp [hs])
        have hput := h.dataPut (by simp [hs])
        rw [Device.outMaxUsed_step, Device.outMaxUsed_step, outMaxUsedD, outMaxUsedD, outComb_eq,
          outComb_eq, h.comb_eq i, hput, haddr, hused]
    | rcvdDataEnd => exact absurd (phase_step_dataEnd (.inl hs)) hn
    | rcvdIsoDataEnd => exact absurd (phase_step_dataEnd (.inr hs)) hn

theorem outs_eq (h : Level s s') (is : List (Input N)) (hi : ∀ i ∈ is, RxOk i) :
    outs Device.step (fun s i => (outTx s i, rxPush s i)) s is =
      outs Device.step (fun s i => (outTx s i, rxPush s i)) s' is := by
  refine outs_related Level RxOk ?_ ?_ h is hi
  · intro s s' i hi h
    exact h.step hi
  · intro s s' i _ h
    rw [h.outTx_eq i, h.rxPush_eq i h.outMaxUsed_of_acked]

end Level

/-! ### Aborted transactions -/

/-- No packet is accepted. -/
def NoAck (s : State N) (is : List (Input N)) : Prop := ∀ a ∈ outs step rxWvalid s is, a = false

omit [NeZero N] in
theorem rxOk_hush (i : Input N) : RxOk (hush i) := ⟨fun h => Bool.noConfusion h⟩

/-- A run without acceptance beside the run with a silent bus. -/
theorem run_hush {s s' : State N} (hk : Kept s s') (hs' : phase s' = .idle)
    (is : List (Input N)) (hno : NoAck s is) :
    Kept (run step s is) (run step s' (is.map hush)) ∧
      phase (run step s' (is.map hush)) = .idle ∧
      (run step s is).out.pe.dataToggle = is.foldl toggleEffect s.out.pe.dataToggle ∧
      (run step s' (is.map hush)).out.pe.dataToggle =
        (is.map hush).foldl toggleEffect s'.out.pe.dataToggle := by
  induction is generalizing s s' with
  | nil => exact ⟨hk, hs', rfl, rfl⟩
  | cons i is ih =>
      simp only [NoAck, outs_cons, List.mem_cons, forall_eq_or_imp] at hno
      obtain ⟨ha, hno⟩ := hno
      have ha' : rxWvalid s' (hush i) = false := rxWvalid_eq_false _ (by simp [hs'])
      have hnext : phase (step s' (hush i)) = .idle := phase_step_idle hs' rfl
      have h := ih (hk.step (i := i) (j := hush i) rfl ha ha') hnext hno
      simpa only [run_cons, List.map_cons, List.foldl_cons, dataToggle_step ha,
        dataToggle_step ha'] using h

omit [NeZero N] in
/-- A cycle that is neither a link reset nor the end of a SETUP token does to the toggles what
software does. -/
theorem toggleEffect_hush [NeZero N] (toggle : Fin N → Bool) {i : Input N}
    (hl : i.linkReset = false)
    (ht : (i.rx.tokenReceived i.cfg.devAddr && i.rx.pid == usbPidSetup) = false) :
    toggleEffect toggle (hush i) = toggleEffect toggle i := by
  have hh : ((hush i).rx.tokenReceived (hush i).cfg.devAddr &&
      (hush i).rx.pid == usbPidSetup) = false := by
    simp [hush, RxSignals.tokenReceived]
  have hlh : (hush i).linkReset = false := rfl
  simp only [toggleEffect, ht, hh, hl, hlh]
  rfl

/-- A silent bus leaves the length counter alone. -/
theorem count_run_hush {s : State N} (hc : Bounded s) (hs : phase s = .idle)
    (is : List (Input N)) : count (run step s (is.map hush)) = count s := by
  have hinv : Bounded (run step s (is.map hush)) ∧ phase (run step s (is.map hush)) = .idle ∧
      count (run step s (is.map hush)) = count s := by
    refine run_invariant (fun s' : State N => Bounded s' ∧ phase s' = .idle ∧ count s' = count s)
      (fun i => ∃ j : Input N, i = hush j) ?_ ⟨hc, hs, rfl⟩ (is.map hush) ?_
    · rintro s' _ ⟨j, rfl⟩ ⟨hc', hs', heq⟩
      exact ⟨hc'.step (rxOk_hush j), phase_step_idle hs' rfl,
        (hc'.count_step (.inl hs') rfl).trans heq⟩
    · intro i hi
      obtain ⟨j, -, rfl⟩ := List.mem_map.mp hi
      exact ⟨j, rfl⟩
  exact hinv.2.2

/-! ### What a transaction stores -/

/-- The device with another packet RAM. -/
def withMem (s : State N) (mem : BitVec 9 → BitVec 32) : State N :=
  { s with ram := { s.ram with mem := mem } }

namespace OutTransaction

variable (x : OutTransaction N) {s s' : State N} {b : BitVec 5}

/-- The first 64 bytes of the payload are in buffer `b` in the end, whatever the RAM held when the
DATA packet started. -/
def Stores (x : OutTransaction N) (s : State N) (b : BitVec 5) (payload : List (BitVec 8)) : Prop :=
  ∀ mem, bufferBytes (run step (withMem (x.started s) mem) x.rest).ram.mem b
    (min payload.length 64) = payload.take 64

/-- The DATA packet is received alike from its first cycle on. -/
theorem alike_answer {seen : Bool} (h : Matched seen s s') (hu : x.Undisturbed b)
    (hs : Listening (x.ending s)) : Alike (x.answer s) (x.answer s') := by
  obtain ⟨seen', hend⟩ := h.run_of_not_end x.data.body (fun i hi => hu.rxOk i (by simp [window,
    Packet.front, hi])) x.data.body_pktEnd
  refine hend.toAlike.step (hu.rxOk _ (by simp [window])) fun ha => ?_
  have hquiet := rxWvalid_of_listening hs x.data.last
  rw [ending] at hquiet
  rw [hquiet] at ha
  exact Bool.noConfusion ha

theorem listening_ending (hs : phase s = .rcvdDataStart) : Listening (x.ending s) :=
  run_invariant Listening (fun i => i.rx.pktEnd = false) (fun _ _ hi h => listening_step h hi)
    (.inr (.inr hs)) x.data.body x.data.body_pktEnd

/-- The transaction proceeds alike up to the first cycle of its DATA packet. -/
theorem matched_started {seen : Bool} (h : Matched seen s s') (hs : phase s = .idle)
    (hu : x.Undisturbed b) : ∃ seen', Matched seen' (x.started s) (x.started s') := by
  have hfront : ∀ i ∈ x.token.front, RxOk i := fun i hi => hu.rxOk i (by simp [Packet.cycles, hi])
  have hgap : ∀ i ∈ x.gap ++ [x.data.start], RxOk i := by
    intro i hi
    refine hu.rxOk i ?_
    simp only [window, Packet.front, List.mem_append, List.mem_cons, List.not_mem_nil,
      or_false] at hi ⊢
    tauto
  obtain ⟨seen₁, h₁⟩ := h.run_of_not_end x.token.front hfront x.token.front_pktEnd
  have hidle := phase_run_noEvent_idle hs x.token.front x.token.front_pktEnd
  have h₂ := h₁.step (i := x.token.last) (hu.rxOk _ (by simp [Packet.cycles]))
    fun hdata => by simp [hidle] at hdata
  obtain ⟨seen₃, h₃⟩ := h₂.run_of_not_end (x.gap ++ [x.data.start]) hgap fun i hi => by
    rcases List.mem_append.1 hi with hi | hi
    · exact (x.gap_noEvent i hi).2
    · rw [List.mem_singleton.1 hi]
      exact x.data.start_pktEnd
  refine ⟨seen₃, ?_⟩
  have hrun : ∀ s : State N, x.started s = Clocked.run step (step (Clocked.run step s x.token.front)
      x.token.last) (x.gap ++ [x.data.start]) := by
    intro s
    rw [← run_start, opened, Packet.cycles, run_append step s]
    rfl
  rw [hrun s, hrun s']
  exact h₃

omit [NeZero N] in
theorem matched_withMem (hc : Bounded s) (mem : BitVec 9 → BitVec 32) : Matched true s (withMem s mem) where
  kept := ⟨rfl, rfl, rfl, rfl, rfl, rfl, rfl, rfl⟩
  phase := rfl
  dataToggle := rfl
  dataPut := fun _ => rfl
  bounded := hc
  bounded' := ⟨hc.dataPut, hc.outMaxUsed⟩
  current := fun _ => ⟨rfl, rfl, rfl⟩
  timeout := fun _ => rfl
  data := fun _ _ => ⟨rfl, rfl⟩
  jammed := fun _ => .rfl
  used := fun _ => .inl rfl
  last := fun _ => rfl

/-- A transaction that is acknowledged stores its payload exactly if the length counter is not
jammed when the DATA packet starts. -/
theorem stores_iff (h : x.Acked s) (hc : Bounded s) (hu : x.Undisturbed b)
    (hb : (avQueue (x.atAnswer s) (currentSetup (x.atAnswer s).out)).head? = some b)
    {payload : List (BitVec 8)} {c₁ c₂ : BitVec 8}
    (hbytes : strobes x.data.cycles = payload ++ [c₁, c₂]) :
    x.Stores s b payload ↔ payload = [] ∨ ¬Jammed (x.started s) := by
  obtain ⟨hst, -⟩ := x.started_spec h hc hu hb
  have hbound : Bounded (x.started s) := by
    rw [← run_start, opened]
    refine (hc.run _ fun i hi => hu.rxOk i (by simp [hi])).run _ fun i hi => hu.rxOk i ?_
    simp only [window, Packet.front, List.mem_append, List.mem_cons, List.not_mem_nil,
      or_false] at hi ⊢
    tauto
  have hsame : ∀ mem, Started (withMem (x.started s) mem) ∧
      rxWvalid (x.answer (withMem (x.started s) mem)) x.after = true ∧
      (avQueue (x.answer (withMem (x.started s) mem))
        (currentSetup (x.answer (withMem (x.started s) mem)).out)).head? = some b := by
    intro mem
    have halike := x.alike_answer (matched_withMem hbound mem) hu
      (x.listening_ending hst.dataStart)
    have hack : rxWvalid (x.answer (x.started s)) x.after = true := h
    have hcs := (halike.current (not_idle_of_acked hack)).2.2
    refine ⟨⟨hst.dataStart, hst.dataPut, hst.putAddr, hst.stdWrite, hst.outMaxUsed, hst.rready⟩,
      by rw [← halike.rxWvalid_eq, hack], ?_⟩
    rw [← halike.avQueue_eq, ← hcs]
    exact hb
  constructor
  · intro hstores
    by_contra hnot
    simp only [not_or, not_not] at hnot
    obtain ⟨hne, hj⟩ := hnot
    obtain ⟨y, ys, rfl⟩ := List.exists_cons_of_ne_nil hne
    -- a RAM without the first byte of the payload
    have hword : ∃ w : BitVec 32, lane w (BitVec.ofNat 2 0) ≠ y := by
      by_cases hy : y = 0
      · exact ⟨BitVec.allOnes 32, by subst hy; decide⟩
      · exact ⟨0, fun heq => hy (by rw [← heq]; decide)⟩
    obtain ⟨w, hw⟩ := hword
    obtain ⟨hst', hack', hb'⟩ := hsame fun _ => w
    obtain ⟨-, hram, -⟩ := x.lost_of_jammed hst' hj hu hack' hb' hbytes
    have hfirst := hstores fun _ => w
    rw [hram] at hfirst
    have hhead := congrArg List.head? hfirst
    have hlen : min (ys.length + 1) 64 = min ys.length 63 + 1 := by omega
    simp only [bufferBytes, List.length_cons, hlen, List.range_succ_eq_map, List.map_cons,
      List.head?_cons, List.take_succ_cons, Option.some.injEq] at hhead
    exact hw hhead
  · rintro (rfl | hj) mem
    · rfl
    · obtain ⟨hst', hack', hb'⟩ := hsame mem
      exact (x.stored_of_not_jammed hst' hj hu hack' hb' hbytes).2.1

end OutTransaction

/-! ### No trace -/

/-- A run from one moment between transactions to another in which no packet is accepted:
timeouts, corrupted packets, wrong packet types, repeated packets, NAK, STALL, refused
SETUP packets and link resets in any number. -/
structure Aborted (s : State N) (is : List (Input N)) : Prop where
  rxOk : ∀ i ∈ is, RxOk i
  noAck : NoAck s is
  before : phase s = .idle
  after : phase (run step s is) = .idle

/-- The device in which the run has not happened, but for its effect on the toggles. -/
def spared (s : State N) (is : List (Input N)) : State N :=
  withToggles (run step s (is.map hush)) (run step s is).out.pe.dataToggle

/-- The run has left no trace. -/
structure NoTrace (s : State N) (is : List (Input N)) : Prop where
  /-- FIFOs, `rxenable_out` and stall bits are what software alone would have made of them. -/
  kept : Kept (run step s is) (run step s (is.map hush))
  /-- The toggles changed by SETUP tokens, link resets and software only. -/
  dataToggle : (run step s is).out.pe.dataToggle = is.foldl toggleEffect s.out.pe.dataToggle
  dataToggle_eq : (∀ i ∈ is, i.linkReset = false ∧
      (i.rx.tokenReceived i.cfg.devAddr && i.rx.pid == usbPidSetup) = false) →
    (run step s is).out.pe.dataToggle = (run step s (is.map hush)).out.pe.dataToggle
  /-- Whatever follows is answered and posted as if the run had not happened; also DATA packets
  without a byte, if the length counters agree. -/
  next : ∀ js, (∀ i ∈ js, RxOk i) →
    HasBytes true js ∨ count (run step s is) = count (spared s is) →
    outs step (fun s i => (outTx s i, rxPush s i)) (run step s is) js =
      outs step (fun s i => (outTx s i, rxPush s i)) (spared s is) js
  /-- A transaction acknowledged afterwards stores the same payload. -/
  payload : ∀ (x : OutTransaction N) (b : BitVec 5) (payload : List (BitVec 8)) (c₁ c₂ : BitVec 8),
    x.Undisturbed b → x.Acked (run step s is) →
    (avQueue (x.atAnswer (run step s is)) x.setup).head? = some b →
    strobes x.data.cycles = payload ++ [c₁, c₂] →
      (x.Stores (run step s is) b payload ↔ x.Stores (spared s is) b payload)

/-- Both devices after a run without acceptance. -/
theorem alike_spared {s : State N} (hc : Bounded s) {is : List (Input N)} (ha : Aborted s is) :
    Alike (run step s is) (spared s is) := by
  have hrefl : Kept s s := ⟨rfl, rfl, rfl, rfl, rfl, rfl, rfl, rfl⟩
  obtain ⟨hkept, hidle', -, -⟩ := run_hush hrefl ha.before is ha.noAck
  have hbound' : Bounded (run step s (is.map hush)) := by
    refine hc.run _ ?_
    intro i hi
    obtain ⟨j, -, rfl⟩ := List.mem_map.mp hi
    exact rxOk_hush j
  exact .of_kept hkept (hc.run is ha.rxOk) hbound' ha.after hidle'

theorem jammed_spared {s : State N} (hc : Bounded s) {is : List (Input N)} (ha : Aborted s is) :
    Jammed (spared s is) ↔ Jammed s := by
  rw [Jammed, Jammed, ← count_run_hush hc ha.before is]
  rfl

theorem noTrace_of_jammed_iff {s : State N} (hc : Bounded s) {is : List (Input N)}
    (ha : Aborted s is) (hj : Jammed (run step s is) ↔ Jammed s) : NoTrace s is := by
  have hrefl : Kept s s := ⟨rfl, rfl, rfl, rfl, rfl, rfl, rfl, rfl⟩
  obtain ⟨hkept, -, htog, htog'⟩ := run_hush hrefl ha.before is ha.noAck
  have halike := alike_spared hc ha
  have hmatched : Matched true (run step s is) (spared s is) :=
    { halike with
      jammed := fun _ => hj.trans (jammed_spared hc ha).symm
      used := fun hs => by simp [ha.after] at hs
      last := fun hs => by simp [ha.after] at hs }
  refine ⟨hkept, htog, ?_, ?_, ?_⟩
  · intro hnone
    rw [htog, htog', List.foldl_map]
    refine List.foldl_ext _ _ _ fun t i hi => ?_
    exact (toggleEffect_hush t (hnone i hi).1 (hnone i hi).2).symm
  · rintro js hj (hb | hcount)
    · exact hmatched.outs_eq js hj hb
    · have hlevel : Level (run step s is) (spared s is) :=
        { halike with
          count := fun _ => hcount
          used := fun hs => absurd ha.after hs }
      exact hlevel.outs_eq js hj
  · intro x b payload c₁ c₂ hu hack hb hbytes
    obtain ⟨-, hsetup⟩ := x.current_atAnswer hack halike.bounded fun i hi => hu.rxOk i (by simp [hi])
    rw [← hsetup] at hb
    obtain ⟨hst, -⟩ := x.started_spec hack halike.bounded hu hb
    obtain ⟨seen, hstarted⟩ := x.matched_started hmatched ha.after hu
    have hans : Alike (x.atAnswer (run step s is)) (x.atAnswer (spared s is)) :=
      x.alike_answer hstarted hu (x.listening_ending hst.dataStart)
    have hack' : x.Acked (spared s is) := by
      unfold OutTransaction.Acked at hack ⊢
      rw [← hans.rxWvalid_eq, hack]
    have hb' := hb
    rw [hans.avQueue_eq, (hans.current (not_idle_of_acked hack)).2.2] at hb'
    have hst' := (x.started_spec hack' halike.bounded' hu hb').1
    have hjam : Jammed (x.started (run step s is)) ↔ Jammed (x.started (spared s is)) := by
      rw [hst.jammed_iff, hst'.jammed_iff]
      obtain heq | ⟨⟨hlt, hlt'⟩, -⟩ := hstarted.used hst.dataStart
      · rw [heq]
      · omega
    rw [x.stores_iff hack halike.bounded hu hb hbytes, x.stores_iff hack' halike.bounded' hu hb'
      hbytes, hjam]

/-! ### A packet that tells a jammed device -/

/-- Software empties both FIFOs and accepts OUT packets on every endpoint, with cleared toggles. -/
def emptyFifos : Sw N where
  avoutRst := true
  rxRst := true
  rxenableOut := some (fun _ => true, fun _ => false)
  outStall := some fun _ => false
  outDatatog := some (fun _ => false, fun _ => true)

/-- Then it supplies one buffer. -/
def makeRoom : List (Input N) :=
  [cycle (rxQuiet 0) emptyFifos, cycle (rxQuiet 0) { avoutbuffer := some 0 }]

/-- An OUT packet without payload for endpoint 0. -/
def probePacket : OutTransaction N where
  token := tokenPacket usbPidOut 0
  gap := []
  data := dataPacket usbPidData0 0 [0, 0]
  after := cycle (rxQuiet 0)
  settle := cycle (rxQuiet 0)
  gap_noEvent := by simp
  data_start := rfl

/-- The device can store an OUT packet for endpoint 0. -/
structure HasRoom (s : State N) : Prop where
  avout : (avQueue s false).head? = some 0
  rxFifo : s.rxFifo.toList = []
  underRst : s.rxFifo.underRst = false
  rxenableOut : s.rxenableOut 0 = true
  outStall : s.outStall 0 = false
  dataToggle : s.out.pe.dataToggle 0 = false
  rready : ∀ setup, avRready s setup = false

theorem hasRoom_makeRoom {s : State N} (hs : phase s = .idle) : HasRoom (run step s makeRoom) ∧
    phase (run step s makeRoom) = .idle := by
  have hack : ∀ (s : State N) (i : Input N), phase s = .idle → rxWvalid s i = false :=
    fun s i hs => rxWvalid_eq_false i (by simp [hs])
  simp only [makeRoom, run_cons, run_nil]
  set s' := step s (cycle (rxQuiet 0) emptyFifos) with hs'
  set j : Input N := cycle (rxQuiet 0) { avoutbuffer := some 0 } with hj
  have hidle' : phase s' = .idle := phase_step_idle hs rfl
  have hready : ∀ setup, avRready s' setup = false := avRready_step_of_phase _ (by simp [hs])
  have havout : s'.avout.toList = [] := SyncFifo.State.toList_step_clr _ _ rfl
  have hrx : s'.rxFifo.toList = [] := SyncFifo.State.toList_step_clr _ _ rfl
  have hwrite : rxWvalid s' j = false := hack s' j hidle'
  have hsetup : setupReceived s' j = false := setupReceived_eq_false hwrite
  refine ⟨⟨?_, ?_, rfl, ?_, ?_, ?_, avRready_step_of_phase _ (by simp [hidle'])⟩,
    phase_step_idle hidle' rfl⟩
  · have hread : s'.avout.incrRptr (avoutIn s' j) = false := by
      have hr : (avoutIn s' j).rready = false := hready false
      rw [SyncFifo.State.incrRptr, hr, Bool.and_false, Bool.false_and]
    have hfill : s'.avout.incrWptr (avoutIn s' j) = true := by
      have hfull : s'.avout.full = false := by
        rw [← Bool.not_eq_true, SyncFifo.State.full_iff, ← SyncFifo.State.length_toList, havout]
        decide
      have hrst : s'.avout.underRst = false := rfl
      rw [SyncFifo.State.incrWptr, SyncFifo.State.wready, hfull, hrst]
      rfl
    have hlist : (step s' j).avout.toList = [0] := by
      have hstep : (step s' j).avout = s'.avout.step (avoutIn s' j) := rfl
      rw [hstep, SyncFifo.State.toList_step _ _ rfl, hread, hfill, havout]
      rfl
    change (step s' j).avout.toList.head? = some 0
    rw [hlist]
    rfl
  · have hstep : (step s' j).rxFifo = s'.rxFifo := SyncFifo.State.step_idle _ rfl rfl hwrite rfl
    rw [hstep, hrx]
  · have hclear : clearRxenableOut s' j 0 = false := by rw [clearRxenableOut, hwrite]; rfl
    have hkeep : (step s' j).rxenableOut 0 = s'.rxenableOut 0 := by
      simp only [Device.step, hclear]
      rfl
    rw [hkeep]
    rfl
  · have hkeep : (step s' j).outStall 0 = s'.outStall 0 := by
      simp only [Device.step, hsetup]
      rfl
    rw [hkeep]
    rfl
  · rw [dataToggle_step hwrite]
    have hclear : s'.out.pe.dataToggle 0 = false := by
      rw [hs', dataToggle_step (hack s _ hs)]
      simp [toggleEffect, cycle, emptyFifos]
    simpa [toggleEffect, hj, cycle, rxQuiet] using hclear

namespace HasRoom

variable {s : State N} {rx : RxSignals}

/-- A cycle without acceptance and without a SETUP token leaves room. -/
theorem step (h : HasRoom s) (ha : rxWvalid s (cycle rx) = false)
    (ht : (rx.tokenReceived 0 && rx.pid == usbPidSetup) = false) :
    HasRoom (Device.step s (cycle rx)) := by
  have hsetup : setupReceived s (cycle rx) = false := setupReceived_eq_false ha
  constructor
  case avout => exact head_avQueue_step ⟨rfl, rfl, rfl⟩ (h.rready false) h.avout
  case rxFifo =>
    have hstep : (Device.step s (cycle rx)).rxFifo = s.rxFifo :=
      SyncFifo.State.step_idle _ h.underRst rfl ha rfl
    rw [hstep, h.rxFifo]
  case underRst => rfl
  case rxenableOut =>
    have hclear : clearRxenableOut s (cycle rx) 0 = false := by rw [clearRxenableOut, ha]; rfl
    have hkeep : (Device.step s (cycle rx)).rxenableOut 0 = s.rxenableOut 0 := by
      simp only [Device.step, hclear]
      rfl
    rw [hkeep, h.rxenableOut]
  case outStall =>
    have hkeep : (Device.step s (cycle rx)).outStall 0 = s.outStall 0 := by
      simp only [Device.step, hsetup]
      rfl
    rw [hkeep, h.outStall]
  case dataToggle =>
    rw [dataToggle_step ha]
    have hcycle : ((cycle (N := N) rx).rx.tokenReceived (cycle (N := N) rx).cfg.devAddr &&
        (cycle (N := N) rx).rx.pid == usbPidSetup) = false := ht
    simp only [toggleEffect, hcycle, Bool.false_and, Bool.false_eq_true, if_false]
    exact h.dataToggle
  case rready =>
    intro setup
    rw [avRready_step, ha, Bool.false_and]

/-- In an OUT transaction on endpoint 0 the packet is not refused. -/
theorem full (h : HasRoom s) (hcur : s.out.pe.outEpCurrent = 0)
    (hcs : currentSetup s.out = false) (i : Input N) :
    (peInput s i).full s.out.pe.outEpCurrent = false := by
  have hvalid : UsbIf.avRvalid s.out (outInput s i) = true := by
    rw [avRvalid_iff, hcs]
    intro hnil
    have := h.avout
    simp [hnil] at this
  have hfull : s.rxFifo.full = false := by
    rw [← Bool.not_eq_true, SyncFifo.State.full_iff, ← SyncFifo.State.length_toList, h.rxFifo]
    simp
  have hdepth : s.rxFifo.depth = 0 := by
    rw [SyncFifo.State.depth_eq_length, h.rxFifo]
    rfl
  have hready : UsbIf.rxWready s.out (outInput s i) = true := by
    simp [UsbIf.rxWready, hcs, outInput, rxWreadyOut, SyncFifo.State.wready, hfull, h.underRst,
      hdepth]
  have hkind : s.out.pe.outEpSetup 0 = false := by
    rw [currentSetup, hcur] at hcs
    exact hcs
  have hopen : (outInput s i).rxOut 0 = true := h.rxenableOut
  change outEpFull s.out (outInput s i) s.out.pe.outEpCurrent = false
  rw [hcur, outEpFull, allOutBlocked, hvalid, hready, hkind, hopen]
  rfl

end HasRoom

/-- Such a device in an OUT transaction on endpoint 0, of which nothing has been refused. -/
structure Taking (s : State N) : Prop extends HasRoom s where
  outEpCurrent : s.out.pe.outEpCurrent = 0
  currentXactSetup : s.out.pe.currentXactSetup = false
  currentSetup : currentSetup s.out = false

namespace Taking

variable {s : State N} {rx : RxSignals}

theorem step_of_not_end (h : Taking s) (ha : rxWvalid s (cycle rx) = false)
    (he : rx.pktEnd = false) : Taking (Device.step s (cycle rx)) := by
  have hpe := OutPe.step_of_not_end (i := peInput s (cycle rx)) he s.out.pe
  refine ⟨h.toHasRoom.step ha (by simp [he]), ?_, ?_, ?_⟩
  · rw [step_pe, hpe.2.1, h.outEpCurrent]
  · rw [step_pe, hpe.2.2, h.currentXactSetup]
  · rw [currentSetup_step (i := cycle rx) he, h.currentSetup]

theorem nak_step (h : Taking s) (hs : phase s = .rcvdDataStart)
    (hn : s.out.pe.nakOutTransaction = false) (i : Input N) :
    (Device.step s i).out.pe.nakOutTransaction = false := by
  rw [Passing.nak_step s i hs, h.full h.outEpCurrent h.currentSetup i, hn]
  simp

theorem acked (h : Taking s) (hs : phase s = .rcvdDataEnd)
    (hn : s.out.pe.nakOutTransaction = false) (i : Input N) : rxWvalid s i = true := by
  have hs' : s.out.pe.outXactState = .rcvdDataEnd := hs
  have hfull := h.full h.outEpCurrent h.currentSetup i
  have hstall : (peInput s i).stall s.out.pe.outEpCurrent = false := by
    rw [h.outEpCurrent]
    exact h.outStall
  rw [Device.rxWvalid_eq]
  simp [OutPe.comb, hs', h.currentXactSetup, hstall, hn, hfull]

end Taking

theorem epCurrentD_zero {rx : RxSignals} (h : rx.endp = 0) : (rx.epCurrentD : Fin N) = 0 :=
  RxSignals.epCurrentD_eq (by simp [h])

/-- The token opens a transaction on endpoint 0. -/
theorem HasRoom.token {s : State N} (h : HasRoom s) (hs : phase s = .idle) :
    Taking (Device.step s (cycle (rxEnd usbPidOut 0))) ∧
      phase (Device.step s (cycle (rxEnd usbPidOut 0))) = .rcvdOut := by
  have hs' : s.out.pe.outXactState = .idle := hs
  have hactive : (peInput s (cycle (rxEnd usbPidOut 0))).epActive = true :=
    (RxSignals.epInHw_iff (N := N) (rxEnd usbPidOut 0)).2 (Nat.pos_of_ne_zero (NeZero.ne N))
  have hout : (peInput s (cycle (rxEnd usbPidOut 0))).outTokenReceived = true := rfl
  have hcomb : OutPe.comb s.out.pe (peInput s (cycle (rxEnd usbPidOut 0))) =
      { stateNext := .rcvdOut, xactStart := true } := by
    simp only [OutPe.comb, hs', hactive, hout, Bool.true_or, Bool.and_self, if_true]
  have hstart : (OutPe.comb s.out.pe (peInput s (cycle (rxEnd usbPidOut 0)))).xactStart = true := by
    rw [hcomb]
  obtain ⟨-, hcur, hsetup⟩ := OutPe.step_of_xactStart hstart
  have hep : ((peInput s (cycle (rxEnd usbPidOut 0))).rx.epCurrentD : Fin N) = 0 :=
    epCurrentD_zero rfl
  have hack : rxWvalid s (cycle (rxEnd usbPidOut 0)) = false :=
    rxWvalid_eq_false _ (by simp [hs])
  refine ⟨⟨h.step hack rfl, by rw [step_pe, hcur, hep], ?_, ?_⟩, ?_⟩
  · rw [step_pe, OutPe.step, hcomb]
    rfl
  · rw [currentSetup, step_pe, hcur, hsetup]
    rfl
  · rw [phase_step, hcomb]
    rfl

/-- The end of the DATA packet is taken. -/
theorem Taking.data {s : State N} (h : Taking s) (hs : phase s = .rcvdDataStart) :
    Taking (step s (cycle (rxEnd usbPidData0 0))) ∧
      phase (step s (cycle (rxEnd usbPidData0 0))) = .rcvdDataEnd := by
  have hs' : s.out.pe.outXactState = .rcvdDataStart := hs
  have hdata : (peInput s (cycle (rxEnd usbPidData0 0))).rx.dataPacketReceived = true := rfl
  have hbad : OutPe.badDataToggle s.out.pe (peInput s (cycle (rxEnd usbPidData0 0))) = false := by
    have hep : ((peInput s (cycle (rxEnd usbPidData0 0))).rx.epCurrentD : Fin N) = 0 :=
      epCurrentD_zero rfl
    rw [OutPe.badDataToggle, hep, h.dataToggle]
    simp [peInput, outPeInput, outInput, cycle, rxEnd, usbPidData0]
  have hnext : (OutPe.comb s.out.pe (peInput s (cycle (rxEnd usbPidData0 0)))).stateNext =
      .rcvdDataEnd := by
    have hiso : (peInput s (cycle (rxEnd usbPidData0 0))).iso s.out.pe.outEpCurrent = false := rfl
    have hinv : (peInput s (cycle (rxEnd usbPidData0 0))).invalidPacketReceived = false := rfl
    have hother : (peInput s (cycle (rxEnd usbPidData0 0))).nonDataPacketReceived = false := rfl
    simp only [OutPe.comb, hs', hdata, hbad, hiso, hinv, hother, Bool.and_false, Bool.false_and,
      Bool.or_self, Bool.false_eq_true, if_false, if_true]
  have hn : phase (step s (cycle (rxEnd usbPidData0 0))) = .rcvdDataEnd := by
    rw [phase_step, hnext]
    rfl
  have hack : rxWvalid s (cycle (rxEnd usbPidData0 0)) = false :=
    rxWvalid_eq_false _ (by simp [hs])
  obtain ⟨-, -, hcur, hcs⟩ := step_of_dataEnd (.inl hn)
  refine ⟨⟨h.toHasRoom.step hack rfl, by rw [hcur, h.outEpCurrent], ?_, by rw [hcs, h.currentSetup]⟩,
    hn⟩
  obtain ⟨-, -, -, hx⟩ := OutPe.dataPacket_of_dataEnd (.inl hnext)
  have hkeep : (step s (cycle (rxEnd usbPidData0 0))).out.pe.currentXactSetup =
      s.out.pe.currentXactSetup := by
    rw [step_pe, OutPe.step, hx]
    rfl
  rw [hkeep, h.currentXactSetup]

/-- A device with room acknowledges the packet. -/
theorem probePacket_spec {s : State N} (h : HasRoom s) (hs : phase s = .idle) (hc : Bounded s) :
    probePacket.Acked s ∧ (avQueue (probePacket.atAnswer s)
        (currentSetup (probePacket.atAnswer s).out)).head? = some 0 ∧
      count (probePacket.started s) = count s := by
  have hquiet : ∀ {s : State N} {i : Input N}, Listening s → rxWvalid s i = false :=
    fun hl => rxWvalid_of_listening hl _
  -- the token
  set s₁ := step s (cycle (rxStart 0)) with hs₁
  have hidle : phase s₁ = .idle := phase_step_idle hs rfl
  have hready : HasRoom s₁ := h.step (hquiet (.inl hs)) rfl
  have hbound : Bounded s₁ := hc.step (rxOk_cycle _ _ (by decide))
  obtain ⟨htake, hopen⟩ := hready.token hidle
  set s₂ := step s₁ (cycle (rxEnd usbPidOut 0)) with hs₂
  have hbound₂ : Bounded s₂ := hbound.step (rxOk_cycle _ _ (by decide))
  -- the start of the DATA packet and its two bytes
  have hstart : phase (step s₂ (cycle (rxStart 0))) = .rcvdDataStart := phase_step_rcvdOut hopen
  have htake₃ : Taking (step s₂ (cycle (rxStart 0))) :=
    htake.step_of_not_end (hquiet (.inr (.inl hopen))) rfl
  have hnak₃ : (step s₂ (cycle (rxStart 0))).out.pe.nakOutTransaction = false := by
    have ho : s₂.out.pe.outXactState = .rcvdOut := hopen
    simp [step_pe, OutPe.step, ho]
  set s₃ := step s₂ (cycle (rxStart 0)) with hs₃
  have hbyte : ∀ {s : State N}, Taking s → phase s = .rcvdDataStart →
      s.out.pe.nakOutTransaction = false → Taking (step s (cycle (rxByte 0 0))) ∧
        phase (step s (cycle (rxByte 0 0))) = .rcvdDataStart ∧
        (step s (cycle (rxByte 0 0))).out.pe.nakOutTransaction = false := by
    intro s htake hs hnak
    exact ⟨htake.step_of_not_end (hquiet (.inr (.inr hs))) rfl, phase_step_dataStart hs rfl,
      htake.nak_step hs hnak _⟩
  obtain ⟨htake₄, hs₄, hnak₄⟩ := hbyte htake₃ hstart hnak₃
  obtain ⟨htake₅, hs₅, hnak₅⟩ := hbyte htake₄ hs₄ hnak₄
  -- its end
  obtain ⟨htake₆, hs₆⟩ := htake₅.data hs₅
  have hnak₆ := htake₅.nak_step hs₅ hnak₅ (cycle (rxEnd usbPidData0 0))
  refine ⟨htake₆.acked hs₆ hnak₆ _, ?_, ?_⟩
  · have hcs : currentSetup (probePacket.atAnswer s).out = false := htake₆.currentSetup
    rw [hcs]
    exact htake₆.avout
  · change count s₃ = count s
    rw [hs₃, hbound₂.count_step (.inr hopen) rfl, hs₂, hbound.count_step (.inl hidle) rfl, hs₁,
      hc.count_step (.inl hs) rfl]

/-- The cycles in which the packet is sent to a device, up to its acknowledgement. -/
def probe : List (Input N) :=
  makeRoom ++ (probePacket.token.cycles ++ probePacket.data.cycles)

theorem run_probe (s : State N) :
    run step s probe = probePacket.atAnswer (run step s makeRoom) := by
  rw [probe, run_append]
  rfl

omit [NeZero N] in
theorem rxOk_of_not_put {i : Input N} (h : i.rx.dataPut = false) : RxOk i :=
  ⟨fun hput => by simp [h] at hput⟩

theorem rxOk_probe : ∀ i ∈ (probe ++ [cycle (rxQuiet 0)] : List (Input N)), RxOk i := by
  simp only [probe, makeRoom, probePacket, tokenPacket, dataPacket, Packet.cycles, Packet.front,
    List.map_cons, List.map_nil, List.cons_append, List.nil_append,
    List.forall_mem_cons, List.not_mem_nil, IsEmpty.forall_iff, implies_true, and_true]
  refine ⟨?_, ?_, ?_, ?_, ?_, ⟨fun _ => rfl⟩, ⟨fun _ => rfl⟩, ?_, ?_⟩ <;>
    exact rxOk_of_not_put rfl

theorem undisturbed_probePacket : (probePacket : OutTransaction N).Undisturbed 0 where
  rxOk := by
    simp [probePacket, OutTransaction.window, tokenPacket, dataPacket, Packet.cycles, Packet.front, rxOk_cycle,
      rxStart, rxEnd, rxQuiet, rxByte]
  noFifoReset := by
    simp [probePacket, OutTransaction.window, tokenPacket, dataPacket, Packet.front, NoFifoReset, cycle]
  noSwWrite := by
    simp [probePacket, OutTransaction.window, tokenPacket, dataPacket, Packet.front, NoSwWrite, cycle]

/-- The length posted for the packet tells whether the device was jammed. -/
theorem rxPush_probe {s : State N} (hs : phase s = .idle) (hc : Bounded s) :
    ∃ entry, rxPush (run step s probe) (cycle (rxQuiet 0)) = some entry ∧
      (entry.size = 64#7 ↔ Jammed s) := by
  obtain ⟨hready, hidle⟩ := hasRoom_makeRoom hs
  have hbound : Bounded (step s (cycle (rxQuiet 0) emptyFifos)) :=
    hc.step (rxOk_cycle _ _ (by decide))
  have hroom : Bounded (run step s makeRoom) := hbound.step (rxOk_cycle _ _ (by decide))
  have hcount : count (run step s makeRoom) = count s := by
    have hnext : phase (step s (cycle (rxQuiet 0) emptyFifos)) = .idle := phase_step_idle hs rfl
    exact (hbound.count_step (.inl hnext) rfl).trans (hc.count_step (.inl hs) rfl)
  obtain ⟨hack, hb, hstarted⟩ := probePacket_spec hready hidle hroom
  obtain ⟨hst, -⟩ := probePacket.started_spec hack hroom undisturbed_probePacket hb
  have hbytes : strobes (probePacket (N := N)).data.cycles = [] ++ [0, 0] := rfl
  have hjam : Jammed (probePacket.started (run step s makeRoom)) ↔ Jammed s := by
    rw [Jammed, Jammed, hstarted, hcount]
  refine ⟨_, by rw [run_probe]; exact rxPush_of_acked hack, ?_⟩
  rw [← hjam]
  by_cases hj : Jammed (probePacket.started (run step s makeRoom))
  · obtain ⟨-, -, hentry⟩ := probePacket.lost_of_jammed hst hj undisturbed_probePacket hack hb hbytes
    exact iff_of_true (congrArg RxEntry.size hentry) hj
  · obtain ⟨-, -, hentry⟩ :=
      probePacket.stored_of_not_jammed hst hj undisturbed_probePacket hack hb hbytes
    refine iff_of_false (fun heq => ?_) hj
    have hne : 64#7 ≠ BitVec.ofNat 7 (min ([] : List (BitVec 8)).length 64) := by decide
    exact hne (heq.symm.trans (congrArg RxEntry.size hentry))

/-- Devices that post the same entries after the probe are jammed alike. -/
theorem jammed_iff_of_outs {s s' : State N} (h : Alike s s') (hs : phase s = .idle)
    (hout : outs step (fun s i => (outTx s i, rxPush s i)) s (probe ++ [cycle (rxQuiet 0)]) =
      outs step (fun s i => (outTx s i, rxPush s i)) s' (probe ++ [cycle (rxQuiet 0)])) :
    Jammed s ↔ Jammed s' := by
  obtain ⟨e, he, hj⟩ := rxPush_probe hs h.bounded
  obtain ⟨e', he', hj'⟩ := rxPush_probe (h.phase.symm.trans hs) h.bounded'
  rw [outs_append, outs_append] at hout
  have hlast := List.append_inj_right' hout (by simp)
  simp only [outs_cons, outs_nil, List.cons.injEq, Prod.mk.injEq, and_true] at hlast
  rw [he, he'] at hlast
  obtain rfl := Option.some.inj hlast.2
  exact hj.symm.trans hj'

theorem jammed_iff_of_noTrace {s : State N} (hc : Bounded s) {is : List (Input N)}
    (ha : Aborted s is) (h : NoTrace s is) : Jammed (run step s is) ↔ Jammed s := by
  rw [← jammed_spared hc ha]
  refine jammed_iff_of_outs (alike_spared hc ha) ha.after (h.next _ rxOk_probe (.inl ?_))
  simp only [probe, makeRoom, probePacket, tokenPacket, dataPacket, Packet.cycles, Packet.front,
    List.map_cons, List.map_nil, List.cons_append, List.nil_append, HasBytes, byteSeen, cycle,
    rxStart, rxByte, rxEnd, rxQuiet]
  decide

/-! ### Severed packets -/

/-- The address of a byte that is strobed in this cycle. -/
def strobeAddr (s : State N) : BitVec 6 :=
  if OutPe.incrementAddr s.out.pe then s.out.pe.outEpPutAddr + 1 else s.out.pe.outEpPutAddr

/-- The link is reset in the cycle in which a byte is strobed for the last address of the buffer. -/
def severs (s : State N) (i : Input N) : Bool :=
  phase s == .rcvdDataStart && i.linkReset && i.rx.dataPut && strobeAddr s == 63#6

/-- The last cycle of the run in which a DATA packet ends or the link is reset, if there is one:
whether the link reset severs a full packet there. -/
def lastCut : State N → List (Input N) → Option Bool
  | _, [] => none
  | s, i :: is => (lastCut (step s i) is).or
      (if i.linkReset || phase s == .rcvdDataStart && i.rx.pktEnd then some (severs s i) else none)

/-- Between packets the device is jammed if the last of them was severed, or none came and it was
jammed before. -/
structure JamsAs (jam : Bool) (s : State N) : Prop where
  bounded : Bounded s
  listening : phase s = .idle ∨ phase s = .rcvdOut → (Jammed s ↔ jam = true)
  ending : phase s = .rcvdDataEnd ∨ phase s = .rcvdIsoDataEnd → jam = false

theorem jammed_step_linkReset {s : State N} {i : Input N} (hl : i.linkReset = true) :
    Jammed (step s i) ↔ severs s i = true := by
  have hused : (step s i).out.outMaxUsed = 0 := by simp [outMaxUsed_step, hl]
  have hput := dataPut_step s i
  unfold Jammed count severs
  by_cases hd : phase s = .rcvdDataStart ∧ i.rx.dataPut = true
  · have haddr : (step s i).out.pe.outEpPutAddr = strobeAddr s := by
      have hs' : s.out.pe.outXactState = .rcvdDataStart := hd.1
      simp [step_pe, OutPe.step, strobeAddr, hs']
    rw [hput, haddr]
    simp only [hd, hl, beq_self_eq_true, Bool.and_self, Bool.true_and, if_true, beq_iff_eq]
    generalize strobeAddr s = a
    constructor
    · intro h
      have h' := congrArg BitVec.toNat h
      simp only [BitVec.toNat_setWidth, BitVec.toNat_ofNat] at h'
      apply BitVec.eq_of_toNat_eq
      have := a.isLt
      simp only [BitVec.toNat_ofNat]
      omega
    · rintro rfl
      rfl
  · rw [hput, hused]
    have hno : (phase s == .rcvdDataStart && i.rx.dataPut) = false := by
      simpa using hd
    rw [hno, if_neg (by simp)]
    refine iff_of_false (by decide) ?_
    simp only [Bool.and_eq_true, beq_iff_eq]
    tauto

/-- A DATA packet that ends without a link reset leaves the counter clear. -/
theorem not_jammed_step_ended {s : State N} {i : Input N} (hs : phase s ≠ .idle)
    (hs' : phase s ≠ .rcvdOut) (hn : phase (step s i) = .idle ∨ phase (step s i) = .rcvdOut)
    (hput : (step s i).out.pe.outEpDataPut = false) (hl : i.linkReset = false) :
    ¬Jammed (step s i) := by
  rw [phase_step, if_neg (by simp [hl])] at hn
  rw [Jammed, count_of_dataPut hput, outMaxUsed_step, if_neg (by simp [hl]),
    outMaxUsedD_of_ended (OutPe.ended_of_data hs hs' hn)]
  decide

theorem JamsAs.step {jam : Bool} {s : State N} {i : Input N} (h : JamsAs jam s) (hi : RxOk i) :
    JamsAs (if i.linkReset || phase s == .rcvdDataStart && i.rx.pktEnd then severs s i else jam)
      (Device.step s i) := by
  refine ⟨h.bounded.step hi, ?_, ?_⟩
  · intro hn
    by_cases hl : i.linkReset = true
    · simpa [hl] using jammed_step_linkReset hl
    rw [Bool.not_eq_true] at hl
    have hsev : severs s i = false := by simp [severs, hl]
    cases hs : phase s with
    | idle => simpa [hl, Jammed, h.bounded.count_step (.inl hs) hl] using h.listening (.inl hs)
    | rcvdOut => simpa [hl, Jammed, h.bounded.count_step (.inr hs) hl] using h.listening (.inr hs)
    | rcvdDataStart =>
        cases he : i.rx.pktEnd with
        | false =>
            rw [phase_step_dataStart hs he, if_neg (by simp [hl])] at hn
            simp at hn
        | true =>
            have hstrobe : i.rx.dataPut = false := by
              cases hd : i.rx.dataPut with
              | false => rfl
              | true => exact absurd he (by simp [hi.strobe_end hd])
            have hput : (Device.step s i).out.pe.outEpDataPut = false := by
              simp [dataPut_step, hstrobe]
            simpa [hsev] using not_jammed_step_ended (by simp [hs]) (by simp [hs]) hn hput hl
    | rcvdDataEnd | rcvdIsoDataEnd =>
        have hput : (Device.step s i).out.pe.outEpDataPut = false := by
          simp [dataPut_step, hs]
        simpa [hl, h.ending (by simp [hs])] using
          not_jammed_step_ended (by simp [hs]) (by simp [hs]) hn hput hl
  · intro hn
    have hl : i.linkReset = false := by
      cases hl : i.linkReset with
      | false => rfl
      | true => simp [phase_step, hl] at hn
    have hsev : severs s i = false := by simp [severs, hl]
    cases hs : phase s with
    | idle => obtain h | ⟨h, -⟩ := phase_step_idle_end (i := i) hs <;> simp [h] at hn
    | rcvdOut =>
        rw [phase_step_rcvdOut hs] at hn
        split_ifs at hn <;> simp at hn
    | rcvdDataStart =>
        cases he : i.rx.pktEnd with
        | false =>
            rw [phase_step_dataStart hs he, if_neg (by simp [hl])] at hn
            simp at hn
        | true => simpa using hsev
    | rcvdDataEnd | rcvdIsoDataEnd => simpa [hl] using h.ending (by simp [hs])

theorem JamsAs.run {jam : Bool} {s : State N} (h : JamsAs jam s) (is : List (Input N))
    (hi : ∀ i ∈ is, RxOk i) : JamsAs ((lastCut s is).getD jam) (Clocked.run Device.step s is) := by
  induction is generalizing s jam with
  | nil => exact h
  | cons i is ih =>
      have hrest := ih (h.step (hi i (by simp))) fun j hj => hi j (by simp [hj])
      have hcut : (lastCut s (i :: is)).getD jam = (lastCut (Device.step s i) is).getD
          (if i.linkReset || phase s == .rcvdDataStart && i.rx.pktEnd then severs s i else jam) := by
        rw [lastCut]
        cases lastCut (Device.step s i) is <;> split_ifs <;> simp_all
      rw [hcut]
      exact hrest

/-- Only a severed packet jams the device. -/
theorem not_jammed_of_reachable {setup₀ : Fin 4 → BitVec 5} {out₀ : Fin 8 → BitVec 5}
    {rx₀ : Fin 8 → RxEntry N} {mem₀ : BitVec 9 → BitVec 32} {rdata₀ : BitVec 32} {s : State N}
    (hr : Reachable step (fun s i => RxOk i ∧ severs s i = false)
      (State.reset setup₀ out₀ rx₀ mem₀ rdata₀) s)
    (hs : phase s = .idle ∨ phase s = .rcvdOut) : ¬Jammed s := by
  have hjams : JamsAs false s := by
    refine hr.invariant (JamsAs false) ⟨bounded_reset _ _ _ _ _, fun _ => ?_, fun _ => rfl⟩ ?_
    · have hzero : count (State.reset setup₀ out₀ rx₀ mem₀ rdata₀ : State N) = 0 := rfl
      exact iff_of_false (by rw [Jammed, hzero]; decide) (by decide)
    · intro s i hi h
      have hnext := h.step hi.1
      rwa [hi.2, ite_self] at hnext
  simpa using hjams.listening hs

theorem jammed_run_iff {s : State N} (hc : Bounded s) {is : List (Input N)} (ha : Aborted s is) :
    (Jammed (run step s is) ↔ Jammed s) ↔
      ∀ severed, lastCut s is = some severed → (severed = true ↔ Jammed s) := by
  have hbefore : JamsAs (decide (Jammed s)) s :=
    ⟨hc, fun _ => by simp, fun hs => by simp [ha.before] at hs⟩
  rw [(hbefore.run is ha.rxOk).listening (.inl ha.after)]
  cases lastCut s is <;> simp

/-- An aborted run of OUT and SETUP transactions leaves no trace, from any reachable state, exactly
if the last DATA packet or link reset in it is not a full packet severed by a link reset, or the
length counter was jammed by such a reset before. -/
theorem noTrace_iff {setup₀ : Fin 4 → BitVec 5} {out₀ : Fin 8 → BitVec 5}
    {rx₀ : Fin 8 → RxEntry N} {mem₀ : BitVec 9 → BitVec 32} {rdata₀ : BitVec 32} {s : State N}
    (hr : Reachable step RxAllowed (State.reset setup₀ out₀ rx₀ mem₀ rdata₀) s)
    {is : List (Input N)} (ha : Aborted s is) :
    NoTrace s is ↔ ∀ severed, lastCut s is = some severed → (severed = true ↔ Jammed s) := by
  have hc := bounded_of_reachable (bounded_reset _ _ _ _ _) hr
  rw [← jammed_run_iff hc ha]
  exact ⟨jammed_iff_of_noTrace hc ha, noTrace_of_jammed_iff hc ha⟩

/-- An OUT token for endpoint 1 and a corrupted DATA packet after five bytes. -/
def corruptedCycles : List (Input 12) :=
  (tokenPacket usbPidOut 1).cycles ++ (cycle (rxStart 1) ::
    ([0x11, 0x22, 0x33, 0x44, 0x55].map fun byte => cycle (rxByte 1 byte)) ++
      [cycle { rxEnd usbPidData0 1 with pktValid := false }, cycle (rxQuiet 1)])

theorem noTrace_corruptedCycles : NoTrace suppliedDevice corruptedCycles := by
  refine (noTrace_iff reachable_suppliedDevice ⟨?_, ?_, by decide, by decide⟩).2 (by decide +kernel)
  · simp only [corruptedCycles, tokenPacket, Packet.cycles, Packet.front]
    simp [rxOk_cycle, rxStart, rxEnd, rxQuiet, rxByte]
  · simp only [NoAck]
    decide

/-- The link is reset in the cycle in which the last byte of a full packet is strobed: no packet has
been acknowledged, and the length counter is jammed. -/
theorem aborted_severed : Aborted suppliedDevice OutTransaction.severed ∧
    Jammed (run step suppliedDevice OutTransaction.severed) ∧ ¬Jammed suppliedDevice := by
  refine ⟨⟨?_, ?_, by decide, by decide +kernel⟩, by decide +kernel, by decide⟩
  · exact OutTransaction.rxOk_severed
  · simp only [NoAck]
    decide +kernel

theorem not_forall_noTrace :
    ¬ ∀ s : State 12, Reachable step RxAllowed clearedDevice s →
      ∀ is : List (Input 12), Aborted s is → NoTrace s is := by
  intro hall
  obtain ⟨habort, hjam, hnot⟩ := aborted_severed
  have hbound : Bounded suppliedDevice :=
    bounded_of_reachable (bounded_reset _ _ _ _ _) reachable_suppliedDevice
  have hnone := hall _ reachable_suppliedDevice _ habort
  exact hnot ((jammed_iff_of_noTrace hbound habort hnone).1 hjam)

end UsbDev.Device
