import UsbDev.InDataPath
import UsbDev.OutAbort

/-!
# Tokens that are not answered

A token to another device, to an endpoint that is not implemented or switched
off, or a SETUP token to an endpoint that is not a control endpoint opens no
transaction. The device with such a token on the bus is compared with the device
whose bus was silent meanwhile: `Beside` relates the two runs cycle by cycle.
-/
namespace UsbDev.Device

open Clocked UsbIf

variable {N : ℕ} [NeZero N]

/-! ### Cycles without an answer -/

/-- The IN engine neither sends a packet nor is about to. -/
def InWaits (s : State N) : Prop :=
  inPhase s = .idle ∨ inPhase s = .waitAckStart ∨ inPhase s = .waitAck

/-- The device waits for the host: neither engine is answering. -/
def AwaitsHost (s : State N) : Prop := Listening s ∧ InWaits s

/-- Both engines wait for a token. -/
def Asleep (s : State N) : Prop := phase s = .idle ∧ inPhase s = .idle

/-- No valid token ends in this cycle. -/
def NoToken (i : Input N) : Prop :=
  (i.rx.pktEnd && i.rx.pktValid && pidType i.rx.pid == usbPidTypeToken) = false

/-- In this cycle the device accepts nothing, completes nothing and starts nothing. -/
structure Passive (s : State N) (i : Input N) : Prop where
  linkReset : i.linkReset = false
  noAccept : rxWvalid s i = false
  noEnd : inEpXactEnd s i = false
  noStart : inXactStarting s i = false

section cycle
variable {s s' : State N} {i j : Input N}

omit [NeZero N] in
theorem NoToken.tokenReceived (h : NoToken i) (d : BitVec 7) : i.rx.tokenReceived d = false := by
  rw [RxSignals.tokenReceived, show (i.rx.pktEnd && i.rx.pktValid &&
    pidType i.rx.pid == usbPidTypeToken) = false from h, Bool.false_and]

omit [NeZero N] in
theorem noToken_of_not_end (h : i.rx.pktEnd = false) : NoToken i := by
  simp [NoToken, h]

omit [NeZero N] in
theorem NoToken.not_inToken (h : NoToken i) : ¬ InToken i := by
  rintro ⟨ht, -⟩
  rw [h.tokenReceived] at ht
  exact absurd ht (by simp)

/-- No IN token starts a transaction of an endpoint that does not answer. -/
theorem inXactStarting_eq_false (s : State N)
    (h : (inInputPe s i).inTokenReceived = false ∨ (inInputPe s i).epActive = false) :
    inXactStarting s i = false := by
  have hstart : inXactStarting s i = InPe.inXactStarting s.inp.pe (inInputPe s i) := rfl
  rw [hstart, InPe.inXactStarting, InPe.inStarting]
  obtain h | h := h
  · rw [h, Bool.and_false, Bool.false_and]
  · rw [h, Bool.and_false]

/-- The IN engine completes a waiting transaction only on an acknowledgement. -/
theorem InWaits.inEpXactEnd (h : InWaits s) (hack : (inInputPe s i).ackReceived = false) :
    inEpXactEnd s i = false := by
  have hcomb : Device.inEpXactEnd s i = (InPe.comb s.inp.pe (inInputPe s i)).xactEnd := rfl
  unfold InWaits Device.inPhase at h
  rw [hcomb]
  unfold InPe.comb
  obtain hp | hp | hp := h <;> simp only [hp, hack, Bool.false_eq_true, if_false] <;>
    split_ifs <;> rfl

omit [NeZero N] in
theorem inAckReceived_of_not_end (s : State N) (h : i.rx.pktEnd = false) :
    (inInputPe s i).ackReceived = false := by
  have hrx : (inInputPe s i).rx = i.rx := rfl
  simp [InPe.Input.ackReceived, hrx, h]

omit [NeZero N] in
theorem inTokenReceived_of_noToken (s : State N) (h : NoToken i) :
    (inInputPe s i).inTokenReceived = false := by
  have hrx : (inInputPe s i).rx = i.rx := rfl
  rw [InPe.Input.inTokenReceived, hrx, h.tokenReceived, Bool.false_and]

/-- While the device waits, cycles without the end of a packet are passive. -/
theorem AwaitsHost.passive (h : AwaitsHost s) (hl : i.linkReset = false)
    (he : i.rx.pktEnd = false) : Passive s i where
  linkReset := hl
  noAccept := rxWvalid_of_listening h.1 i
  noEnd := h.2.inEpXactEnd (inAckReceived_of_not_end s he)
  noStart := inXactStarting_eq_false s
    (.inl (inTokenReceived_of_noToken s (noToken_of_not_end he)))

/-- Without the end of a packet the IN engine keeps waiting. -/
theorem InWaits.step (h : InWaits s) (he : i.rx.pktEnd = false) : InWaits (step s i) := by
  have hin := inTokenReceived_of_noToken s (noToken_of_not_end he)
  have hack := inAckReceived_of_not_end s he
  have hrx : (inInputPe s i).rx = i.rx := rfl
  unfold InWaits
  rw [inPhase_step]
  unfold InWaits Device.inPhase at h
  unfold InPe.comb
  obtain hp | hp | hp := h <;>
    simp only [hp, hack, hin, hrx, he, Bool.and_false, Bool.false_eq_true, if_false] <;>
    split_ifs <;> simp

theorem AwaitsHost.step (h : AwaitsHost s) (he : i.rx.pktEnd = false) :
    AwaitsHost (step s i) := ⟨listening_step h.1 he, h.2.step he⟩

/-- A start of packet ends the wait for the start of an acknowledgement. -/
theorem InWaits.step_start (h : InWaits s) (hst : i.rx.pktStart = true)
    (he : i.rx.pktEnd = false) : inPhase (Device.step s i) = .idle ∨
      inPhase (Device.step s i) = .waitAck := by
  have hin := inTokenReceived_of_noToken s (noToken_of_not_end he)
  have hack := inAckReceived_of_not_end s he
  have hrx : (inInputPe s i).rx = i.rx := rfl
  rw [inPhase_step]
  unfold InWaits Device.inPhase at h
  unfold InPe.comb
  obtain hp | hp | hp := h <;>
    simp only [hp, hack, hin, hrx, he, hst, Bool.and_false, Bool.false_eq_true, if_false,
      if_true] <;>
    split_ifs <;> simp

theorem Asleep.step (h : Asleep s) (hi : NoToken i) : Asleep (step s i) := by
  obtain ⟨hout, hinp⟩ := h
  refine ⟨?_, inPhase_step_idle hinp hi.not_inToken⟩
  have hs : s.out.pe.outXactState = .idle := hout
  have htok : (peInput s i).outTokenReceived = false ∧ (peInput s i).setupTokenReceived = false := by
    simp [OutPe.Input.outTokenReceived, OutPe.Input.setupTokenReceived, hi.tokenReceived]
  rw [phase_step]
  simp [OutPe.comb, hs, htok]

theorem Asleep.passive (h : Asleep s) (hl : i.linkReset = false) (hi : NoToken i) :
    Passive s i := by
  constructor
  case linkReset => exact hl
  case noAccept => exact rxWvalid_of_listening (.inl h.1) i
  case noEnd =>
    have hs : s.inp.pe.inXactState = .idle := h.2
    have hcomb : inEpXactEnd s i = (InPe.comb s.inp.pe (inInputPe s i)).xactEnd := rfl
    rw [hcomb, InPe.comb, hs]
    dsimp only
    split_ifs <;> rfl
  case noStart => exact inXactStarting_eq_false s (.inl (inTokenReceived_of_noToken s hi))

end cycle

/-! ### Two devices side by side -/

/-- Two devices that differ only in what the protocol engines remember of the last packets. -/
structure Beside (s s' : State N) : Prop where
  kept : Kept s s'
  configin : s.configin = s'.configin
  mem : s.ram.mem = s'.ram.mem
  dataPut : s.out.pe.outEpDataPut = false
  dataPut' : s'.out.pe.outEpDataPut = false
  stdWrite : s.out.stdWrite = s'.out.stdWrite
  /-- A word that waits to be written is the same word for the same place. -/
  pending : s.out.stdWrite = true → s.out.wdata = s'.out.wdata ∧
    s.out.outMaxUsed = s'.out.outMaxUsed ∧ currentSetup s.out = currentSetup s'.out

/-- Software leaves the data toggles alone and writes no word of the RAM, and there is no link
reset. -/
structure Undisturbed (i : Input N) : Prop where
  linkReset : i.linkReset = false
  outDatatog : i.sw.outDatatog = none
  inDatatog : i.sw.inDatatog = none
  mem : ∀ q, i.sw.mem = some q → q.write = false

section pair
variable {s s' : State N} {i j : Input N}

/-- Without a write by software the RAM changes only under the word of the OUT side. -/
theorem mem_step_of_sw_read (hsw : ∀ q, i.sw.mem = some q → q.write = false) :
    (step s i).ram.mem =
      if memWrite s.out (outInput s i) then
        Function.update s.ram.mem (memWaddr s.out (outInput s i)) s.out.wdata
      else s.ram.mem := by
  have hmem : (step s i).ram.mem =
      PacketRam.writeMem s.ram.mem (PacketRam.served (usbReq s i) i.sw.mem) := rfl
  rw [hmem]
  cases hm : memWrite s.out (outInput s i) with
  | true => simp [PacketRam.served, usbReq, hm]
  | false =>
      cases hr : memRead s.inp with
      | true => simp [PacketRam.served, usbReq, hm, hr]
      | false =>
          cases hq : i.sw.mem with
          | none => simp [PacketRam.served, usbReq, hm, hr]
          | some q =>
              obtain ⟨write, addr, data⟩ := q
              obtain rfl : write = false := hsw _ hq
              simp [PacketRam.served, usbReq, hm, hr]

/-- In a passive cycle hardware leaves `configin` alone. -/
theorem Passive.hardware_eq_false (h : Passive s i) (e : Fin N) :
    setSending s i e = false ∧ setSentbit s i e = false ∧ updatePend s i e = false ∧
      clearRdybit s i e = false := by
  have hsr := setupReceived_eq_false h.noAccept
  simp [setSending, setSentbit, updatePend, clearRdybit, eventLinkReset, h.noStart, h.noEnd, hsr,
    h.linkReset]

theorem configin_step_congr (hs : s.configin = s'.configin) (hi : Passive s i)
    (hj : Passive s' j) (hsw : i.sw = j.sw) : (step s i).configin = (step s' j).configin := by
  funext e
  obtain ⟨h1, h2, h3, h4⟩ := hi.hardware_eq_false e
  obtain ⟨h1', h2', h3', h4'⟩ := hj.hardware_eq_false e
  change configinD s i e = configinD s' j e
  simp only [configinD, configinWd, h1, h2, h3, h4, h1', h2', h3', h4', hs, hsw]

theorem stdWrite_step (hl : i.linkReset = false) (hd : s.out.pe.outEpDataPut = false) :
    (step s i).out.stdWrite = false := by
  have h : (step s i).out.stdWrite = if i.linkReset then false else stdWriteD s.out := rfl
  rw [h, hl, stdWriteD, hd]
  rfl

theorem memWrite_of_noAccept (ha : rxWvalid s i = false) :
    memWrite s.out (outInput s i) = (avRvalid s.out (outInput s i) && s.out.stdWrite) := by
  have hack : (outComb s.out (outInput s i)).acked = false := ha
  rw [memWrite, hack, Bool.and_false, Bool.or_false]

/-- The word that waits is written in both devices. -/
theorem Beside.mem_step (h : Beside s s') (hi : Passive s i) (hj : Passive s' j)
    (hu : Undisturbed i) (hsw : i.sw = j.sw) : (step s i).ram.mem = (step s' j).ram.mem := by
  rw [mem_step_of_sw_read hu.mem, mem_step_of_sw_read (by rw [← hsw]; exact hu.mem),
    memWrite_of_noAccept hi.noAccept, memWrite_of_noAccept hj.noAccept, ← h.stdWrite, h.mem]
  cases hp : s.out.stdWrite with
  | false => simp
  | true =>
      obtain ⟨hw, hmax, hcur⟩ := h.pending hp
      have hvalid : avRvalid s.out (outInput s i) = avRvalid s'.out (outInput s' j) := by
        simp only [avRvalid, outInput, hcur, h.kept.avsetup, h.kept.avout]
      have haddr : memWaddr s.out (outInput s i) = memWaddr s'.out (outInput s' j) := by
        simp only [memWaddr, avRdata, outInput, hcur, hmax, h.kept.avsetup, h.kept.avout]
      rw [hvalid, haddr, hw]

/-- Passive cycles without a byte keep two devices side by side. -/
theorem Beside.step (h : Beside s s') (hi : Passive s i) (hj : Passive s' j)
    (hu : Undisturbed i) (hsw : i.sw = j.sw) (hb : i.rx.dataPut = false ∨ Asleep s)
    (hb' : j.rx.dataPut = false) : Beside (step s i) (step s' j) where
  kept := h.kept.step hsw hi.noAccept hj.noAccept
  configin := configin_step_congr h.configin hi hj hsw
  mem := h.mem_step hi hj hu hsw
  dataPut := by
    have hput : (Device.step s i).out.pe.outEpDataPut =
        (phase s == .rcvdDataStart && i.rx.dataPut) := rfl
    obtain hb | hb := hb
    · rw [hput, hb, Bool.and_false]
    · rw [hput, hb.1]
      rfl
  dataPut' := by
    have hput : (Device.step s' j).out.pe.outEpDataPut =
        (phase s' == .rcvdDataStart && j.rx.dataPut) := rfl
    rw [hput, hb', Bool.and_false]
  stdWrite := by
    rw [stdWrite_step hi.linkReset h.dataPut, stdWrite_step hj.linkReset h.dataPut']
  pending := by
    rw [stdWrite_step hi.linkReset h.dataPut]
    intro hfalse
    exact absurd hfalse (by simp)

/-! ### Data toggles -/

/-- The OUT toggles after a cycle without acceptance in which software leaves them alone. -/
theorem outToggles_step (hi : Passive s i) (hu : Undisturbed i) :
    (step s i).out.pe.dataToggle =
      if i.rx.tokenReceived i.cfg.devAddr && i.rx.pid == usbPidSetup &&
          (i.cfg.epOutEnable i.rx.epCurrentD && i.rx.epInHw N) then
        Function.update s.out.pe.dataToggle i.rx.epCurrentD false
      else s.out.pe.dataToggle := by
  rw [dataToggle_step hi.noAccept]
  simp only [toggleEffect, hi.linkReset, hu.outDatatog, Bool.false_eq_true, if_false]

/-- The IN toggles after a cycle without acknowledgement in which software leaves them alone. -/
theorem inToggles_step (hu : Undisturbed i)
    (hack : inPhase s ≠ .waitAck ∨ (inInputPe s i).ackReceived = false) :
    (step s i).inp.pe.dataToggle =
      if i.rx.tokenReceived i.cfg.devAddr && i.rx.pid == usbPidSetup &&
          (i.cfg.epInEnable i.rx.epCurrentD && i.rx.epInHw N) then
        Function.update s.inp.pe.dataToggle i.rx.epCurrentD true
      else s.inp.pe.dataToggle := by
  have hno : (s.inp.pe.inXactState == .waitAck && (inInputPe s i).ackReceived) = false := by
    obtain h | h := hack
    · rw [show (s.inp.pe.inXactState == .waitAck) = false from beq_eq_false_iff_ne.2 h,
        Bool.false_and]
    · rw [h, Bool.and_false]
  have hstep : (step s i).inp.pe.dataToggle =
      if i.linkReset then fun _ => false else InPe.dataToggleD s.inp.pe (inInputPe s i) := rfl
  have hdat : (inInputPe s i).datatog = none := hu.inDatatog
  rw [hstep, hu.linkReset, InPe.dataToggleD, hdat, hno]
  rfl

/-- The data toggles of both directions. -/
def toggles (s : State N) : (Fin N → Bool) × (Fin N → Bool) :=
  (s.out.pe.dataToggle, s.inp.pe.dataToggle)

/-- Without a token or an acknowledgement the toggles stay. -/
theorem toggles_step (hi : Passive s i) (hu : Undisturbed i) (ht : NoToken i)
    (hack : inPhase s ≠ .waitAck ∨ (inInputPe s i).ackReceived = false) :
    toggles (step s i) = toggles s := by
  have htok := ht.tokenReceived i.cfg.devAddr
  apply Prod.ext
  · change (step s i).out.pe.dataToggle = s.out.pe.dataToggle
    rw [outToggles_step hi hu, htok]
    rfl
  · change (step s i).inp.pe.dataToggle = s.inp.pe.dataToggle
    rw [inToggles_step hu hack, htok]
    rfl

/-! ### The first cycle -/

/-- The OUT engine's answer does not depend on a start of packet. -/
theorem comb_hush (s : State N) (he : i.rx.pktEnd = false) :
    (OutPe.comb s.out.pe (peInput s (hush i))).acked = (OutPe.comb s.out.pe (peInput s i)).acked ∧
      (OutPe.comb s.out.pe (peInput s (hush i))).rollback =
        (OutPe.comb s.out.pe (peInput s i)).rollback := by
  cases hs : s.out.pe.outXactState with
  | idle =>
      rw [OutPe.comb_idle_of_not_end rfl hs, OutPe.comb_idle_of_not_end he hs]
      simp
  | rcvdOut =>
      simp only [OutPe.comb, hs]
      split_ifs <;> simp
  | rcvdDataStart =>
      rw [OutPe.comb_dataStart_of_not_end rfl hs, OutPe.comb_dataStart_of_not_end he hs]
      simp
  | rcvdDataEnd =>
      simp only [OutPe.comb, hs]
      exact ⟨rfl, rfl⟩
  | rcvdIsoDataEnd =>
      simp only [OutPe.comb, hs]
      exact ⟨rfl, rfl⟩

theorem rxWvalid_hush (s : State N) (he : i.rx.pktEnd = false) :
    rxWvalid s (hush i) = rxWvalid s i := (comb_hush s he).1

theorem setupReceived_hush (s : State N) (he : i.rx.pktEnd = false) :
    setupReceived s (hush i) = setupReceived s i := by
  change (currentSetup s.out && rxWvalid s (hush i)) = (currentSetup s.out && rxWvalid s i)
  rw [rxWvalid_hush s he]

theorem kept_hush (s : State N) (he : i.rx.pktEnd = false) :
    Kept (step s i) (step s (hush i)) := by
  have ha := rxWvalid_hush s he
  have hsr := setupReceived_hush s he
  constructor
  · rfl
  · rfl
  · change s.rxFifo.step (rxFifoIn s i) = s.rxFifo.step (rxFifoIn s (hush i))
    simp only [rxFifoIn, ha]
    rfl
  · funext e
    simp only [Device.step, clearRxenableOut, ha]
    rfl
  · funext e
    simp only [Device.step, hsr]
    rfl
  · funext e
    simp only [Device.step, hsr]
    rfl
  · change (rxWvalid s i && currentSetup s.out) = (rxWvalid s (hush i) && currentSetup s.out)
    rw [ha]
  · change (rxWvalid s i && !currentSetup s.out) = (rxWvalid s (hush i) && !currentSetup s.out)
    rw [ha]

/-- A start of packet and the silent bus leave the device side by side. -/
theorem beside_hush (h : InWaits s) (hu : Undisturbed i) (he : i.rx.pktEnd = false)
    (hb : i.rx.dataPut = false) : Beside (step s i) (step s (hush i)) := by
  have ha := rxWvalid_hush s he
  have hnotok := noToken_of_not_end he
  have hend := h.inEpXactEnd (inAckReceived_of_not_end s he)
  have hend' := h.inEpXactEnd (i := hush i) (inAckReceived_of_not_end s rfl)
  have hstart := inXactStarting_eq_false s (.inl (inTokenReceived_of_noToken s hnotok))
  have hstart' := inXactStarting_eq_false s (i := hush i)
    (.inl (inTokenReceived_of_noToken s (noToken_of_not_end rfl)))
  have hlink : (hush i).linkReset = i.linkReset := hu.linkReset.symm
  constructor
  case kept => exact kept_hush s he
  case configin =>
    funext e
    change configinD s i e = configinD s (hush i) e
    have hupd : updatePend s (hush i) e = updatePend s i e := by
      simp only [updatePend, eventLinkReset, setupReceived_hush s he, hlink]
    have hclr : clearRdybit s (hush i) e = clearRdybit s i e := by
      simp only [clearRdybit, eventLinkReset, setupReceived_hush s he, hlink, hend, hend']
    simp only [configinD, setSending, setSentbit, hupd, hclr, hend, hend', hstart, hstart',
      Bool.false_and]
    rfl
  case mem =>
    have hw : memWrite s.out (outInput s (hush i)) = memWrite s.out (outInput s i) := by
      change (avRvalid s.out (outInput s i) && (_ || (_ && rxWvalid s (hush i)))) = _
      rw [ha]
      rfl
    rw [mem_step_of_sw_read hu.mem, mem_step_of_sw_read (i := hush i) hu.mem, hw]
    rfl
  case dataPut =>
    change (phase s == .rcvdDataStart && i.rx.dataPut) = false
    rw [hb, Bool.and_false]
  case dataPut' =>
    change (phase s == .rcvdDataStart && false) = false
    rw [Bool.and_false]
  case stdWrite =>
    change (if i.linkReset then false else stdWriteD s.out) =
      if (hush i).linkReset then false else stdWriteD s.out
    rw [hlink]
  case pending =>
    intro _
    obtain ⟨hack, hroll⟩ := comb_hush s he
    refine ⟨?_, ?_, ?_⟩
    · change (if i.linkReset then s.out.wdata else if s.out.pe.outEpDataPut then wdataD s.out
        else s.out.wdata) = if (hush i).linkReset then s.out.wdata else if s.out.pe.outEpDataPut
        then wdataD s.out else s.out.wdata
      rw [hlink]
    · change (if i.linkReset then 0 else outMaxUsedD s.out (outInput s i)) =
        if (hush i).linkReset then 0 else outMaxUsedD s.out (outInput s (hush i))
      have hcomb : ∀ j : Input N, outComb s.out (outInput s j) =
        OutPe.comb s.out.pe (peInput s j) := fun _ => rfl
      simp only [hlink, outMaxUsedD, hcomb, hack, hroll]
    · rw [currentSetup_step he, currentSetup_step rfl]

/-- Acceptance in the first cycle numbers both alike. -/
theorem toggles_hush (hu : Undisturbed i) (he : i.rx.pktEnd = false) :
    toggles (step s i) = toggles (step s (hush i)) := by
  apply Prod.ext
  · change (if i.linkReset then fun _ => false else OutPe.dataToggleD s.out.pe (peInput s i)) =
      OutPe.dataToggleD s.out.pe (peInput s (hush i))
    rw [hu.linkReset]
    simp only [OutPe.dataToggleD, OutPe.newPktEnd_eq_acked, (comb_hush s he).1,
      OutPe.setupTokenReceived_of_not_end (i := peInput s i) he,
      OutPe.setupTokenReceived_of_not_end (i := peInput s (hush i)) rfl]
    rfl
  · have hset : (inInputPe s i).setupTokenReceived = false := by
      have hrx : (inInputPe s i).rx = i.rx := rfl
      simp [InPe.Input.setupTokenReceived, hrx, he]
    have hset' : (inInputPe s (hush i)).setupTokenReceived = false := by
      have hrx : (inInputPe s (hush i)).rx = (hush i).rx := rfl
      have he' : (hush i).rx.pktEnd = false := rfl
      simp [InPe.Input.setupTokenReceived, hrx, he']
    change (if i.linkReset then fun _ => false else InPe.dataToggleD s.inp.pe (inInputPe s i)) =
      InPe.dataToggleD s.inp.pe (inInputPe s (hush i))
    rw [hu.linkReset]
    simp only [InPe.dataToggleD, hset, hset', inAckReceived_of_not_end s he,
      inAckReceived_of_not_end (i := hush i) s rfl]
    rfl

end pair

/-! ### The transaction -/

/-- A valid token and what follows it up to the next token. Only DATA packets carry bytes. -/
structure TokenTransaction (N : ℕ) where
  token : Packet N
  rest : List (Input N)
  token_valid : token.last.rx.pktValid = true
  token_pid : pidType token.last.rx.pid = usbPidTypeToken
  token_noByte : ∀ i ∈ token.cycles, i.rx.dataPut = false
  rest_noToken : ∀ i ∈ rest, NoToken i
  undisturbed : ∀ i ∈ token.cycles ++ rest, Undisturbed i

namespace TokenTransaction

def cycles (x : TokenTransaction N) : List (Input N) := x.token.cycles ++ x.rest

/-- The token is not answered: it names another device or an endpoint that is not implemented,
the direction it opens is disabled, or it is a SETUP token for an endpoint that is not a control
endpoint. -/
def Ignored (x : TokenTransaction N) : Prop :=
  let i := x.token.last
  let e : Fin N := i.rx.epCurrentD
  i.rx.addr ≠ i.cfg.devAddr ∨ i.rx.epInHw N = false ∨
    (i.rx.pid = usbPidSetup ∧ (i.cfg.epOutEnable e = false ∨ i.cfg.rxenableSetup e = false)) ∨
    (i.rx.pid = usbPidOut ∧ i.cfg.epOutEnable e = false) ∨
    (i.rx.pid = usbPidIn ∧ i.cfg.epInEnable e = false)

/-- The device in the cycle in which the token ends. -/
def atToken (x : TokenTransaction N) (s : State N) : State N := run step s x.token.front

end TokenTransaction

/-- The same data toggles, stall bits, `configin` registers, FIFOs and RAM. -/
structure SameBuffers (s s' : State N) : Prop where
  toggles : toggles s = toggles s'
  inStall : s.inStall = s'.inStall
  outStall : s.outStall = s'.outStall
  configin : s.configin = s'.configin
  avsetup : s.avsetup = s'.avsetup
  avout : s.avout = s'.avout
  rxFifo : s.rxFifo = s'.rxFifo
  mem : s.ram.mem = s'.ram.mem

omit [NeZero N] in
theorem SameBuffers.trans {s s' s'' : State N} (h : SameBuffers s s') (h' : SameBuffers s' s'') :
    SameBuffers s s'' :=
  ⟨h.toggles.trans h'.toggles, h.inStall.trans h'.inStall, h.outStall.trans h'.outStall,
    h.configin.trans h'.configin, h.avsetup.trans h'.avsetup, h.avout.trans h'.avout,
    h.rxFifo.trans h'.rxFifo, h.mem.trans h'.mem⟩

omit [NeZero N] in
theorem Beside.sameBuffers_iff {s s' : State N} (h : Beside s s') :
    SameBuffers s s' ↔ toggles s = toggles s' := by
  constructor
  · intro hs
    exact hs.toggles
  · intro ht
    exact ⟨ht, h.kept.inStall, h.kept.outStall, h.configin, h.kept.avsetup, h.kept.avout,
      h.kept.rxFifo, h.mem⟩

/-! ### A silent bus -/

/-- Nothing of an earlier packet is still on its way into the FIFOs or the RAM. -/
structure Settled (s : State N) : Prop where
  awaits : AwaitsHost s
  avsetup : s.avsetup.underRst = false ∧ s.out.avsetupRready = false
  avout : s.avout.underRst = false ∧ s.out.avoutRready = false
  rxFifo : s.rxFifo.underRst = false
  dataPut : s.out.pe.outEpDataPut = false
  stdWrite : s.out.stdWrite = false

/-- With a silent bus and idle software a settled device keeps its toggles and buffers. -/
theorem Settled.step_hush {s : State N} (h : Settled s) {i : Input N} (hsw : i.sw = {}) :
    Settled (step s (hush i)) ∧ SameBuffers (step s (hush i)) s := by
  have hp : Passive s (hush i) := h.awaits.passive rfl rfl
  have hsw' : (hush i).sw = {} := hsw
  have hu : Undisturbed (hush i) := by
    refine ⟨rfl, ?_, ?_, ?_⟩ <;> rw [hsw']
    intro q hq
    exact absurd hq (by simp)
  have hset := avRready_step s (hush i) true
  have hout := avRready_step s (hush i) false
  rw [hp.noAccept, Bool.false_and] at hset hout
  constructor
  · exact ⟨h.awaits.step rfl, ⟨rfl, hset⟩, ⟨rfl, hout⟩, rfl,
      Bool.and_false _, stdWrite_step rfl h.dataPut⟩
  · constructor
    case toggles =>
      exact toggles_step hp hu (noToken_of_not_end rfl) (.inr (inAckReceived_of_not_end s rfl))
    case inStall =>
      funext e
      simp [Device.step, subregRW, hsw', setupReceived_eq_false hp.noAccept]
    case outStall =>
      funext e
      simp [Device.step, subregRW, hsw', setupReceived_eq_false hp.noAccept]
    case configin =>
      funext e
      obtain ⟨h1, h2, h3, h4⟩ := hp.hardware_eq_false e
      change configinD s (hush i) e = s.configin e
      simp [configinD, configinWd, subregRW, subregW1C, hsw', h1, h2, h3, h4]
    case avsetup =>
      exact SyncFifo.State.step_idle _ h.avsetup.1 (by simp [avsetupIn, hsw'])
        (by simp [avsetupIn, hsw']) h.avsetup.2
    case avout =>
      exact SyncFifo.State.step_idle _ h.avout.1 (by simp [avoutIn, hsw'])
        (by simp [avoutIn, hsw']) h.avout.2
    case rxFifo =>
      exact SyncFifo.State.step_idle _ h.rxFifo (by simp [rxFifoIn, hsw'])
        (by simp [rxFifoIn, hp.noAccept]) (by simp [rxFifoIn, hsw'])
    case mem =>
      rw [mem_step_of_sw_read hu.mem, memWrite_of_noAccept hp.noAccept, h.stdWrite,
        Bool.and_false]
      rfl

/-- So the silent run that a token is compared with ends with the buffers it started with. -/
theorem Settled.run_hush {s : State N} (h : Settled s) (is : List (Input N))
    (hsw : ∀ i ∈ is, i.sw = {}) : SameBuffers (run step s (is.map hush)) s := by
  induction is generalizing s with
  | nil => exact ⟨rfl, rfl, rfl, rfl, rfl, rfl, rfl, rfl⟩
  | cons i is ih =>
      simp only [List.mem_cons, forall_eq_or_imp] at hsw
      obtain ⟨hnext, hsame⟩ := h.step_hush hsw.1
      exact (ih hnext hsw.2).trans hsame

/-! ### A packet that is not answered -/

/-- A packet is on the bus that no engine takes for what it waits for. -/
def Ready (s : State N) : Prop :=
  (phase s = .idle ∨ phase s = .rcvdDataStart) ∧ (inPhase s = .idle ∨ inPhase s = .waitAck)

section runs
variable {s s' : State N} {i : Input N}

omit [NeZero N] in
theorem Ready.awaitsHost (h : Ready s) : AwaitsHost s :=
  ⟨h.1.elim .inl fun h' => .inr (.inr h'), h.2.elim .inl fun h' => .inr (.inr h')⟩

theorem Ready.step (h : Ready s) (hl : i.linkReset = false) (he : i.rx.pktEnd = false) :
    Ready (step s i) := by
  have hin := inTokenReceived_of_noToken s (noToken_of_not_end he)
  have hack := inAckReceived_of_not_end s he
  have hrx : (inInputPe s i).rx = i.rx := rfl
  constructor
  · obtain hp | hp := h.1
    · exact .inl (phase_step_idle hp he)
    · rw [phase_step_dataStart hp he, hl]
      exact .inr rfl
  · rw [inPhase_step]
    have hi := h.2
    unfold Device.inPhase at hi
    unfold InPe.comb
    obtain hp | hp := hi <;>
      simp only [hp, hack, hin, hrx, he, Bool.and_false, Bool.false_eq_true, if_false] <;>
      split_ifs <;> simp

/-- The run with the token beside the silent one. -/
structure Pair (s s' : State N) : Prop where
  beside : Beside s s'
  awaits : AwaitsHost s'

/-- The packet begins. -/
theorem pair_start (h : InWaits s) (hu : Undisturbed i) (hst : i.rx.pktStart = true)
    (he : i.rx.pktEnd = false) (hb : i.rx.dataPut = false) :
    Ready (step s i) ∧ Pair (step s i) (step s (hush i)) := by
  have hlisten : Listening (step s (hush i)) := by
    cases hs : phase s with
    | idle => exact listening_step (.inl hs) rfl
    | rcvdOut => exact listening_step (.inr (.inl hs)) rfl
    | rcvdDataStart => exact listening_step (.inr (.inr hs)) rfl
    | rcvdDataEnd => exact .inl (phase_step_dataEnd (.inl hs))
    | rcvdIsoDataEnd => exact .inl (phase_step_dataEnd (.inr hs))
  exact ⟨⟨phase_step_start s hst he, h.step_start hst he⟩, beside_hush h hu he hb, hlisten,
    h.step rfl⟩

/-- One more cycle, with the bus silent on the other side. -/
theorem Pair.step (h : Pair s s') (hi : Passive s i) (hu : Undisturbed i)
    (hb : i.rx.dataPut = false ∨ Asleep s) :
    Pair (step s i) (step s' (hush i)) ∧ toggles (Device.step s' (hush i)) = toggles s' := by
  have hj : Passive s' (hush i) := h.awaits.passive rfl rfl
  have hu' : Undisturbed (hush i) := ⟨rfl, hu.outDatatog, hu.inDatatog, hu.mem⟩
  exact ⟨⟨h.beside.step hi hj hu rfl hb rfl, h.awaits.step rfl⟩,
    toggles_step hj hu' (noToken_of_not_end rfl) (.inr (inAckReceived_of_not_end s' rfl))⟩

/-- Cycles that keep the side with the packets in `I` passive change no toggle on either side. -/
theorem Pair.run {I : State N → Prop} {ok : Input N → Prop}
    (hI : ∀ s i, I s → ok i → Undisturbed i → Passive s i ∧
      (i.rx.dataPut = false ∨ Asleep s) ∧ toggles (Device.step s i) = toggles s ∧
      I (Device.step s i))
    (h : Pair s s') (hs : I s) (is : List (Input N)) (hok : ∀ i ∈ is, ok i)
    (hu : ∀ i ∈ is, Undisturbed i) :
    I (run Device.step s is) ∧ Pair (run Device.step s is) (run Device.step s' (is.map hush)) ∧
      toggles (run Device.step s is) = toggles s ∧
      toggles (run Device.step s' (is.map hush)) = toggles s' := by
  induction is generalizing s s' with
  | nil => exact ⟨hs, h, rfl, rfl⟩
  | cons i is ih =>
      simp only [List.mem_cons, forall_eq_or_imp] at hok hu
      obtain ⟨hpass, hbyte, htog, hnext⟩ := hI s i hs hok.1 hu.1
      obtain ⟨hpair, htog'⟩ := h.step hpass hu.1 hbyte
      obtain ⟨h1, h2, h3, h4⟩ := ih hpair hnext hok.2 hu.2
      exact ⟨h1, h2, h3.trans htog, h4.trans htog'⟩

/-- The packet goes on. -/
theorem Ready.cycle (h : Ready s) (hi : i.rx.pktEnd = false ∧ i.rx.dataPut = false)
    (hu : Undisturbed i) : Passive s i ∧ (i.rx.dataPut = false ∨ Asleep s) ∧
      toggles (Device.step s i) = toggles s ∧ Ready (Device.step s i) := by
  have hpass := h.awaitsHost.passive hu.linkReset hi.1
  exact ⟨hpass, .inl hi.2, toggles_step hpass hu (noToken_of_not_end hi.1)
    (.inr (inAckReceived_of_not_end s hi.1)), h.step hu.linkReset hi.1⟩

/-- What follows an ignored token meets engines that wait for the next one. -/
theorem Asleep.cycle (h : Asleep s) (hi : NoToken i) (hu : Undisturbed i) : Passive s i ∧
    (i.rx.dataPut = false ∨ Asleep s) ∧ toggles (Device.step s i) = toggles s ∧
      Asleep (Device.step s i) := by
  have hpass := h.passive hu.linkReset hi
  have hne : inPhase s ≠ .waitAck := by
    rw [h.2]
    simp
  exact ⟨hpass, .inr h, toggles_step hpass hu hi (.inl hne), h.step hi⟩

end runs

namespace TokenTransaction

variable {x : TokenTransaction N} {s : State N}

/-- Up to the end of the token the two runs agree on the toggles. -/
theorem pair_atToken (hs : InWaits s) : Ready (x.atToken s) ∧
    Pair (x.atToken s) (run step s (x.token.front.map hush)) ∧
    toggles (x.atToken s) = toggles (run step s (x.token.front.map hush)) := by
  have hmem : ∀ i ∈ x.token.front, i.rx.pktEnd = false ∧ i.rx.dataPut = false ∧ Undisturbed i := by
    intro i hi
    have hi' : i ∈ x.token.cycles := List.mem_append_left _ hi
    exact ⟨x.token.front_pktEnd i hi, x.token_noByte i hi',
      x.undisturbed i (List.mem_append_left _ hi')⟩
  obtain ⟨hend, hbyte, hu⟩ := hmem x.token.start List.mem_cons_self
  have hbody : ∀ i ∈ x.token.body, i.rx.pktEnd = false ∧ i.rx.dataPut = false :=
    fun i hi => ⟨(hmem i (List.mem_cons_of_mem _ hi)).1, (hmem i (List.mem_cons_of_mem _ hi)).2.1⟩
  obtain ⟨hready, hpair⟩ := pair_start hs hu x.token.start_pktStart hend hbyte
  obtain ⟨h1, h2, h3, h4⟩ := hpair.run (I := Ready)
    (fun _ _ hr hi hu => hr.cycle hi hu) hready x.token.body hbody
    (fun i hi => (hmem i (List.mem_cons_of_mem _ hi)).2.2)
  refine ⟨h1, h2, ?_⟩
  calc toggles (x.atToken s) = toggles (step s x.token.start) := h3
    _ = toggles (step s (hush x.token.start)) := toggles_hush hu hend
    _ = toggles (run step s (x.token.front.map hush)) := h4.symm

omit [NeZero N] in
theorem token_ne_ack (x : TokenTransaction N) : x.token.last.rx.pid ≠ usbPidAck := by
  intro h
  have hpid := x.token_pid
  rw [h] at hpid
  exact absurd hpid (by decide)

omit [NeZero N] in
theorem not_ackReceived (x : TokenTransaction N) (s : State N) :
    (inInputPe s x.token.last).ackReceived = false := by
  have hrx : (inInputPe s x.token.last).rx = x.token.last.rx := rfl
  have hne : (x.token.last.rx.pid == usbPidAck) = false := beq_eq_false_iff_ne.2 x.token_ne_ack
  rw [InPe.Input.ackReceived, hrx, hne, Bool.and_false]

omit [NeZero N] in
/-- The token is received exactly by the device with its address. -/
theorem tokenReceived_iff (x : TokenTransaction N) :
    x.token.last.rx.tokenReceived x.token.last.cfg.devAddr = true ↔
      x.token.last.rx.addr = x.token.last.cfg.devAddr := by
  simp [RxSignals.tokenReceived, x.token.last_pktEnd, x.token_valid, x.token_pid]

/-- An ignored token opens no IN transaction. -/
theorem Ignored.noIn (h : x.Ignored) (s : State N) :
    (inInputPe s x.token.last).inTokenReceived = false ∨
      (inInputPe s x.token.last).epActive = false := by
  have hrx : (inInputPe s x.token.last).rx = x.token.last.rx := rfl
  have hdev : (inInputPe s x.token.last).devAddr = x.token.last.cfg.devAddr := rfl
  have hen : (inInputPe s x.token.last).enabled = x.token.last.cfg.epInEnable := rfl
  have hrec := x.tokenReceived_iff
  simp only [InPe.Input.inTokenReceived, InPe.Input.epActive, hrx, hdev, hen]
  obtain haddr | hep | ⟨hpid, -⟩ | ⟨hpid, -⟩ | ⟨-, hdis⟩ := h
  · rw [ne_eq, ← hrec, Bool.not_eq_true] at haddr
    rw [haddr]
    exact .inl rfl
  · rw [hep]
    exact .inr (Bool.and_false _)
  · rw [hpid]
    exact .inl (Bool.and_eq_false_iff.2 (.inr rfl))
  · rw [hpid]
    exact .inl (Bool.and_eq_false_iff.2 (.inr rfl))
  · rw [hdis]
    exact .inr rfl

/-- An ignored token opens no OUT or SETUP transaction. -/
theorem Ignored.noOut (h : x.Ignored) (s : State N) :
    ((peInput s x.token.last).epActive && ((peInput s x.token.last).outTokenReceived ||
      ((peInput s x.token.last).setupTokenReceived && (peInput s x.token.last).epIsControl))) =
        false := by
  have hdev : (peInput s x.token.last).devAddr = x.token.last.cfg.devAddr := rfl
  have hen : (peInput s x.token.last).enabled = x.token.last.cfg.epOutEnable := rfl
  have hctl : (peInput s x.token.last).control = x.token.last.cfg.rxenableSetup := rfl
  have hrec := x.tokenReceived_iff
  simp only [OutPe.Input.outTokenReceived, OutPe.Input.setupTokenReceived, OutPe.Input.epActive,
    OutPe.Input.epIsControl, peInput_rx, hdev, hen, hctl]
  obtain haddr | hep | ⟨hpid, hdis | hdis⟩ | ⟨hpid, hdis⟩ | ⟨hpid, -⟩ := h
  · rw [ne_eq, ← hrec, Bool.not_eq_true] at haddr
    simp [haddr]
  · simp [hep]
  · simp [hdis]
  · simp [hdis, hpid, usbPidSetup, usbPidOut]
  · simp [hdis]
  · simp [hpid, usbPidIn, usbPidSetup, usbPidOut]

/-- An ignored token leaves both engines waiting for the next one. -/
theorem Ignored.asleep (h : x.Ignored) {q : State N} (hq : Ready q) :
    Asleep (step q x.token.last) := by
  have hrx : (inInputPe q x.token.last).rx = x.token.last.rx := rfl
  have hend : x.token.last.rx.pktEnd = true := x.token.last_pktEnd
  constructor
  · obtain hp | hp := hq.1
    · have hs : q.out.pe.outXactState = .idle := hp
      rw [phase_step, OutPe.comb, hs]
      simp only [h.noOut q, Bool.false_eq_true, if_false, ite_self]
    · have hs : q.out.pe.outXactState = .rcvdDataStart := hp
      have h0 : x.token.last.rx.pid ≠ usbPidData0 := by
        intro hpid
        have := x.token_pid
        rw [hpid] at this
        exact absurd this (by decide)
      have h1 : x.token.last.rx.pid ≠ usbPidData1 := by
        intro hpid
        have := x.token_pid
        rw [hpid] at this
        exact absurd this (by decide)
      have hdata : x.token.last.rx.dataPacketReceived = false := by
        simp [RxSignals.dataPacketReceived, h0, h1]
      have hnon : (peInput q x.token.last).nonDataPacketReceived = true := by
        simp [OutPe.Input.nonDataPacketReceived, hend, x.token_valid, h0, h1]
      rw [phase_step, OutPe.comb, hs]
      simp [OutPe.badDataToggle, hdata, hnon]
  · have hack := x.not_ackReceived q
    rw [inPhase_step]
    have hi := hq.2
    unfold Device.inPhase at hi
    unfold InPe.comb
    obtain hno | hno := h.noIn q <;> obtain hp | hp := hi <;>
      simp only [hp, hack, hno, hrx, hend, Bool.and_false, Bool.false_and, Bool.false_eq_true,
        if_false, if_true] <;>
      split_ifs <;> rfl

theorem Ignored.passive (h : x.Ignored) {q : State N} (hq : Ready q)
    (hu : Undisturbed x.token.last) : Passive q x.token.last where
  linkReset := hu.linkReset
  noAccept := rxWvalid_of_listening hq.awaitsHost.1 _
  noEnd := hq.awaitsHost.2.inEpXactEnd (x.not_ackReceived q)
  noStart := inXactStarting_eq_false q (h.noIn q)

/-- The transaction leaves the toggles, stall bits, `configin`, FIFOs and RAM as the silent bus
does. -/
def Unchanged (x : TokenTransaction N) (s : State N) : Prop :=
  SameBuffers (run step s x.cycles) (run step s (x.cycles.map hush))

/-- A SETUP token for an implemented endpoint of the device one of whose directions is enabled
with a data toggle that is not what a SETUP transaction sets. -/
def ResetsToggle (x : TokenTransaction N) (s : State N) : Prop :=
  let i := x.token.last
  let e : Fin N := i.rx.epCurrentD
  i.rx.addr = i.cfg.devAddr ∧ i.rx.pid = usbPidSetup ∧ i.rx.epInHw N = true ∧
    ((i.cfg.epOutEnable e = true ∧ (x.atToken s).out.pe.dataToggle e = true) ∨
      (i.cfg.epInEnable e = true ∧ (x.atToken s).inp.pe.dataToggle e = false))

/-- What the end of an ignored token does to the toggles. -/
theorem toggles_token_iff {q : State N} (hi : Passive q x.token.last)
    (hu : Undisturbed x.token.last) :
    toggles (step q x.token.last) = toggles q ↔
      ¬ (x.token.last.rx.addr = x.token.last.cfg.devAddr ∧ x.token.last.rx.pid = usbPidSetup ∧
        x.token.last.rx.epInHw N = true ∧
        ((x.token.last.cfg.epOutEnable x.token.last.rx.epCurrentD = true ∧
            q.out.pe.dataToggle x.token.last.rx.epCurrentD = true) ∨
          (x.token.last.cfg.epInEnable x.token.last.rx.epCurrentD = true ∧
            q.inp.pe.dataToggle x.token.last.rx.epCurrentD = false))) := by
  have hout := outToggles_step hi hu
  have hin := inToggles_step (s := q) hu (.inr (x.not_ackReceived q))
  have hrec := x.tokenReceived_iff
  unfold toggles
  rw [Prod.mk.injEq, hout, hin]
  by_cases hset : x.token.last.rx.addr = x.token.last.cfg.devAddr ∧
      x.token.last.rx.pid = usbPidSetup ∧ x.token.last.rx.epInHw N = true
  · obtain ⟨haddr, hpid, hep⟩ := hset
    have hupd : ∀ (f : Fin N → Bool) (e : Fin N) (b : Bool),
        Function.update f e b = f ↔ f e = b :=
      fun _ _ _ => Function.update_eq_self_iff.trans eq_comm
    rw [hrec.2 haddr, hpid, hep]
    cases x.token.last.cfg.epOutEnable x.token.last.rx.epCurrentD <;>
      cases x.token.last.cfg.epInEnable x.token.last.rx.epCurrentD <;>
      simp only [hupd, haddr, beq_self_eq_true, Bool.and_self, Bool.and_true, Bool.and_false,
        Bool.false_eq_true, if_true, if_false, true_and, and_true, false_and, or_false, false_or,
        not_false_eq_true, Bool.not_eq_true, Bool.not_eq_false, not_or]
  · have hno : ∀ b : Bool, (x.token.last.rx.tokenReceived x.token.last.cfg.devAddr &&
        x.token.last.rx.pid == usbPidSetup && (b && x.token.last.rx.epInHw N)) = false := by
      intro b
      rw [← Bool.not_eq_true]
      intro h
      simp only [Bool.and_eq_true, beq_iff_eq] at h
      exact hset ⟨hrec.1 h.1.1, h.1.2, h.2.2⟩
    rw [hno, hno]
    simp only [Bool.false_eq_true, if_false, and_self, true_iff]
    rintro ⟨haddr, hpid, hep, -⟩
    exact hset ⟨haddr, hpid, hep⟩

/-- An ignored token changes nothing exactly when it resets no toggle. -/
theorem unchanged_iff (x : TokenTransaction N) (s : State N) (h : x.Ignored) (hs : InWaits s) :
    x.Unchanged s ↔ ¬ x.ResetsToggle s := by
  obtain ⟨hready, hpair, htog⟩ := x.pair_atToken hs
  have hlast : Undisturbed x.token.last := x.undisturbed _ (by simp [Packet.cycles])
  have hpass := h.passive hready hlast
  have hbyte : x.token.last.rx.dataPut = false := x.token_noByte _ (by simp [Packet.cycles])
  obtain ⟨hpair1, htog1⟩ := hpair.step hpass hlast (.inl hbyte)
  obtain ⟨-, hpair2, htog2, htog2'⟩ := hpair1.run (I := Asleep)
    (fun _ _ hr hi hu => hr.cycle hi hu) (h.asleep hready) x.rest x.rest_noToken
    (fun i hi => x.undisturbed i (List.mem_append_right _ hi))
  have hrun : run step s x.cycles = run step (step (x.atToken s) x.token.last) x.rest := by
    rw [cycles, Packet.cycles, run_append, run_append]
    rfl
  have hrun' : run step s (x.cycles.map hush) = run step
      (step (run step s (x.token.front.map hush)) (hush x.token.last)) (x.rest.map hush) := by
    rw [cycles, Packet.cycles, List.map_append, List.map_append, run_append, run_append]
    rfl
  rw [Unchanged, hrun, hrun', hpair2.beside.sameBuffers_iff, htog2, htog2', htog1, ← htog]
  exact toggles_token_iff hpass hlast

/-- A token for endpoint `endp` and a DATA packet after it. -/
def withData (pid endp : BitVec 4) (hpid : pidType pid = usbPidTypeToken) :
    TokenTransaction 12 where
  token := tokenPacket pid endp
  rest := (dataPacket usbPidData0 endp (List.replicate 10 0)).cycles
  token_valid := rfl
  token_pid := hpid
  token_noByte := by simp [Packet.cycles, Packet.front, tokenPacket, cycle, rxStart, rxEnd]
  rest_noToken := by
    simp [Packet.cycles, Packet.front, dataPacket, cycle, rxStart, rxByte, rxEnd, NoToken,
      pidType, usbPidData0, usbPidTypeToken]
  undisturbed := by
    intro i hi
    have hcycle : ∃ rx, i = cycle rx := by
      simp only [Packet.cycles, Packet.front, tokenPacket, dataPacket, List.mem_append,
        List.mem_cons, List.mem_map, List.not_mem_nil, or_false] at hi
      rcases hi with (rfl | rfl) | (rfl | ⟨_, _, rfl⟩) | rfl <;> exact ⟨_, rfl⟩
    obtain ⟨rx, rfl⟩ := hcycle
    exact ⟨rfl, rfl, rfl, fun _ h => by cases h⟩

/-- An OUT token for an endpoint that is not implemented. -/
theorem unchanged_iff_missingEndpoint :
    (withData usbPidOut 13 (by decide)).Unchanged suppliedDevice :=
  (unchanged_iff _ suppliedDevice (.inr (.inl (by decide))) (.inl (by decide))).2
    fun h => absurd h.2.1 (by decide)

/-- A SETUP token for the regular endpoint 1 sets its IN data toggle. -/
theorem not_unchanged_setupToken : Reachable step RxAllowed clearedDevice clearedDevice ∧
    (withData usbPidSetup 1 (by decide)).Ignored ∧ InWaits clearedDevice ∧
    ¬(withData usbPidSetup 1 (by decide)).Unchanged clearedDevice := by
  refine ⟨.init, .inr (.inr (.inl ⟨rfl, .inr (by decide)⟩)), .inl rfl, ?_⟩
  intro h
  have htoggle := congrFun (congrArg Prod.snd h.toggles) 1
  exact absurd htoggle (by decide +kernel)

end TokenTransaction

end UsbDev.Device
