import UsbDev.EngineTwins
import UsbDev.MemoryPort

/-!
# The protocol layer after a link reset

A link reset clears the transmitter, the receiver but for three flags, and the
state machines, toggles and counters of both engines. What it leaves in the
other registers of the engines is dead, and two of the flags are settled before
the engines look at them: a start of packet sets one, the start of an identifier
clears the other. The layer then behaves as after a hardware reset, unless a
byte was on its way to an open transaction, or the first packet is cut off.
-/
namespace UsbDev.FsRx

/-- The receiver with other values of the three flags that a link reset leaves. -/
def State.withFlags (s : State) (inPacket rxIdleDet bitstuffError : Bool) : State :=
  { s with inPacket := inPacket, rxIdleDet := rxIdleDet, bitstuffError := bitstuffError }

variable {s : State} {i : Input} {p r e : Bool}

theorem packetValidD_withFlags (he : s.packetValid = true → s.bitstuffError = e) :
    packetValidD (s.withFlags p r e) i = packetValidD s i := by
  cases hv : s.packetValid with
  | true =>
      obtain rfl := he hv
      rfl
  | false => simp [packetValidD, State.withFlags, lineStateValid, hv]

theorem packetStart_withFlags (he : s.packetValid = true → s.bitstuffError = e) :
    packetStart (s.withFlags p r e) i = packetStart s i := by
  rw [packetStart, packetValidD_withFlags he]
  rfl

theorem packetEnd_withFlags (he : s.packetValid = true → s.bitstuffError = e) :
    packetEnd (s.withFlags p r e) i = packetEnd s i := by
  rw [packetEnd, packetValidD_withFlags he]
  rfl

/-- The other registers do not depend on the flags, if the error flag agrees in a packet. -/
theorem step_withFlags (he : s.packetValid = true → s.bitstuffError = e) :
    step (s.withFlags p r e) i = (step s i).withFlags (inPacketD (s.withFlags p r e) i)
      (rxIdleDetD (s.withFlags p r e) i) (bitstuffErrorD (s.withFlags p r e) i) := by
  cases hl : i.linkReset with
  | true =>
      simp only [step, hl]
      rfl
  | false =>
      have hvalid := packetValidD_withFlags (p := p) (r := r) (i := i) he
      have hstart := packetStart_withFlags (p := p) (r := r) (i := i) he
      have hend := packetEnd_withFlags (p := p) (r := r) (i := i) he
      simp only [step, hl, fullPidD, crc5D, crc16D, tokenPayloadD, rxDataBufferD, rxDataLen16D,
        rxDataLenD, bitstuffHistoryD, hstart, hend, hvalid]
      rfl

theorem bitstuffError_withFlags (he : s.bitstuffError = e) :
    (step s i).bitstuffError = (step (s.withFlags p r e) i).bitstuffError := by
  rw [step_bitstuffError, step_bitstuffError]
  subst he
  rfl

theorem packetValid_of_linkReset (hl : i.linkReset = true) : (step s i).packetValid = false := by
  simp [step, hl, State.reset]

theorem step_inPacket (s : State) (i : Input) : (step s i).inPacket = inPacketD s i := by
  simp only [step]
  split_ifs <;> rfl

/-! ### The flag of a packet -/

/-- The history shows no edge from J to K but one that has just been sampled. -/
structure FreshEdge (s : State) : Prop where
  noSync : s.lineHistory.extractLsb' 0 6 ≠ 0b100101#6
  edge : s.lineHistory.extractLsb' 0 4 = 0b1001#4 → s.bitPhase = 2

theorem freshEdge_of_linkReset (hl : i.linkReset = true) : FreshEdge (step s i) := by
  constructor <;> simp [step, hl, State.reset]

/-- No identifier starts before an edge has been seen. -/
theorem FreshEdge.packetValidD (h : FreshEdge s) (hv : s.packetValid = false) :
    packetValidD s i = false := by
  rw [FsRx.packetValidD, hv, noSync_of_low h.noSync]
  split_ifs <;> simp_all

/-- The next edge is new. -/
theorem FreshEdge.step (h : FreshEdge s) (hl : i.linkReset = false)
    (hedge : s.lineHistory.extractLsb' 0 4 ≠ 0b1001#4) : FreshEdge (step s i) := by
  by_cases hphase : s.bitPhase = 1
  · constructor
    · rw [lineHistory_step hl, lineHistoryD, lineStateValid_iff.2 hphase, if_pos rfl, push_six]
      exact fun hsync => hedge (edge_of_six _ _ hsync).1
    · rw [low_step_of_valid hl hphase]
      intro hnew
      have hk := last_of_edge _ _ hnew
      have hdt : lineStateRx s i ≠ DT := by
        intro hdt
        rw [hdt] at hk
        exact absurd hk (by decide)
      rw [bitPhase_step hl, bitPhaseD, if_neg hdt, hphase]
      rfl
  · have hhist : (FsRx.step s i).lineHistory = s.lineHistory := by
      rw [lineHistory_step hl, lineHistoryD_of_not_valid hphase]
    constructor <;> rw [hhist]
    · exact h.noSync
    · exact fun hnew => absurd hnew hedge

/-- Whatever the flag was, an end of packet clears it, -/
theorem inPacketD_of_seeEop (h : seeEop s i = true) : inPacketD s i = false := by
  rw [inPacketD, h]
  rfl

/-- and otherwise an edge sets it. -/
theorem inPacketD_of_edge (hedge : s.lineHistory.extractLsb' 0 4 = 0b1001#4) (ht : i.txEn = false) :
    inPacketD s i = !seeEop s i := by
  rw [inPacketD, seeSop, hedge, ht]
  cases seeEop s i <;> cases s.inPacket <;> rfl

/-- How two receivers that differ in the flags proceed. The error flag is settled by the start of
an identifier, the packet flag by the first edge after it or, without the error flag, by the first
edge. Before that the engines are idle, and with the error flag no packet has ended. -/
inductive Settles (s s' : State) (idle early : Prop) : Prop
  | late (hidle : idle) (hearly : early) (hv : s.packetValid = false)
      (he : s.bitstuffError = true)
  | first (hidle : idle) (hearly : early) (hv : s.packetValid = true)
      (he : s.bitstuffError = s'.bitstuffError) (hp : s.inPacket = false)
  | quiet (hidle : idle) (hv : s.packetValid = false) (he : s.bitstuffError = s'.bitstuffError)
      (hedge : FreshEdge s)
  | settled (he : s.bitstuffError = s'.bitstuffError) (hp : s.inPacket = s'.inPacket)

namespace Settles

variable {idle early idle' early' : Prop}

theorem error (h : Settles s (s.withFlags p r e) idle early) :
    s.packetValid = true → s.bitstuffError = e := by
  intro hv
  cases h with
  | late _ _ hv' _ =>
      rw [hv] at hv'
      exact absurd hv' (by decide)
  | first _ _ _ he _ => exact he
  | quiet _ _ he _ => exact he
  | settled he _ => exact he

theorem of_linkReset {s' : State} (hi : idle)
    (he : (FsRx.step s i).bitstuffError = s'.bitstuffError) (hl : i.linkReset = true) :
    Settles (FsRx.step s i) s' idle early :=
  .quiet hi (packetValid_of_linkReset hl) he (freshEdge_of_linkReset hl)

/-- The flags agree once the error flag does, and an end of packet or an edge is seen. -/
theorem of_inPacketD (he : s.bitstuffError = e)
    (hp : inPacketD s i = inPacketD (s.withFlags p r e) i) :
    Settles (FsRx.step s i) (FsRx.step (s.withFlags p r e) i) idle early := by
  refine .settled (bitstuffError_withFlags he) ?_
  rw [step_inPacket, step_inPacket, hp]

theorem of_seeEop (he : s.bitstuffError = e) (heop : seeEop s i = true) :
    Settles (FsRx.step s i) (FsRx.step (s.withFlags p r e) i) idle early := by
  have heop' : seeEop (s.withFlags p r e) i = true := by
    subst he
    exact heop
  exact of_inPacketD he ((inPacketD_of_seeEop heop).trans (inPacketD_of_seeEop heop').symm)

theorem of_edge (he : s.bitstuffError = e) (hedge : s.lineHistory.extractLsb' 0 4 = 0b1001#4)
    (ht : i.txEn = false) :
    Settles (FsRx.step s i) (FsRx.step (s.withFlags p r e) i) idle early := by
  have heop : seeEop (s.withFlags p r e) i = seeEop s i := by
    subst he
    rfl
  refine of_inPacketD he ((inPacketD_of_edge hedge ht).trans ?_)
  rw [inPacketD_of_edge (s := s.withFlags p r e) hedge ht, heop]

theorem mono {s' : State} (h : Settles s s' idle early) (he : early → early') :
    Settles s s' idle early' := by
  cases h with
  | late hi hb hv herr => exact .late hi (he hb) hv herr
  | first hi hb hv herr hp => exact .first hi (he hb) hv herr hp
  | quiet hi hv herr hedge => exact .quiet hi hv herr hedge
  | settled herr hp => exact .settled herr hp

variable (hidle : idle → packetEnd s i = false → idle')
include hidle

theorem late_step (hi : idle) (hb : early) (hv : s.packetValid = false)
    (he : s.bitstuffError = true) (hearly : early → packetEnd s i = false → early') :
    Settles (FsRx.step s i) (FsRx.step (s.withFlags p r e) i) idle' early' := by
  have hend : packetEnd s i = false := by simp [packetEnd, hv]
  have hstart := packetStart_withFlags (p := p) (r := r) (e := e) (i := i) (s := s) (by simp [hv])
  cases hs : packetStart s i with
  | true =>
      have herror : (FsRx.step s i).bitstuffError =
          (FsRx.step (s.withFlags p r e) i).bitstuffError := by
        rw [step_bitstuffError, step_bitstuffError, bitstuffErrorD, bitstuffErrorD, hstart, hs]
        rfl
      cases hl : i.linkReset with
      | true => exact of_linkReset (hidle hi hend) herror hl
      | false =>
          have heop : seeEop s i = true := by simp [seeEop, he]
          refine .first (hidle hi hend) (hearly hb hend) ?_ herror ?_
          · rw [packetValid_step hl]
            simp only [packetStart, Bool.and_eq_true] at hs
            exact hs.1
          · rw [step_inPacket, inPacketD_of_seeEop heop]
  | false =>
      refine .late (hidle hi hend) (hearly hb hend) ?_ ?_
      · cases hl : i.linkReset with
        | true => exact packetValid_of_linkReset hl
        | false =>
            rw [packetValid_step hl]
            simpa [packetStart, hv] using hs
      · rw [step_bitstuffError, bitstuffErrorD, hs, he]
        simp

theorem first_step (hi : idle) (hb : early) (hv : s.packetValid = true) (he : s.bitstuffError = e)
    (hp : s.inPacket = false) (hearly : early → packetEnd s i = false → early')
    (hcut : early → packetEnd s i = true → i.diffRxOk = false → s.inPacket = true) :
    Settles (FsRx.step s i) (FsRx.step (s.withFlags p r e) i) idle' early' := by
  by_cases heop : seeEop s i = true
  · exact of_seeEop he heop
  · rw [Bool.not_eq_true] at heop
    have hend : packetEnd s i = false := by
      rw [← Bool.not_eq_true]
      intro hend
      have hready : i.diffRxOk = true := by
        rw [← Bool.not_eq_false]
        intro hd
        rw [hcut hb hend hd] at hp
        exact absurd hp (by decide)
      obtain ⟨hphase, -, hends⟩ := packetEnd_cases hend
      rw [packetValidD, lineStateValid_iff.2 hphase, hready, hv, heop] at hends
      simp at hends
    have herror := bitstuffError_withFlags (p := p) (r := r) (i := i) he
    cases hl : i.linkReset with
    | true => exact of_linkReset (hidle hi hend) herror hl
    | false =>
        cases hsop : seeSop s i with
        | true =>
            simp only [seeSop, Bool.and_eq_true, beq_iff_eq, Bool.not_eq_true'] at hsop
            exact of_edge he hsop.1.1 hsop.1.2
        | false =>
            refine .first (hidle hi hend) (hearly hb hend) ?_ herror ?_
            · rw [packetValid_step hl]
              simpa [packetEnd, hv] using hend
            · rw [step_inPacket, inPacketD, heop, hsop, hp]
              rfl

theorem quiet_step (hi : idle) (hv : s.packetValid = false) (he : s.bitstuffError = e)
    (h : FreshEdge s)
    (hmuted : s.lineHistory.extractLsb' 0 4 = 0b1001#4 → s.bitPhase = 2 → i.txEn = false) :
    Settles (FsRx.step s i) (FsRx.step (s.withFlags p r e) i) idle' early' := by
  have hend : packetEnd s i = false := by simp [packetEnd, hv]
  have herror := bitstuffError_withFlags (p := p) (r := r) (i := i) he
  cases hl : i.linkReset with
  | true => exact of_linkReset (hidle hi hend) herror hl
  | false =>
      by_cases hedge : s.lineHistory.extractLsb' 0 4 = 0b1001#4
      · exact of_edge he hedge (hmuted hedge (h.edge hedge))
      · exact .quiet (hidle hi hend) (by rw [packetValid_step hl, h.packetValidD hv]) herror
          (h.step hl hedge)

theorem step (h : Settles s (s.withFlags p r e) idle early)
    (hearly : early → packetEnd s i = false → early')
    (hcut : early → packetEnd s i = true → i.diffRxOk = false → s.inPacket = true)
    (hmuted : s.lineHistory.extractLsb' 0 4 = 0b1001#4 → s.bitPhase = 2 → i.txEn = false) :
    Settles (FsRx.step s i) (FsRx.step (s.withFlags p r e) i) idle' early' := by
  cases h with
  | late hi hb hv he => exact late_step hidle hi hb hv he hearly
  | first hi hb hv he hp => exact first_step hidle hi hb hv he hp hearly hcut
  | quiet hi hv he hedge => exact quiet_step hidle hi hv he hedge hmuted
  | settled he hp =>
      refine of_inPacketD he ?_
      rw [inPacketD, inPacketD, seeSop, hp]
      change s.bitstuffError = e at he
      subst he
      rfl

end Settles

end UsbDev.FsRx

namespace UsbDev.NbPe

variable {N : ℕ} [NeZero N] {s : State N} {i : Input N}

/-- A K in the history has not been sampled while the transmitter drove the line. -/
structure Muted (s : State N) : Prop where
  lineOk : FsRx.LineOk s.rx
  settling : s.rx.bitPhase = 1 → s.tx.oe = true → FsRx.Settling s.rx
  symbol : s.rx.bitPhase = 2 → s.rx.lineHistory.extractLsb' 0 4 = 0b1001#4 → s.tx.oe = false

theorem muted_of_linkReset (hl : i.linkReset = true) : Muted (step s i) := by
  have hrx : (step s i).rx = FsRx.step s.rx (rxInput s i) := rfl
  have hreset : (rxInput s i).linkReset = true := hl
  constructor
  · constructor <;> simp [hrx, FsRx.step, hreset, FsRx.State.reset, FsRx.SE0]
  · simp [hrx, FsRx.step, hreset, FsRx.State.reset]
  · simp [hrx, FsRx.step, hreset, FsRx.State.reset]

theorem Muted.step (h : Muted s) : Muted (step s i) := by
  cases hl : i.linkReset with
  | true => exact muted_of_linkReset hl
  | false =>
      have hrx : (rxInput s i).linkReset = false := hl
      refine ⟨h.lineOk.step _, fun hnext ht => ?_, fun hnext hedge => ?_⟩
      · obtain ⟨-, hphase⟩ := FsRx.bitPhase_of_valid_step (FsRx.lineStateValid_iff.2 hnext)
        rw [oe_step hl (by rw [FsRx.bitStrobe, hphase]; rfl)] at ht
        exact h.lineOk.mute hrx ht
      · have hphase := FsRx.bitPhase_of_strobe hnext
        rw [oe_step hl (by rw [FsRx.bitStrobe, hphase]; rfl), ← Bool.not_eq_true]
        intro ht
        have hk : (FsRx.lineStateRx s.rx (rxInput s i)).extractLsb' 0 2 = 0b01#2 := by
          change (FsRx.step s.rx (rxInput s i)).lineHistory.extractLsb' 0 4 = _ at hedge
          rw [FsRx.low_step_of_valid hrx hphase] at hedge
          exact FsRx.last_of_edge _ _ hedge
        obtain hj | hj := (h.settling hphase ht).lineStateRx (rxInput s i) <;>
        · rw [hj] at hk
          exact absurd hk (by decide)

end UsbDev.NbPe

namespace UsbDev.Interface

open Clocked UsbIf

variable {N : ℕ} [NeZero N]

/-- Both engines are idle. -/
def Idle (s : State N) : Prop := s.out.pe.outXactState = .idle ∧ s.inp.pe.inXactState = .idle

/-- Two devices that proceed alike, however the link is. -/
structure Twin (s s' : State N) (early : Prop) : Prop where
  rx : ∃ p r e, s'.rx = s.rx.withFlags p r e
  flags : FsRx.Settles s.rx s'.rx (Idle s) early
  tx : ∃ dp dn, s'.tx = { s.tx with usbDp := dp, usbDn := dn }
  driven : s.tx.oe = true → s.tx.usbDp = s'.tx.usbDp ∧ s.tx.usbDn = s'.tx.usbDn
  out : OutTwin s.out s'.out
  inp : InTwin s.inp s'.inp
  muted : NbPe.Muted (nb s)
  put : FsRx.rxDataPut s.rx = true → FsRx.lineStateValid s.rx = false
  last : s.out.pe.outEpDataPut = true → FsRx.rxDataPut s.rx = false

namespace Twin

variable {s s' : State N} {i : Input N} {early early' : Prop}

omit [NeZero N] in
theorem oe_eq (h : Twin s s' early) : s.tx.oe = s'.tx.oe := by
  obtain ⟨dp, dn, htx⟩ := h.tx
  rw [htx]

omit [NeZero N] in
theorem rxInput_eq (h : Twin s s' early) (hlink : s.link = s'.link) :
    rxInput s' i = rxInput s i := by
  rw [rxInput, rxInput, h.oe_eq, hlink]

omit [NeZero N] in
theorem agree (h : Twin s s' early) (hlink : s.link = s'.link) :
    (rxSignals s i).Agree (rxSignals s' i) := by
  obtain ⟨p, r, e, hrx⟩ := h.rx
  have hflags := h.flags
  rw [hrx] at hflags
  have hend : FsRx.packetEnd s'.rx (rxInput s' i) = FsRx.packetEnd s.rx (rxInput s i) := by
    rw [h.rxInput_eq hlink, hrx]
    exact FsRx.packetEnd_withFlags hflags.error
  constructor
  · exact hend.symm
  · intro he
    have herror := hflags.error (FsRx.packetEnd_cases he).2.1
    simp only [rxSignals, FsRx.signals, hrx, ← herror]
    rfl
  all_goals
    simp only [rxSignals, FsRx.signals, hrx]
    rfl

omit [NeZero N] in
/-- The start of a packet is the same once an engine listens to it. -/
theorem pktStart_eq (h : Twin s s' early) (hlink : s.link = s'.link) (hidle : ¬ Idle s) :
    (rxSignals s i).pktStart = (rxSignals s' i).pktStart := by
  obtain ⟨p, r, e, hrx⟩ := h.rx
  cases h.flags with
  | late hi => exact absurd hi hidle
  | first hi => exact absurd hi hidle
  | quiet hi => exact absurd hi hidle
  | settled _ hp =>
      change FsRx.seeSop s.rx _ = FsRx.seeSop s'.rx _
      rw [h.rxInput_eq hlink, FsRx.seeSop, FsRx.seeSop, hp, hrx]
      rfl

omit [NeZero N] in
theorem outInput_eq (hlink : s.link = s'.link) :
    outInput s' i = { outInput s i with rx := rxSignals s' i } := by
  rw [outInput, outInput, hlink]

omit [NeZero N] in
theorem inInput_eq (h : Twin s s' early) (hlink : s.link = s'.link) :
    inInput s' i = { inInput s i with rx := rxSignals s' i } := by
  obtain ⟨p, r, e, hrx⟩ := h.rx
  obtain ⟨dp, dn, htx⟩ := h.tx
  have hend : NbPe.txPktEnd (nb s') = NbPe.txPktEnd (nb s) := by
    rw [NbPe.txPktEnd, NbPe.txPktEnd, nb, hrx, htx]
    rfl
  have hget : FsTx.txDataGet s'.tx = FsTx.txDataGet s.tx := by
    rw [htx]
    rfl
  rw [inInput, inInput, hlink, hend, hget]

theorem outComb_eq (h : Twin s s' early) (hlink : s.link = s'.link) :
    outComb s.out (outInput s i) = outComb s'.out (outInput s' i) := by
  rw [outInput_eq hlink]
  refine h.out.comb_eq (h.agree hlink) fun hs => h.pktStart_eq hlink fun hidle => ?_
  rw [hidle.1] at hs
  exact absurd hs (by decide)

theorem inComb_eq (h : Twin s s' early) (hlink : s.link = s'.link) :
    inComb s.inp (inInput s i) = inComb s'.inp (inInput s' i) := by
  rw [h.inInput_eq hlink]
  refine h.inp.comb_eq (h.agree hlink) fun hs => h.pktStart_eq hlink fun hidle => ?_
  rw [hidle.2] at hs
  exact absurd hs (by decide)

/-- The transmitters proceed alike. -/
theorem tx_step (h : Twin s s' early) (hlink : s.link = s'.link) :
    (step s i).tx = (step s' i).tx := by
  obtain ⟨p, r, e, hrx⟩ := h.rx
  obtain ⟨dp, dn, htx⟩ := h.tx
  have hout : NbPe.outComb (nb s) (nbInput s i) = NbPe.outComb (nb s') (nbInput s' i) :=
    h.outComb_eq hlink
  have hin : NbPe.inComb (nb s) (nbInput s i) = NbPe.inComb (nb s') (nbInput s' i) :=
    h.inComb_eq hlink
  have havail : InPe.txDataAvail s.inp.pe (UsbIf.inPeInput s.inp (inInput s i)) =
      InPe.txDataAvail s'.inp.pe (UsbIf.inPeInput s'.inp (inInput s' i)) := by
    rw [h.inInput_eq hlink]
    exact h.inp.txDataAvail_eq
  change FsTx.step s.tx _ = FsTx.step s'.tx _
  rw [htx]
  refine FsTx.step_congr ?_ rfl rfl ?_ ?_ ?_ havail fun ha => h.inp.txData ?_
  · simp only [NbPe.txInput, nbInput, hlink]
  · simp only [NbPe.txInput, nb, hrx]
    rfl
  · simp only [NbPe.txInput, NbPe.txPktStart, hout, hin]
  · simp only [NbPe.txInput, NbPe.txPid, hout, hin]
  · have hsend : InPe.txDataAvail s.inp.pe (UsbIf.inPeInput s.inp (inInput s i)) = true := ha
    simp only [InPe.txDataAvail, Bool.and_eq_true, beq_iff_eq] at hsend
    exact hsend.1

/-- Without the end of a packet idle engines stay idle. -/
theorem idle_step (hidle : Idle s) (hend : FsRx.packetEnd s.rx (rxInput s i) = false) :
    Idle (step s i) := by
  constructor
  · change (if _ then _ else (OutPe.comb s.out.pe (UsbIf.outPeInput s.out (outInput s i))).stateNext) = _
    have hquiet : (UsbIf.outPeInput s.out (outInput s i)).rx.pktEnd = false := hend
    rw [OutPe.comb_idle_of_not_end hquiet hidle.1]
    split_ifs <;> rfl
  · by_contra hopen
    have htoken : (UsbIf.inPeInput s.inp (inInput s i)).inTokenReceived = false := by
      have hquiet : (UsbIf.inPeInput s.inp (inInput s i)).rx.pktEnd = false := hend
      simp [InPe.Input.inTokenReceived, hquiet]
    exact InTwin.opened_before hopen htoken hidle.2

/-- A byte is complete only after a sample. -/
theorem rxDataPut_step (hsample : FsRx.lineStateValid s.rx = false) :
    FsRx.rxDataPut (step s i).rx = false := by
  change FsRx.rxDataPut (FsRx.step s.rx (rxInput s i)) = false
  rw [← Bool.not_eq_true]
  intro hnext
  have hbit := FsRx.dvalid_of_rxDataPut_step hnext
  rw [FsRx.dvalid, FsRx.dvalidRaw, hsample] at hbit
  simp at hbit

/-- Devices that proceed alike do so in the next cycle. -/
theorem step (h : Twin s s' early) (hlink : s.link = s'.link)
    (hearly : early → FsRx.packetEnd s.rx (rxInput s i) = false → early')
    (hcut : early → FsRx.packetEnd s.rx (rxInput s i) = true → i.diffRxOk = false →
      s.rx.inPacket = true) : Twin (step s i) (step s' i) early' := by
  obtain ⟨p, r, e, hrx⟩ := h.rx
  have hflags := h.flags
  rw [hrx] at hflags
  have hrx' : (Interface.step s' i).rx = FsRx.step (s.rx.withFlags p r e) (rxInput s i) := by
    rw [← hrx, ← h.rxInput_eq hlink]
    rfl
  have htx := h.tx_step (i := i) hlink
  constructor
  case rx =>
    rw [hrx', FsRx.step_withFlags hflags.error]
    exact ⟨_, _, _, rfl⟩
  case flags =>
    rw [hrx']
    exact hflags.step idle_step hearly hcut fun hedge hphase => h.muted.symbol hphase hedge
  case tx => exact ⟨_, _, htx.symm⟩
  case driven =>
    rw [htx]
    exact fun _ => ⟨rfl, rfl⟩
  case out =>
    change OutTwin (outStep s.out (outInput s i)) (outStep s'.out (outInput s' i))
    rw [outInput_eq hlink]
    refine h.out.step (h.agree hlink) (fun hs => h.pktStart_eq hlink fun hidle => ?_) h.last
    rw [hidle.1] at hs
    exact absurd hs (by decide)
  case inp =>
    change InTwin (inStep s.inp (inInput s i)) (inStep s'.inp (inInput s' i))
    rw [h.inInput_eq hlink]
    refine h.inp.step (h.agree hlink) fun hs => h.pktStart_eq hlink fun hidle => ?_
    rw [hidle.2] at hs
    exact absurd hs (by decide)
  case muted =>
    rw [nb_step]
    exact h.muted.step
  case put => exact FsRx.not_valid_of_rxDataPut_step
  case last =>
    intro hbyte
    have hput : (s.out.pe.outXactState == .rcvdDataStart && FsRx.rxDataPut s.rx) = true := hbyte
    rw [Bool.and_eq_true] at hput
    exact rxDataPut_step (h.put hput.2)

end Twin

/-! ### The layer and its outputs -/

/-- One cycle of the protocol layer, for which the state of the link is an input. -/
def layerStep (s : State N) (c : LinkState.State × Input N) : State N :=
  step { s with link := c.1 } c.2

/-- Byte lane `j` of a word to write holds a byte of the payload, not one of the CRC that was
put after it or one of an earlier packet. -/
def PayloadLane (s : OutState N) (j : BitVec 2) : Prop :=
  s.stdWrite = true ∨ 4 * (s.outMaxUsed.toNat / 4) + j.toNat + 2 ≤ s.outMaxUsed.toNat

/-- The same line levels while the line is driven, the same entry for the received buffer FIFO,
the same payload bytes to write, and the same data toggles. -/
structure SameOutputs (s s' : State N) (i : Input N) : Prop where
  oe : s.tx.oe = s'.tx.oe
  line : s.tx.oe = true → s.tx.usbDp = s'.tx.usbDp ∧ s.tx.usbDn = s'.tx.usbDn
  rxWvalid : rxWvalid s.out (outInput s i) = rxWvalid s'.out (outInput s' i)
  rxWdata : UsbIf.rxWvalid s.out (outInput s i) = true →
    rxWdata s.out (outInput s i) = rxWdata s'.out (outInput s' i)
  memWrite : memWrite s i = memWrite s' i
  memWaddr : Interface.memWrite s i = true →
    memWaddr s.out (outInput s i) = memWaddr s'.out (outInput s' i)
  payload : Interface.memWrite s i = true → ∀ j, PayloadLane s.out j →
    lane s.out.wdata j = lane s'.out.wdata j
  outToggle : s.out.pe.dataToggle = s'.out.pe.dataToggle
  inToggle : s.inp.pe.dataToggle = s'.inp.pe.dataToggle

theorem Twin.sameOutputs {s s' : State N} {i : Input N} {early : Prop} (h : Twin s s' early)
    (hlink : s.link = s'.link) : SameOutputs s s' i := by
  have hcomb := h.outComb_eq (i := i) hlink
  have hrx := outInput_eq (i := i) hlink
  have hcomb' := hcomb
  rw [hrx] at hcomb'
  obtain ⟨hwrite, haddr⟩ := h.out.memWrite_eq hcomb'
  constructor
  case oe => exact h.oe_eq
  case line => exact h.driven
  case rxWvalid => rw [UsbIf.rxWvalid, UsbIf.rxWvalid, hcomb]
  case rxWdata =>
    rw [hrx]
    exact h.out.rxWdata_eq
  case memWrite =>
    rw [Interface.memWrite, Interface.memWrite, hrx]
    exact hwrite
  case memWaddr =>
    rw [hrx]
    exact haddr
  case payload =>
    intro hw j hlane
    obtain hstd | hused := hlane
    · rw [h.out.word hstd]
    · by_cases hstd : s.out.stdWrite = true
      · rw [h.out.word hstd]
      · have hlast : s.out.outMaxUsed.getLsbD 6 = false := by
          simp only [Interface.memWrite, UsbIf.memWrite, Bool.and_eq_true, Bool.or_eq_true,
            Bool.not_eq_true'] at hw
          exact (hw.2.resolve_left hstd).1.1
        exact h.out.last hlast j (by omega)
  case outToggle => exact h.out.pe.dataToggle
  case inToggle => exact h.inp.dataToggle

/-! ### Runs -/

omit [NeZero N] in
theorem Twin.link {s s' : State N} {early : Prop} (h : Twin s s' early) (l : LinkState.State) :
    Twin { s with link := l } { s' with link := l } early :=
  ⟨h.rx, h.flags, h.tx, h.driven, h.out, h.inp, h.muted, h.put, h.last⟩

variable (s : State N) (fut : ℕ → LinkState.State × Input N)

/-- A packet ends in cycle `u` after `s`. -/
def endsPacket (u : ℕ) : Bool :=
  FsRx.packetEnd (traj layerStep s fut u).rx
    (rxInput { traj layerStep s fut u with link := (fut u).1 } (fut u).2)

/-- The first packet to end after `s` is not cut off by a receiver that is not ready before an
edge has been seen in it. -/
def FirstPacketEnds : Prop :=
  ∀ u, (∀ v < u, endsPacket s fut v = false) → endsPacket s fut u = true →
    (fut u).2.diffRxOk = false → (traj layerStep s fut u).rx.inPacket = true

variable {s fut}

theorem Twin.traj {s' : State N} (h : Twin s s' (s.rx.bitstuffError = true))
    (hcut : s.rx.bitstuffError = true → FirstPacketEnds s fut) (u : ℕ) :
    Twin (traj layerStep s fut u) (traj layerStep s' fut u)
      (s.rx.bitstuffError = true ∧ ∀ v < u, endsPacket s fut v = false) := by
  induction u with
  | zero =>
      refine { h with flags := h.flags.mono fun he => ⟨he, fun v hv => ?_⟩ }
      exact absurd hv (Nat.not_lt_zero v)
  | succ u ih =>
      rw [traj_succ, traj_succ]
      refine (ih.link (fut u).1).step rfl (fun hearly hend => ⟨hearly.1, fun v hv => ?_⟩)
        fun hearly hend hready => hcut hearly.1 u hearly.2 hend hready
      obtain hlt | rfl : v < u ∨ v = u := by omega
      · exact hearly.2 v hlt
      · exact hend

/-- Right after a link reset the layer proceeds like one after a hardware reset, if no byte is put
in the cycle of the reset. -/
theorem twin_of_linkReset {i : Input N} (hl : LinkState.linkReset s.link = true)
    (hput : s.out.pe.outXactState = .rcvdDataStart → FsRx.rxDataPut s.rx = false) :
    Twin (step s i) (State.reset N) ((step s i).rx.bitstuffError = true) := by
  have hrx : (rxInput s i).linkReset = true := hl
  have hrx' : (step s i).rx = FsRx.State.reset.withFlags (FsRx.inPacketD s.rx (rxInput s i))
      (FsRx.rxIdleDetD s.rx (rxInput s i)) (FsRx.bitstuffErrorD s.rx (rxInput s i)) := by
    change FsRx.step s.rx (rxInput s i) = _
    simp only [FsRx.step, hrx]
    rfl
  have htx : (step s i).tx =
      { FsTx.State.reset with usbDp := !i.cfgPinflip, usbDn := i.cfgPinflip } := by
    change FsTx.step s.tx _ = _
    simp only [FsTx.step, NbPe.txInput, nbInput, hl]
    rfl
  have hout : OutTwin (step s i).out (OutState.reset N) := .of_linkReset hl hput
  have hinp : InTwin (step s i).inp (InState.reset N) := .of_linkReset hl
  constructor
  case rx =>
    rw [hrx']
    exact ⟨false, false, false, rfl⟩
  case flags =>
    have hidle : Idle (step s i) := ⟨hout.pe.phase, hinp.phase⟩
    cases he : (step s i).rx.bitstuffError with
    | true => exact .late hidle rfl (FsRx.packetValid_of_linkReset hrx) he
    | false => exact .of_linkReset hidle he hrx
  case tx =>
    rw [htx]
    exact ⟨true, false, rfl⟩
  case driven =>
    rw [htx]
    exact fun hoe => Bool.noConfusion hoe
  case out => exact hout
  case inp => exact hinp
  case muted =>
    rw [nb_step]
    exact NbPe.muted_of_linkReset hl
  case put =>
    rw [hrx']
    exact fun _ => rfl
  case last =>
    rw [hout.dataPut]
    exact fun hbyte => Bool.noConfusion hbyte

variable (inp : ℕ → Input N)

/-- The protocol layer after a bus reset behaves as after a hardware reset, whatever follows, if no
byte is put in the last cycle of the reset, and no bit stuffing error is left or the first packet is
not cut off. -/
theorem reinitialised {t : ℕ} (hl : LinkState.linkReset (stateAt inp t).link = true)
    (hput : (stateAt inp t).out.pe.outXactState = .rcvdDataStart →
      FsRx.rxDataPut (stateAt inp t).rx = false)
    (fut : ℕ → LinkState.State × Input N)
    (hcut : (stateAt inp (t + 1)).rx.bitstuffError = true →
      FirstPacketEnds (stateAt inp (t + 1)) fut) (u : ℕ) :
    SameOutputs { traj layerStep (stateAt inp (t + 1)) fut u with link := (fut u).1 }
      { traj layerStep (State.reset N) fut u with link := (fut u).1 } (fut u).2 :=
  (((twin_of_linkReset hl hput).traj hcut u).link (fut u).1).sameOutputs rfl

/-- What the layer meets from cycle `t` on in the run itself. -/
def future (t u : ℕ) : LinkState.State × Input N := ((stateAt inp (t + u)).link, inp (t + u))

theorem traj_future (t u : ℕ) :
    traj layerStep (stateAt inp t) (future inp t) u = stateAt inp (t + u) := by
  induction u with
  | zero => rfl
  | succ u ih =>
      rw [traj_succ, ih]
      rfl

/-- In the run itself, cycle by cycle after the bus reset. -/
theorem sameOutputs_future {t : ℕ} (hl : LinkState.linkReset (stateAt inp t).link = true)
    (hput : (stateAt inp t).out.pe.outXactState = .rcvdDataStart →
      FsRx.rxDataPut (stateAt inp t).rx = false)
    (hcut : (stateAt inp (t + 1)).rx.bitstuffError = true →
      FirstPacketEnds (stateAt inp (t + 1)) (future inp (t + 1))) (u : ℕ) :
    SameOutputs (stateAt inp (t + 1 + u))
      { traj layerStep (State.reset N) (future inp (t + 1)) u with
        link := (stateAt inp (t + 1 + u)).link } (inp (t + 1 + u)) := by
  have htraj := (twin_of_linkReset hl hput).traj hcut u
  rw [← stateAt_succ inp t, traj_future inp (t + 1) u] at htraj
  exact (htraj.link (stateAt inp (t + 1 + u)).link).sameOutputs rfl

/-! ### A host on the line -/

open LineCode NbPe

/-- An OUT token and the first bytes of a DATA packet, cut off by a bus reset of 16 cycles in which
the microsecond tick is fast. -/
def interruptedInputs : List (Input 1) :=
  let token := hostPacket (hostToken usbPidOut) ++ [Line.j, .j]
  let data := hostPacket (FsRx.pidBits usbPidData0 ++ List.replicate 32 false)
  (token ++ data.take 40).flatMap (fun l => List.replicate 4 (busInput l)) ++
    List.replicate 16 { busInput .se0 with usTick := true }

def interruptedRun (t : ℕ) : Input 1 := interruptedInputs.getD t (busInput .j)

theorem reinitialised_interruptedRun :
    (stateAt interruptedRun 319).out.pe.outXactState = .rcvdDataStart ∧
      SameOutputs
        { traj layerStep (stateAt interruptedRun (319 + 1)) (future interruptedRun 320) 37 with
          link := (future interruptedRun 320 37).1 }
        { traj layerStep (State.reset 1) (future interruptedRun 320) 37 with
          link := (future interruptedRun 320 37).1 } (future interruptedRun 320 37).2 := by
  have hstate : ∀ t ≤ interruptedInputs.length, stateAt interruptedRun t =
      Clocked.run step (State.reset 1) (interruptedInputs.take t) :=
    fun t ht => traj_getD _ _ _ _ ht
  have hreset : LinkState.linkReset (stateAt interruptedRun 319).link = true ∧
      (stateAt interruptedRun 319).out.pe.outXactState = .rcvdDataStart ∧
      FsRx.rxDataPut (stateAt interruptedRun 319).rx = false := by
    rw [hstate 319 (by decide +kernel)]
    decide +kernel
  have herror : (stateAt interruptedRun (319 + 1)).rx.bitstuffError = false := by
    rw [hstate (319 + 1) (by decide +kernel)]
    decide +kernel
  obtain ⟨hl, hopen, hput⟩ := hreset
  refine ⟨hopen, reinitialised interruptedRun hl (fun _ => hput) (future interruptedRun 320)
    (fun he => ?_) 37⟩
  rw [herror] at he
  exact absurd he (by decide)

/-- The SE0 after an OUT token goes on as a glitch before each symbol of a DATA packet. The fourth
tick comes with the last bit of the fourth byte, and before it the glitches have ended. -/
def glitchInputs : List (Input 1) :=
  let token := [Line.j, .j] ++ (hostPacket (hostToken usbPidOut)).dropLast
  let data := (hostPacket (FsRx.pidBits usbPidData0 ++ List.replicate 32 false)).drop 2
  let glitches := (data.take 45).flatMap fun l => [Line.se0, l, l, l]
  (token.flatMap (List.replicate 4) ++ [Line.j, .j] ++ glitches ++
    [Line.se0, .k, .k] ++ List.replicate 6 Line.j).mapIdx
      fun t l => { busInput l with usTick := t % 48 == 44 }

def glitchRun (t : ℕ) : Input 1 := glitchInputs.getD t (busInput .j)

/-- J on the line, and no further event of the link. -/
def quietFuture (_ : ℕ) : LinkState.State × Input 1 := (.reset, busInput .j)

/-- The reset lasts one cycle, and the word with the byte of that cycle is written after it. -/
theorem written_glitchInputs :
    let s := Clocked.run step (State.reset 1) (glitchInputs.take 333)
    let s' := Clocked.run step (State.reset 1) (glitchInputs.take 334)
    LinkState.linkReset s.link = true ∧ LinkState.linkReset s'.link = false ∧
      memWrite { traj layerStep s' quietFuture 1 with link := .reset } (busInput .j) = true ∧
      memWrite { traj layerStep (State.reset 1) quietFuture 1 with link := .reset }
        (busInput .j) = false := by
  decide +kernel

theorem not_forall_reinitialised :
    ¬ ∀ (inp : ℕ → Input 1) (t : ℕ), LinkState.linkReset (stateAt inp t).link = true →
      LinkState.linkReset (stateAt inp (t + 1)).link = false →
      ∀ (fut : ℕ → LinkState.State × Input 1) (u : ℕ),
        SameOutputs { traj layerStep (stateAt inp (t + 1)) fut u with link := (fut u).1 }
          { traj layerStep (State.reset 1) fut u with link := (fut u).1 } (fut u).2 := by
  intro hall
  have hstate : ∀ t ≤ glitchInputs.length, stateAt glitchRun t =
      Clocked.run step (State.reset 1) (glitchInputs.take t) :=
    fun t ht => traj_getD _ _ _ _ ht
  have hrun := hall glitchRun 333
  rw [hstate 333 (by decide +kernel), hstate (333 + 1) (by decide +kernel)] at hrun
  obtain ⟨hl, hreleased, hwrite, hnone⟩ := written_glitchInputs
  have hsame := (hrun hl hreleased quietFuture 1).memWrite
  have hnone' : memWrite { traj layerStep (State.reset 1) quietFuture 1 with
      link := (quietFuture 1).1 } (quietFuture 1).2 = false := hnone
  rw [hnone'] at hsame
  exact absurd (hwrite.symm.trans hsame) (by decide)

end UsbDev.Interface
