import UsbDev.OneTransmission
import UsbDev.TokenTiming

/-!
# Between two packets

While an engine of `usb_fs_nb_pe` waits for the host no token ends: after a token
of an OUT transaction and after a DATA packet of the device there is no time for
one before the timeout, and while the device transmits nothing is received. The
IN engine leaves its sending states with the packet, because the transmitter's
end of packet is still to come whenever the engine is in them.
-/
namespace UsbDev.FsTx

variable {s : State} {i : Input}

/-! ### The end of a packet -/

/-- The bits of the current byte that are not yet sent. -/
def bitsLeft (s : State) : ℕ := if s.byteStrobe then 0 else 8 - (s.bitCount - 1).toNat

/-- The bit strobes to `pkt_end_o` of a driven packet, at the least. -/
def untilEnd (s : State) : ℕ :=
  match s.state with
  | .sync => 0
  | .oscTest => 0
  | .pid => bitsLeft s + 11
  | .dataOrCrc160 => bitsLeft s + 3
  | .crc161 => bitsLeft s + 3
  | .eop => bitsLeft s + 3
  | .idle =>
      if s.se0ShiftReg = 7 then 3 else if s.se0ShiftReg = 3 then 2
      else if s.se0ShiftReg = 1 then 1 else 0

/-- The SE0 bits and the output-enable bits of EOP end together; before that there is no SE0. -/
def EopOk (s : State) : Prop :=
  if s.state = .idle ∧ s.oe = true then
    s.oeShiftReg = s.se0ShiftReg ∧ s.se0ShiftReg ∈ [7#8, 3#8, 1#8, 0#8]
  else s.se0ShiftReg = 0

/-- A packet is transmitted and its end is still to come. -/
def Sending (s : State) : Prop := (∃ n, Preparing n s) ∨ Driving s ∧ 0 < untilEnd s

/-- The payload of a DATA packet is not yet complete. -/
structure Loading (s : State) : Prop where
  pid : s.pid.extractLsb' 0 2 = 0b11#2
  state : s.state = .sync ∨ s.state = .pid ∨ s.state = .dataOrCrc160

theorem Sending.not_atRest (h : Sending s) : ¬ AtRest s := by
  intro hrest
  obtain ⟨n, hprep⟩ | ⟨hdrive, -⟩ := h
  · have hout := hrest.outState
    cases hprep <;> simp_all
  · have hoe := hdrive.oe
    rw [hrest.oe] at hoe
    exact absurd hoe (by decide)

/-- A bit strobe, without a packet start, shifts the registers or stuffs a bit. -/
theorem step_strobe_regs (hl : i.linkReset = false) (ho : i.txOscTestMode = false)
    (hp : i.pktStart = false) (hb : s.byteStrobe = false) (hs : i.bitStrobe = true) :
    (step s i).state = s.state ∧
      (bitstuff s = true ∧ (step s i).se0ShiftReg = s.se0ShiftReg ∧
          (step s i).oeShiftReg = s.oeShiftReg ∧ (step s i).bitCount = s.bitCount ∧
          (step s i).byteStrobe = false ∨
        bitstuff s = false ∧ (step s i).se0ShiftReg = s.se0ShiftReg >>> 1 ∧
          (step s i).oeShiftReg = s.oeShiftReg >>> 1 ∧
          (step s i).bitCount = s.bitCount + 1 ∧ (step s i).byteStrobe = (s.bitCount == 0)) := by
  have hfsm := byteFsm_of_not_byteStrobe ho hp hb
  cases hstuff : bitstuff s <;> simp [step, hl, procFsm, hfsm, hp, hs, hstuff, byteStrobeD]

/-- Without any strobe they keep their values. -/
theorem step_hold_regs (hl : i.linkReset = false) (ho : i.txOscTestMode = false)
    (hp : i.pktStart = false) (hb : s.byteStrobe = false) (hs : i.bitStrobe = false) :
    (step s i).state = s.state ∧ (step s i).se0ShiftReg = s.se0ShiftReg ∧
      (step s i).oeShiftReg = s.oeShiftReg ∧ (step s i).bitCount = s.bitCount ∧
      (step s i).byteStrobe = false := by
  have hfsm := byteFsm_of_not_byteStrobe ho hp hb
  simp [step, hl, procFsm, hfsm, hp, hs, byteStrobeD]

/-- A byte strobe loads what the byte state machine says. -/
theorem step_load_regs (hl : i.linkReset = false) (hp : i.pktStart = false)
    (hs : i.bitStrobe = false) :
    (step s i).state = (byteFsm s i).state ∧
      (step s i).se0ShiftReg = (byteFsm s i).se0ShiftReg ∧
      (step s i).oeShiftReg = (byteFsm s i).oeShiftReg ∧
      (step s i).bitCount = (byteFsm s i).bitCount ∧ (step s i).byteStrobe = false := by
  simp [step, hl, procFsm, hp, hs, byteStrobeD]

theorem Preparing.state_cases {n : ℕ} (h : Preparing n s) : s.state = .sync ∨ s.state = .pid := by
  cases h <;> simp_all

theorem Driving.state_cases (h : Driving s) : s.state = .idle ∨ s.state = .pid ∨
    s.state = .dataOrCrc160 ∨ s.state = .crc161 ∨ s.state = .eop := by
  have hbody := h.body
  cases hs : s.state <;> simp_all

/-- The bits of a byte are sent one at a strobe. -/
theorem bitsLeft_strobe (hl : i.linkReset = false) (ho : i.txOscTestMode = false)
    (hp : i.pktStart = false) (hb : s.byteStrobe = false) (hs : i.bitStrobe = true) :
    bitsLeft s ≤ bitsLeft (step s i) + 1 := by
  have htable : ∀ c : BitVec 3,
      8 - (c - 1).toNat ≤ (if c == 0 then 0 else 8 - (c + 1 - 1).toNat) + 1 := by decide
  obtain ⟨-, ⟨-, -, -, hc, hb'⟩ | ⟨-, -, -, hc, hb'⟩⟩ := step_strobe_regs hl ho hp hb hs
  · simp [bitsLeft, hb, hb', hc]
  · have hrow := htable s.bitCount
    simpa [bitsLeft, hb, hb', hc] using hrow

/-- A driven packet comes nearer to its end by at most one strobe. -/
theorem Driving.untilEnd_step (h : Driving s) (hl : i.linkReset = false)
    (ho : i.txOscTestMode = false) (hp : i.pktStart = false)
    (hbyte : s.byteStrobe = true → i.bitStrobe = false) :
    untilEnd s ≤ untilEnd (step s i) + if i.bitStrobe then 1 else 0 := by
  have hcases := h.state_cases
  cases hs : i.bitStrobe with
  | true =>
      have hb : s.byteStrobe = false := by
        by_contra hb
        rw [hbyte (by simpa using hb)] at hs
        exact absurd hs (by decide)
      have hbits := bitsLeft_strobe hl ho hp hb hs
      obtain ⟨hst, hregs⟩ := step_strobe_regs hl ho hp hb hs
      obtain hc | hc | hc | hc | hc := hcases
      · have hshift : ∀ x : BitVec 8,
            (if x = 7 then 3 else if x = 3 then 2 else if x = 1 then 1 else 0) ≤
              (if x >>> 1 = 7 then 3 else if x >>> 1 = 3 then 2 else if x >>> 1 = 1 then 1
                else 0) + 1 := by decide +kernel
        simp only [untilEnd, hst, hc, if_true]
        obtain ⟨-, hse0, -⟩ | ⟨-, hse0, -⟩ := hregs
        · rw [hse0]
          omega
        · rw [hse0]
          exact hshift _
      all_goals
        simp only [untilEnd, hst, hc, if_true]
        omega
  | false =>
      cases hb : s.byteStrobe with
      | false =>
          obtain ⟨hst, hse0, -, hc, hb'⟩ := step_hold_regs hl ho hp hb hs
          have hbits : bitsLeft (step s i) = bitsLeft s := by simp [bitsLeft, hb, hb', hc]
          simp only [untilEnd, hst, hse0, hbits]
          simp
      | true =>
          obtain ⟨hst, hse0, -, hc, hb'⟩ := step_load_regs (s := s) hl hp hs
          by_cases hidle : s.state = .idle
          · have hfsm : (byteFsm s i).state = .idle ∧
                (byteFsm s i).se0ShiftReg = s.se0ShiftReg := by
              simp [byteFsm, hidle, ho, hp]
            simp [untilEnd, hst, hse0, hfsm, hidle]
          · have hcount : s.bitCount = 1 := by
              have hen := (h.body hidle).2.2
              simpa [Enabled, hb] using hen
            have hzero : bitsLeft s = 0 := by simp [bitsLeft, hb]
            have height : (byteFsm s i).bitCount = 1 → bitsLeft (step s i) = 8 := by
              intro hone
              simp [bitsLeft, hb', hc, hone]
            obtain hcase | hcase | hcase | hcase | hcase := hcases
            · exact absurd hcase hidle
            · have h8 := height (by simp [byteFsm, hcase, hb, hcount])
              simp only [untilEnd, hst, hcase, byteFsm, hb, hzero, if_true]
              split_ifs <;> simp [h8]
            · have h8 := height (by simp only [byteFsm, hcase, hb]; split_ifs <;> simp [hcount])
              simp only [untilEnd, hst, hcase, byteFsm, hb, hzero, if_true]
              split_ifs <;> simp
            · have h8 := height (by simp [byteFsm, hcase, hb, hcount])
              simp [untilEnd, hst, hcase, byteFsm, hb, hzero]
            · simp [untilEnd, hst, hse0, hcase, byteFsm, hb, hzero]

/-- A driven packet begins with the whole of SYNC but one bit to send. -/
theorem Preparing.untilEnd_step {n : ℕ} (h : Preparing n s) (hl : i.linkReset = false)
    (ho : i.txOscTestMode = false) (hp : i.pktStart = false) (hd : Driving (step s i)) :
    18 ≤ untilEnd (step s i) := by
  have hoe := hd.oe
  cases h with
  | loaded hoe' hout hst hb hc hreg =>
      cases hs : i.bitStrobe with
      | false =>
          simp [step, hl, procDiff, nrziDiff, hp, hs, hoe'] at hoe
      | true =>
          obtain ⟨hst', hregs⟩ := step_strobe_regs hl ho hp hb hs
          have hbits := bitsLeft_strobe hl ho hp hb hs
          have hzero : bitsLeft s = 8 := by simp [bitsLeft, hb, hc]
          simp only [untilEnd, hst', hst]
          omega
  | requested hoe' hout =>
      simp [step, hl, procDiff, nrziDiff, outNrziEn, hp, hout, hoe'] at hoe
  | delayed hoe' hout =>
      simp [step, hl, procDiff, nrziDiff, outNrziEn, hp, hout, hoe'] at hoe
  | loading hoe' hout =>
      simp [step, hl, procDiff, nrziDiff, outNrziEn, hp, hout, hoe'] at hoe

/-- The third SE0 bit is the end of the packet. -/
theorem pktEnd_of_untilEnd (h : Driving s) (hu : untilEnd s = 1) :
    s.state = .idle ∧ s.se0ShiftReg = 1 := by
  obtain hc | hc | hc | hc | hc := h.state_cases <;> simp only [untilEnd, hc] at hu
  · split_ifs at hu with h7 h3 h1 <;> first | omega | exact ⟨hc, h1⟩
  all_goals omega

theorem untilEnd_of_se0 (hs : s.state = .idle) (hse0 : s.se0ShiftReg.extractLsb' 0 2 = 0b01#2)
    (hmem : s.se0ShiftReg ∈ [7#8, 3#8, 1#8, 0#8]) : untilEnd s = 1 := by
  simp only [untilEnd, hs]
  simp only [List.mem_cons, List.not_mem_nil, or_false] at hmem
  obtain he | he | he | he := hmem <;> rw [he] at hse0 ⊢ <;> revert hse0 <;> decide

/-- Neither the transmitter's state nor its packet changes the identifier. -/
theorem step_pid (hl : i.linkReset = false) (hp : i.pktStart = false) :
    (step s i).pid = s.pid := by
  simp [step, hl, hp]

/-- The line is released only after the end of the packet. -/
theorem Driving.untilEnd_of_atRest (h : Driving s) (hl : i.linkReset = false)
    (hp : i.pktStart = false) (hbyte : s.byteStrobe = true → i.bitStrobe = false) (heop : EopOk s)
    (hrest : AtRest (step s i)) : untilEnd s = 0 := by
  have hoe := hrest.oe
  cases hs : i.bitStrobe with
  | false =>
      rw [(step_quiet_oe hl hp hs h.outState).1, h.oe] at hoe
      exact absurd hoe (by decide)
  | true =>
      have hb : s.byteStrobe = false := by
        by_contra hb
        rw [hbyte (by simpa using hb)] at hs
        exact absurd hs (by decide)
      rw [(step_strobe_oe hl hp hs h.outState).1] at hoe
      have hst : s.state = .idle := by
        by_contra hne
        rw [serialTxOe_of_enabled hb (h.body hne).2.2] at hoe
        exact absurd hoe (by decide)
      rw [EopOk, if_pos ⟨hst, h.oe⟩] at heop
      have htable : ∀ x ∈ [7#8, 3#8, 1#8, 0#8], x.getLsbD 0 = false → x = 0 := by decide
      have hzero := htable _ heop.2 (by rwa [serialTxOe, heop.1] at hoe)
      simp only [untilEnd, hst, hzero]
      decide

/-- Before the end of its packet the transmitter keeps sending. -/
theorem Sending.next (h : Sending s) (hl : i.linkReset = false) (ho : i.txOscTestMode = false)
    (hp : i.pktStart = false) (hbyte : s.byteStrobe = true → i.bitStrobe = false)
    (heop : EopOk s) (hend : pktEnd s i = false) : Sending (step s i) := by
  obtain ⟨n, hprep⟩ | ⟨hdrive, hpos⟩ := h
  · obtain hnext | ⟨-, -, hnext⟩ := hprep.next hl ho hp hbyte
    · exact .inl ⟨_, hnext⟩
    · have hmore := hprep.untilEnd_step hl ho hp hnext
      exact .inr ⟨hnext, by omega⟩
  · have hstep := hdrive.untilEnd_step hl ho hp hbyte
    have hmore : 0 < untilEnd (step s i) := by
      cases hs : i.bitStrobe with
      | false =>
          rw [hs] at hstep
          exact lt_of_lt_of_le hpos (by simpa using hstep)
      | true =>
          rw [hs, if_pos rfl] at hstep
          have hne : untilEnd s ≠ 1 := by
            intro hu
            have hse0 := (pktEnd_of_untilEnd hdrive hu).2
            simp [pktEnd, hs, hse0] at hend
          omega
    obtain hnext | hrest := hdrive.next hl ho hp hbyte
    · exact .inr ⟨hnext, hmore⟩
    · have hzero := hdrive.untilEnd_of_atRest hl hp hbyte heop hrest
      omega

/-- No SE0 bit is loaded before EOP. -/
theorem se0_step (hz : s.se0ShiftReg = 0) (hl : i.linkReset = false)
    (ho : i.txOscTestMode = false) (hp : i.pktStart = false)
    (hbyte : s.byteStrobe = true → i.bitStrobe = false)
    (hne : s.byteStrobe = true → s.state ≠ .eop) : (step s i).se0ShiftReg = 0 := by
  cases hb : s.byteStrobe with
  | true =>
      obtain ⟨-, hse0, -⟩ := step_load_regs (s := s) hl hp (hbyte hb)
      have hstate := hne hb
      rw [hse0]
      cases hs : s.state <;> simp only [byteFsm, hs, hb, ho, hp, hz, ne_eq, not_true_eq_false] at hstate ⊢ <;>
        simp
      split_ifs <;> rfl
  | false =>
      cases hs : i.bitStrobe with
      | true =>
          obtain ⟨-, ⟨-, hse0, -⟩ | ⟨-, hse0, -⟩⟩ := step_strobe_regs hl ho hp hb hs
          · rw [hse0, hz]
          · rw [hse0, hz]
            rfl
      | false => rw [(step_hold_regs hl ho hp hb hs).2.1, hz]

theorem EopOk.of_ne_idle (hst : s.state ≠ .idle) (hz : s.se0ShiftReg = 0) : EopOk s := by
  rw [EopOk, if_neg fun h => hst h.1]
  exact hz

/-- While EOP is sent its bits leave both registers together. -/
theorem EopOk.next_idle (h : EopOk s) (hdrive : Driving s) (hst : s.state = .idle)
    (hl : i.linkReset = false) (ho : i.txOscTestMode = false) (hp : i.pktStart = false)
    (hbyte : s.byteStrobe = true → i.bitStrobe = false) : EopOk (step s i) := by
  rw [EopOk, if_pos ⟨hst, hdrive.oe⟩] at h
  obtain ⟨hsame, hmem⟩ := h
  cases hs : i.bitStrobe with
  | false =>
      have hoe := (step_quiet_oe hl hp hs hdrive.outState).1
      have hregs : (step s i).state = .idle ∧ (step s i).se0ShiftReg = s.se0ShiftReg ∧
          (step s i).oeShiftReg = s.oeShiftReg := by
        cases hb : s.byteStrobe with
        | true =>
            obtain ⟨hst', hse0, hoe', -⟩ := step_load_regs (s := s) hl hp hs
            simp [hst', hse0, hoe', byteFsm, hst, ho, hp]
        | false =>
            obtain ⟨hst', hse0, hoe', -⟩ := step_hold_regs hl ho hp hb hs
            exact ⟨hst'.trans hst, hse0, hoe'⟩
      obtain ⟨hst', hse0, hoe'⟩ := hregs
      rw [EopOk, if_pos ⟨hst', hoe.trans hdrive.oe⟩, hse0, hoe']
      exact ⟨hsame, hmem⟩
  | true =>
      have hb : s.byteStrobe = false := by
        by_contra hb
        rw [hbyte (by simpa using hb)] at hs
        exact absurd hs (by decide)
      have hoe := (step_strobe_oe hl hp hs hdrive.outState).1
      have htable : ∀ x ∈ [7#8, 3#8, 1#8, 0#8], x >>> 1 ∈ [7#8, 3#8, 1#8, 0#8] ∧
          (x.getLsbD 0 = false → x = 0 ∧ x >>> 1 = 0) := by decide
      obtain ⟨hshift, hzero⟩ := htable _ hmem
      obtain ⟨hst', hregs⟩ := step_strobe_regs hl ho hp hb hs
      rw [EopOk, hst', hst, hoe, serialTxOe, hsame]
      cases hbit : s.se0ShiftReg.getLsbD 0 with
      | true =>
          obtain ⟨-, hse0, hoe', -⟩ | ⟨-, hse0, hoe', -⟩ := hregs
          · rw [hse0, hoe', if_pos ⟨rfl, rfl⟩]
            exact ⟨hsame, hmem⟩
          · rw [hse0, hoe', if_pos ⟨rfl, rfl⟩, hsame]
            exact ⟨rfl, hshift⟩
      | false =>
          obtain ⟨-, hse0, -⟩ | ⟨-, hse0, -⟩ := hregs
          · simpa [hse0] using (hzero hbit).1
          · simpa [hse0] using (hzero hbit).2

/-- The SE0 bits are loaded with EOP, and shifted with the output-enable bits. -/
theorem EopOk.next (h : EopOk s) (hstage : AtRest s ∨ (∃ n, Preparing n s) ∨ Driving s)
    (ho : i.txOscTestMode = false) (hp : i.pktStart = true → AtRest s)
    (hbyte : s.byteStrobe = true → i.bitStrobe = false) : EopOk (step s i) := by
  have hzero : s.state ≠ .idle ∨ s.oe = false → s.se0ShiftReg = 0 := by
    intro hor
    rw [EopOk, if_neg (by rintro ⟨hst, hoe⟩; simp_all)] at h
    exact h
  cases hl : i.linkReset with
  | true => simp [EopOk, step, hl, State.reset]
  | false =>
      cases hstart : i.pktStart with
      | true =>
          have hrest := hp hstart
          refine .of_ne_idle ?_ ?_
          · simp [step, hl, procFsm_state, byteFsm, hrest.state, ho, hstart]
          · simpa [step, hl, procFsm, byteFsm, hrest.state, ho, hstart] using hzero (.inr hrest.oe)
      | false =>
          obtain hrest | ⟨n, hprep⟩ | hdrive := hstage
          · have hse0 := se0_step (hzero (.inr hrest.oe)) hl ho hstart hbyte
              (by rw [hrest.state]; simp)
            rw [EopOk, if_neg (by rw [(hrest.next ho hstart).oe]; simp)]
            exact hse0
          · have hne : s.state ≠ .idle ∧ s.state ≠ .eop := by
              obtain hst | hst := hprep.state_cases <;> simp [hst]
            have hse0 := se0_step (hzero (.inl hne.1)) hl ho hstart hbyte fun _ => hne.2
            refine .of_ne_idle ?_ hse0
            obtain hnext | ⟨-, -, hnext⟩ := hprep.next hl ho hstart hbyte
            · obtain hst | hst := hnext.state_cases <;> simp [hst]
            · have hmore := hprep.untilEnd_step hl ho hstart hnext
              intro hidle
              simp only [untilEnd, hidle] at hmore
              split_ifs at hmore <;> omega
          · by_cases hst : s.state = .idle
            · exact h.next_idle hdrive hst hl ho hstart hbyte
            · by_cases hload : s.byteStrobe = true ∧ s.state = .eop
              · have hs := hbyte hload.1
                have hoe := (step_quiet_oe hl hstart hs hdrive.outState).1
                obtain ⟨hst', hse0, hoe', -⟩ := step_load_regs (s := s) hl hstart hs
                simp [EopOk, hst', hse0, hoe', hoe, hdrive.oe, byteFsm, hload]
              · have hse0 := se0_step (hzero (.inl hst)) hl ho hstart hbyte
                  fun hb heop => hload ⟨hb, heop⟩
                refine .of_ne_idle ?_ hse0
                obtain ⟨hsync, hosc, -⟩ := hdrive.body hst
                rw [show (step s i).state = (byteFsm s i).state by simp [step, hl, procFsm_state]]
                cases hs : s.state <;> simp only [hs, ne_eq, not_true_eq_false] at hst hsync hosc <;>
                  simp only [byteFsm, hs] <;> split_ifs <;> simp_all

end UsbDev.FsTx

namespace UsbDev.NbPe

variable {N : ℕ} {s : State N} {i : Input N}

/-! ### The invariant -/

/-- How far a transmission is, and how little is left of a packet that it cut off. -/
inductive Fade (s : State N) : Prop
  | rest : FsTx.AtRest s.tx → Fade s
  | preparing (n : ℕ) : FsTx.Preparing n s.tx → Fade s
  | started : FsTx.Driving s.tx → 15 ≤ FsTx.untilEnd s.tx → Fade s
  | settling : FsTx.Driving s.tx → FsRx.Settling s.rx → 14 ≤ FsTx.untilEnd s.tx → Fade s
  | muted : FsTx.Driving s.tx → FsRx.SeesJ s.rx →
      FsRx.stale s.rx = 0 ∨
        FsRx.stale s.rx + (if FsRx.bitStrobe s.rx then 1 else 0) ≤ FsTx.untilEnd s.tx → Fade s

/-- What holds of the OUT engine in every run: no token ends while it waits for a DATA packet, and
no packet is received when it has taken one. -/
structure OutWaits (s : State N) : Prop where
  waitData : s.out.outXactState = .rcvdOut → s.out.timeoutCntdown.toNat < FsRx.tokenIn s.rx
  dataEnd : s.out.outXactState = .rcvdDataEnd ∨ s.out.outXactState = .rcvdIsoDataEnd →
    s.rx.packetValid = false

/-- What holds of the engines that wait for the host or for their own packet. -/
structure Turnaround (s : State N) : Prop where
  inv : Inv s
  eop : FsTx.EopOk s.tx
  fade : Fade s
  sending : s.inp.inXactState = .sendData ∨ s.inp.inXactState = .waitTxEnd → FsTx.Sending s.tx
  loading : s.inp.inXactState = .sendData → FsTx.Loading s.tx
  waitAck : s.inp.inXactState = .waitAckStart →
    s.inp.timeoutCntdown.toNat < FsRx.tokenIn s.rx
  waitData : s.out.outXactState = .rcvdOut → s.out.timeoutCntdown.toNat < FsRx.tokenIn s.rx
  dataEnd : s.out.outXactState = .rcvdDataEnd ∨ s.out.outXactState = .rcvdIsoDataEnd →
    s.rx.packetValid = false

theorem Fade.stage (h : Fade s) :
    FsTx.AtRest s.tx ∨ (∃ n, FsTx.Preparing n s.tx) ∨ FsTx.Driving s.tx := by
  cases h with
  | rest h => exact .inl h
  | preparing n h => exact .inr (.inl ⟨n, h⟩)
  | started h => exact .inr (.inr h)
  | settling h => exact .inr (.inr h)
  | muted h => exact .inr (.inr h)

/-- One sample of J and one strobe bring both ends nearer. -/
theorem stale_step (hsees : FsRx.SeesJ s.rx) (hl : i.linkReset = false) {m n : ℕ}
    (hm : m ≤ n + if FsRx.bitStrobe s.rx then 1 else 0)
    (h : FsRx.stale s.rx = 0 ∨ FsRx.stale s.rx + (if FsRx.bitStrobe s.rx then 1 else 0) ≤ m) :
    FsRx.stale (FsRx.step s.rx (rxInput s i)) = 0 ∨
      FsRx.stale (FsRx.step s.rx (rxInput s i)) +
        (if FsRx.bitStrobe (FsRx.step s.rx (rxInput s i)) then 1 else 0) ≤ n := by
  have hstep := hsees.stale_step (i := rxInput s i) hl
  have hphase : FsRx.bitStrobe (FsRx.step s.rx (rxInput s i)) = true →
      FsRx.lineStateValid s.rx = true := by
    rw [FsRx.bitStrobe_iff, FsRx.lineStateValid_iff]
    exact FsRx.bitPhase_of_strobe
  have hone : FsRx.bitStrobe s.rx = true → FsRx.lineStateValid s.rx = false := by
    rw [FsRx.bitStrobe_iff]
    intro h2
    exact FsRx.lineStateValid_of_ne (by rw [h2]; decide)
  cases hv : FsRx.lineStateValid s.rx <;> cases hs : FsRx.bitStrobe s.rx <;>
    cases hn : FsRx.bitStrobe (FsRx.step s.rx (rxInput s i)) <;> simp_all <;> omega

variable [NeZero N]

theorem Inv.byteStrobe (h : Inv s) : s.tx.byteStrobe = true → (txInput s i).bitStrobe = false := by
  intro hb
  have hquiet : FsRx.bitStrobe s.rx = false := by
    rw [← Bool.not_eq_true, FsRx.bitStrobe_iff]
    exact h.strobe hb
  exact hquiet

theorem step_tx (s : State N) (i : Input N) : (step s i).tx = FsTx.step s.tx (txInput s i) := rfl

/-- The output enable changes only with a bit. -/
theorem oe_step (hl : i.linkReset = false) (hs : FsRx.bitStrobe s.rx = false) :
    (step s i).tx.oe = s.tx.oe := by
  have hstrobe : (txInput s i).bitStrobe = false := hs
  have hreset : (txInput s i).linkReset = false := hl
  rw [step_tx]
  simp only [FsTx.step, hreset, FsTx.procDiff, FsTx.nrziDiff, hstrobe, Bool.false_and]
  cases (txInput s i).pktStart <;> cases s.tx.oe <;> simp

theorem Fade.next (h : Fade s) (hinv : Inv s) (ho : i.txOscTestMode = false) :
    Fade (step s i) := by
  cases hl : i.linkReset with
  | true => exact .rest (FsTx.atRest_of_linkReset hl)
  | false =>
      cases hs : txPktStart s i with
      | true => exact .preparing 0 ((hinv.start hs).1.start hl ho hs)
      | false =>
          have hbyte := hinv.byteStrobe (i := i)
          cases h with
          | rest hrest => exact .rest (hrest.next ho hs)
          | preparing n hprep =>
              obtain hnext | ⟨-, -, hnext⟩ := hprep.next hl ho hs hbyte
              · exact .preparing _ hnext
              · have hmore := hprep.untilEnd_step hl ho hs hnext
                exact .started hnext (by rw [step_tx]; omega)
          | started hdrive hmore =>
              obtain hnext | hrest := hdrive.next hl ho hs hbyte
              · have hstep := hdrive.untilEnd_step hl ho hs hbyte
                refine .settling hnext (hinv.line.mute hl hdrive.oe) ?_
                rw [step_tx]
                split_ifs at hstep <;> omega
              · exact .rest hrest
          | settling hdrive hsettle hmore =>
              obtain hnext | hrest := hdrive.next hl ho hs hbyte
              · have hstep := hdrive.untilEnd_step hl ho hs hbyte
                have hle := FsRx.stale_le (step s i).rx
                refine .muted hnext (hsettle.step hl hdrive.oe) (.inr ?_)
                rw [step_tx]
                split_ifs at hstep ⊢ <;> omega
              · exact .rest hrest
          | muted hdrive hsees hle =>
              obtain hnext | hrest := hdrive.next hl ho hs hbyte
              · have hstep := hdrive.untilEnd_step hl ho hs hbyte
                exact .muted hnext (hsees.settling.step hl hdrive.oe) (stale_step hsees hl hstep hle)
              · exact .rest hrest

/-! ### One cycle -/

theorem inXactState_step (h : (step s i).inp.inXactState ≠ .idle) :
    i.linkReset = false ∧ (step s i).inp.inXactState = (inComb s i).stateNext := by
  have hstep : (step s i).inp.inXactState = if i.linkReset || !i.linkActive then .idle
      else (inComb s i).stateNext := rfl
  cases hl : i.linkReset <;> cases ha : i.linkActive <;> simp_all

theorem outXactState_step (h : (step s i).out.outXactState ≠ .idle) :
    i.linkReset = false ∧ (step s i).out.outXactState = (outComb s i).stateNext := by
  have hstep : (step s i).out.outXactState = if i.linkReset then .idle
      else (outComb s i).stateNext := rfl
  cases hl : i.linkReset <;> simp_all

/-- The end of a packet is also an end for the transmitter's own reading of it. -/
theorem txPktEnd_eq (s : State N) (i : Input N) : txPktEnd s = FsTx.pktEnd s.tx (txInput s i) := rfl

/-- No packet starts while one is sent. -/
theorem Inv.not_start_of_sending (h : Inv s) (hsend : FsTx.Sending s.tx) :
    txPktStart s i = false := by
  rw [← Bool.not_eq_true]
  exact fun hs => hsend.not_atRest (h.start hs).1

omit [NeZero N] in
/-- While the payload is sent the packet does not end. -/
theorem Turnaround.not_txPktEnd (h : Turnaround s) (hs : s.inp.inXactState = .sendData) :
    txPktEnd s = false := by
  have hne : s.tx.state ≠ .idle := by
    obtain hst | hst | hst := (h.loading hs).state <;> simp [hst]
  have hse0 : s.tx.se0ShiftReg = 0 := by
    have heop := h.eop
    rwa [FsTx.EopOk, if_neg fun hand => hne hand.1] at heop
  simp [txPktEnd, hse0]

theorem Turnaround.sending_step (h : Turnaround s) (ho : i.txOscTestMode = false)
    (hn : (step s i).inp.inXactState = .sendData ∨ (step s i).inp.inXactState = .waitTxEnd) :
    FsTx.Sending (step s i).tx := by
  obtain ⟨hl, hnext⟩ := inXactState_step (s := s) (i := i) (by obtain hn | hn := hn <;> simp [hn])
  have hgo : s.inp.inXactState = .sendData ∨ s.inp.inXactState = .waitTxEnd →
      txPktEnd s = false → FsTx.Sending (step s i).tx := by
    intro hs hend
    have hsend := h.sending hs
    exact hsend.next hl ho (h.inv.not_start_of_sending hsend) h.inv.byteStrobe h.eop
      ((txPktEnd_eq s i).symm.trans hend)
  rw [hnext] at hn
  obtain hn | hn := hn
  · obtain ⟨-, hstart, -⟩ | ⟨hs, -⟩ := InPe.sendData_cases hn
    · have hboth : txPktStart s i = true := by
        rw [txPktStart, Bool.or_eq_true]
        exact .inl hstart
      exact .inl ⟨0, (h.inv.start hboth).1.start hl ho hboth⟩
    · exact hgo (.inl hs) (h.not_txPktEnd hs)
  · obtain ⟨hs, hend⟩ := InPe.waitTxEnd_cases hn
    exact hgo hs hend

theorem Turnaround.loading_step (h : Turnaround s) (ho : i.txOscTestMode = false)
    (hn : (step s i).inp.inXactState = .sendData) : FsTx.Loading (step s i).tx := by
  obtain ⟨hl, hnext⟩ := inXactState_step (s := s) (i := i) (by simp [hn])
  rw [hnext] at hn
  obtain ⟨-, hstart, hpid⟩ | ⟨hs, hmore⟩ := InPe.sendData_cases hn
  · have hboth : txPktStart s i = true := by
      rw [txPktStart, Bool.or_eq_true]
      exact .inl hstart
    have hout : (outComb s i).txPktStart = false := by
      rw [← Bool.not_eq_true]
      exact fun hout => h.inv.not_both ⟨hstart, hout⟩
    have htx : txPid s i = (inComb s i).txPid := by simp [txPid, hout]
    have hpid' : (step s i).tx.pid = (inComb s i).txPid := by
      simp [step_tx, FsTx.step, txInput, hl, hboth, htx]
    constructor
    · rw [hpid']
      obtain hp | hp := hpid
      · rw [show (inComb s i).txPid = usbPidData0 from hp]
        rfl
      · rw [show (inComb s i).txPid = usbPidData1 from hp]
        rfl
    · have hprep := (h.inv.start hboth).1.start (i := txInput s i) hl ho hboth
      exact hprep.state_cases.imp_right .inl
  · have hload := h.loading hs
    have hp := h.inv.not_start_of_sending (i := i) (h.sending (.inl hs))
    have havail : (txInput s i).txDataAvail = true := by
      simp [txInput, InPe.txDataAvail, hs, show InPe.moreDataToSend s.inp (inInput s i) = true from hmore]
    constructor
    · rw [step_tx, FsTx.step_pid hl hp]
      exact hload.pid
    · have hstate : (step s i).tx.state = (FsTx.byteFsm s.tx (txInput s i)).state := by
        rw [step_tx]
        simp [FsTx.step, show (txInput s i).linkReset = false from hl, FsTx.procFsm_state]
      rw [hstate]
      obtain hst | hst | hst := hload.state <;> simp only [FsTx.byteFsm, hst] <;>
        split_ifs <;> simp_all [hload.pid]

omit [NeZero N] in
/-- When the packet of the IN engine ends, nothing is left of one that it cut off. -/
theorem Turnaround.stale_of_txPktEnd (h : Turnaround s) (hsend : FsTx.Sending s.tx)
    (hend : txPktEnd s = true) : FsRx.stale s.rx = 0 ∧ s.rx.bitPhase = 2 := by
  simp only [txPktEnd, Bool.and_eq_true, beq_iff_eq] at hend
  obtain ⟨hstrobe, hse0⟩ := hend
  have hidle : s.tx.state = .idle ∧ s.tx.oe = true := by
    by_contra hne
    have heop := h.eop
    rw [FsTx.EopOk, if_neg hne] at heop
    rw [heop] at hse0
    exact absurd hse0 (by decide)
  have hlast : FsTx.untilEnd s.tx = 1 := by
    have heop := h.eop
    rw [FsTx.EopOk, if_pos hidle] at heop
    exact FsTx.untilEnd_of_se0 hidle.1 hse0 heop.2
  refine ⟨?_, FsRx.bitStrobe_iff.1 hstrobe⟩
  cases h.fade with
  | rest hrest => exact absurd hrest hsend.not_atRest
  | preparing n hprep =>
      obtain hst | hst := hprep.state_cases <;> rw [hidle.1] at hst <;> cases hst
  | started _ hmore => omega
  | settling _ _ hmore => omega
  | muted _ _ hle =>
      rw [hstrobe, if_pos rfl] at hle
      omega

theorem Turnaround.waitAck_step (h : Turnaround s)
    (hn : (step s i).inp.inXactState = .waitAckStart) :
    (step s i).inp.timeoutCntdown.toNat < FsRx.tokenIn (step s i).rx := by
  obtain ⟨hl, hnext⟩ := inXactState_step (s := s) (i := i) (by simp [hn])
  rw [hnext] at hn
  have htimeout : (step s i).inp.timeoutCntdown = (inComb s i).timeoutD := rfl
  rw [htimeout]
  obtain ⟨hs, hend, htime⟩ | ⟨hs, -, hne, htime⟩ := InPe.waitAckStart_cases hn
  · obtain ⟨hstale, hphase⟩ := h.stale_of_txPktEnd (h.sending hs) hend
    have hfar := FsRx.tokenIn_of_stale (i := rxInput s i) hstale hl hphase
    rw [show (inComb s i).timeoutD = InPe.ackTimeoutCnt from htime]
    exact lt_of_lt_of_le (by decide) hfar
  · have hstep := FsRx.tokenIn_step s.rx (rxInput s i)
    have hnow := h.waitAck hs
    have hpred := Clocked.toNat_pred hne
    rw [show (inComb s i).timeoutD = s.inp.timeoutCntdown - 1 from htime]
    change _ < FsRx.tokenIn (FsRx.step s.rx (rxInput s i))
    omega

theorem OutWaits.waitData_step (h : OutWaits s)
    (hn : (step s i).out.outXactState = .rcvdOut) :
    (step s i).out.timeoutCntdown.toNat < FsRx.tokenIn (step s i).rx := by
  obtain ⟨hl, hnext⟩ := outXactState_step (s := s) (i := i) (by simp [hn])
  rw [hnext] at hn
  have htimeout : (step s i).out.timeoutCntdown = (outComb s i).timeoutD := rfl
  rw [htimeout]
  obtain ⟨-, hend, htime⟩ | ⟨hs, -, hne, htime⟩ := OutPe.rcvdOut_cases hn
  · have hfar := FsRx.tokenIn_of_packetEnd (s := s.rx) (i := rxInput s i) hend
    rw [show (outComb s i).timeoutD = OutPe.ackTimeoutCnt from htime]
    exact lt_of_lt_of_le (by decide) hfar
  · have hstep := FsRx.tokenIn_step s.rx (rxInput s i)
    have hnow := h.waitData hs
    have hpred := Clocked.toNat_pred hne
    rw [show (outComb s i).timeoutD = s.out.timeoutCntdown - 1 from htime]
    change _ < FsRx.tokenIn (FsRx.step s.rx (rxInput s i))
    omega

theorem dataEnd_step
    (hn : (step s i).out.outXactState = .rcvdDataEnd ∨
      (step s i).out.outXactState = .rcvdIsoDataEnd) : (step s i).rx.packetValid = false := by
  obtain ⟨-, hnext⟩ := outXactState_step (s := s) (i := i) (by obtain hn | hn := hn <;> simp [hn])
  rw [hnext] at hn
  have hend := packetEnd_of_dataPacket (OutPe.dataPacket_of_dataEnd hn).2.1
  exact FsRx.packetValid_step_of_end hend

theorem OutWaits.step (h : OutWaits s) : OutWaits (step s i) where
  waitData := h.waitData_step
  dataEnd := dataEnd_step

omit [NeZero N] in
theorem Turnaround.outWaits (h : Turnaround s) : OutWaits s := ⟨h.waitData, h.dataEnd⟩

theorem Turnaround.step (h : Turnaround s) (ho : i.txOscTestMode = false) :
    Turnaround (step s i) where
  inv := h.inv.step ho
  eop := h.eop.next h.fade.stage ho (fun hs => (h.inv.start hs).1) h.inv.byteStrobe
  fade := h.fade.next h.inv ho
  sending := h.sending_step ho
  loading := h.loading_step ho
  waitAck := h.waitAck_step
  waitData := h.outWaits.waitData_step
  dataEnd := dataEnd_step

theorem outWaits_reset : OutWaits (State.reset N) where
  waitData := by simp [State.reset, OutPe.State.reset]
  dataEnd := by simp [State.reset, OutPe.State.reset]

theorem turnaround_reset : Turnaround (State.reset N) where
  inv := inv_reset
  eop := by simp [FsTx.EopOk, State.reset, FsTx.State.reset]
  fade := .rest ⟨rfl, rfl, rfl⟩
  sending := by simp [State.reset, InPe.State.reset]
  loading := by simp [State.reset, InPe.State.reset]
  waitAck := by simp [State.reset, InPe.State.reset]
  waitData := outWaits_reset.waitData
  dataEnd := outWaits_reset.dataEnd

/-! ### What cannot end -/

omit [NeZero N] in
theorem rxDataLen16_of_token {d : BitVec 7} (htok : (rxSignals s i).tokenReceived d = true) :
    s.rx.bitPhase = 1 ∧ s.rx.packetValid = true ∧ s.rx.rxDataLen16 = true := by
  simp only [RxSignals.tokenReceived, Bool.and_eq_true, beq_iff_eq] at htok
  obtain ⟨⟨⟨hend, hvalid⟩, htype⟩, -⟩ := htok
  obtain ⟨hphase, hpacket, -⟩ := FsRx.packetEnd_cases hend
  have hshake : FsRx.pktIsHandshake s.rx = false := by
    rw [← Bool.not_eq_true, FsRx.pktIsHandshake_iff]
    intro htwo
    have htype' : (FsRx.pid s.rx).extractLsb' 0 2 = 0b01#2 := htype
    rw [htwo] at htype'
    exact absurd htype' (by decide)
  exact ⟨hphase, hpacket, rxDataLen16_of_validPacket hvalid hshake⟩

omit [NeZero N] in
/-- A valid token meets the OUT engine at rest or in the middle of a packet. -/
theorem OutWaits.of_token (h : OutWaits s) {d : BitVec 7}
    (htok : (rxSignals s i).tokenReceived d = true) :
    s.out.outXactState = .idle ∨ s.out.outXactState = .rcvdDataStart := by
  obtain ⟨hphase, hpacket, h16⟩ := rxDataLen16_of_token htok
  cases hs : s.out.outXactState with
  | idle => exact .inl rfl
  | rcvdDataStart => exact .inr rfl
  | rcvdOut =>
      have hzero := FsRx.tokenIn_of_payload hphase hpacket h16
      have hlt := h.waitData hs
      omega
  | rcvdDataEnd =>
      have hnot := h.dataEnd (.inl hs)
      rw [hpacket] at hnot
      exact absurd hnot (by decide)
  | rcvdIsoDataEnd =>
      have hnot := h.dataEnd (.inr hs)
      rw [hpacket] at hnot
      exact absurd hnot (by decide)

omit [NeZero N] in
/-- A valid token meets the IN engine at rest or waiting for a packet to end, and the OUT engine
at rest or in the middle of a packet. -/
theorem Turnaround.of_token (h : Turnaround s) {d : BitVec 7}
    (htok : (rxSignals s i).tokenReceived d = true) :
    (s.inp.inXactState = .idle ∨ s.inp.inXactState = .waitAck) ∧
      (s.out.outXactState = .idle ∨ s.out.outXactState = .rcvdDataStart) := by
  refine ⟨?_, h.outWaits.of_token htok⟩
  obtain ⟨hphase, hpacket, h16⟩ := rxDataLen16_of_token htok
  have hrest := h.inv.stage.atRest (FsRx.payload_of_len16 hpacket h16)
  cases hs : s.inp.inXactState with
  | idle => exact .inl rfl
  | waitAck => exact .inr rfl
  | rcvdIn =>
      have hnot := (h.inv.answer (.inl hs)).2.1
      rw [hpacket] at hnot
      exact absurd hnot (by decide)
  | sendData => exact absurd hrest (h.sending (.inl hs)).not_atRest
  | waitTxEnd => exact absurd hrest (h.sending (.inr hs)).not_atRest
  | waitAckStart =>
      have hzero := FsRx.tokenIn_of_payload hphase hpacket h16
      have hlt := h.waitAck hs
      omega

omit [NeZero N] in
/-- No packet ends in the cycle after a DATA packet. -/
theorem OutWaits.not_packetEnd (h : OutWaits s)
    (hs : s.out.outXactState = .rcvdDataEnd ∨ s.out.outXactState = .rcvdIsoDataEnd) :
    (rxSignals s i).pktEnd = false := by
  rw [← Bool.not_eq_true]
  intro hend
  have hpacket := (FsRx.packetEnd_cases (show FsRx.packetEnd s.rx (rxInput s i) = true from hend)).2.1
  rw [h.dataEnd hs] at hpacket
  exact absurd hpacket (by decide)

end UsbDev.NbPe
