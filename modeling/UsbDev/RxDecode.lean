import UsbDev.RxPacket

/-!
# A whole packet

From an idle line through SYNC, the bits of a packet and its end: the receiver
reports the packet once, in a cycle in which its registers hold all unstuffed
bits, and the bytes shown before are those of the payload.
-/
namespace UsbDev.FsRx

open LineCode Clocked Deserializer

variable {s : State} {i : Input} {us raw : List Bool} {got : List (BitVec 8)}

/-! ### Fields and bytes at a sample -/

/-- The token fields follow the token register with one cycle of delay. -/
structure Fields (s : State) : Prop where
  addr : s.addr = s.tokenPayload.extractLsb' 1 7
  endp : s.endp = s.tokenPayload.extractLsb' 8 4
  frameNum : s.frameNum = s.tokenPayload.extractLsb' 1 11

/-- In a cycle with a sample the fields of a complete token are up to date. -/
theorem fields_step (hl : i.linkReset = false) (hv : lineStateValid (step s i) = true)
    (hdone : tokenPayloadDone (step s i) = true) (htoken : pktIsToken (step s i) = true) :
    Fields (step s i) := by
  have hbefore : lineStateValid s = false := by
    by_contra hne
    have hnot := not_valid_step hl (by simpa using hne)
    exact absurd (hnot.symm.trans hv) (by decide)
  have hd : dvalid s = false := by simp [dvalid, dvalidRaw, hbefore]
  have hstart : packetStart s i = false := by
    cases hp : s.packetValid <;> simp [packetStart, packetValidD, hbefore, hp]
  have hpid : (step s i).fullPid = s.fullPid := by simp [step_fullPid s hl, fullPidD, hd, hstart]
  have hpayload : (step s i).tokenPayload = s.tokenPayload := by
    simp [step_tokenPayload s hl, tokenPayloadD, hd, hstart]
  rw [tokenPayloadDone, hpayload, ← tokenPayloadDone] at hdone
  rw [pktIsToken, hpid, ← pktIsToken] at htoken
  constructor
  case addr =>
    rw [hpayload]
    simp [step, hl, addrD, hdone, htoken]
  case endp =>
    rw [hpayload]
    simp [step, hl, endpD, hdone, htoken]
  case frameNum =>
    rw [hpayload]
    simp [step, hl, frameNumD, hdone, htoken]

/-- No byte is shown in a cycle with a sample. -/
theorem Delivers.not_shown (h : Delivers s us got) (hv : lineStateValid s = true) :
    rxDataPut s = false ∧ putByte s = none := by
  cases hdata : pktIsData s with
  | false =>
      obtain ⟨hbuffer, -⟩ := h.other (.inl hdata)
      exact not_put_sentinel hbuffer
  | true =>
      obtain ⟨rest, -, hlt, hbuffer⟩ | ⟨x, -, hnot, -⟩ := h.data hdata
      · exact not_put hlt hbuffer
      · exact absurd (hv.symm.trans hnot) (by decide)

/-- The deserializer at the start of a packet. -/
theorem Delivers.start (hq : Quiet s) (hl : i.linkReset = false) (hs : packetStart s i = true) :
    Delivers (step s i) [] [] := by
  have hd : dvalid s = false := by simp [dvalid, dvalidRaw, hq.packetValid]
  have hbuffer : (step s i).rxDataBuffer = sentinel 8 := by
    rw [step_rxDataBuffer s hl, rxDataBufferD, hd, hs]
    rfl
  exact ⟨fun _ => .inl ⟨[], rfl, by decide, hbuffer⟩, fun _ => ⟨hbuffer, rfl⟩⟩

/-- Several cycles of a packet. -/
theorem Delivers.run (h : Delivers s (unstuff 0 raw) got) (hr : Receiving s raw)
    (is : List Input) (hl : ∀ i ∈ is, i.linkReset = false)
    (he : ∀ e ∈ outs step packetEnd s is, e = false) :
    Delivers (Clocked.run step s is)
      (unstuff 0 (raw ++ Clocked.log step (fun s _ => decodedBit s) s is))
      (got ++ Clocked.log step (fun s _ => putByte s) s is) := by
  induction is generalizing s raw got with
  | nil => simpa using h
  | cons i is ih =>
      have hreset := hl i (by simp)
      have hpush : unstuff 0 raw ++ (if dvalid s then [din s] else []) =
          unstuff 0 (raw ++ (decodedBit s).toList) := by
        rw [unstuff_append, hr.dvalid_eq, decodedBit]
        cases dvalidRaw s with
        | false => simp
        | true =>
            by_cases hones : onesEnd 0 raw < 6
            · simp [unstuff, hones, show ¬ 6 ≤ onesEnd 0 raw by omega]
            · simp [unstuff, hones, show 6 ≤ onesEnd 0 raw by omega]
      have hfirst := h.next (i := i) hr.holds hreset hr.packetValid
      rw [hpush] at hfirst
      have hrest := ih hfirst (hr.next hreset (he _ (by simp))) (fun j hj => hl j (by simp [hj]))
        (fun e hj => he e (by simp [hj]))
      rw [List.append_assoc, List.append_assoc] at hrest
      exact hrest

/-! ### The end of a packet -/

variable {first last : Input} {mid is : List Input} {ls : List Bool}

theorem valid_of_packetEnd (h : packetEnd s i = true) : lineStateValid s = true := by
  by_contra hne
  simp only [packetEnd, packetValidD, hne, Bool.and_eq_true, Bool.not_eq_true'] at h
  exact absurd (h.1.symm.trans h.2) (by decide)

/-- The packet ends in the cycle `last` with its bits in the registers, after the bytes `got`. -/
structure Decoded (s : State) (last : Input) (raw : List Bool) (got : List (BitVec 8)) : Prop where
  ends : packetEnd s last = true
  receiving : Receiving s raw
  delivers : Delivers s (unstuff 0 raw) got
  fields : tokenPayloadDone s = true → pktIsToken s = true → Fields s

/-- After the cycle of the end the receiver is quiet. -/
theorem Decoded.quiet (h : Decoded s last raw got) (hl : last.linkReset = false)
    (hse0 : s.lineHistory.extractLsb' 0 2 = symbolCode .se0) : Quiet (step s last) := by
  have hraw : symbolPair s = false := by
    have hlow := low_split s.lineHistory
    rw [hse0] at hlow
    have hnone : ∀ a : BitVec 2,
        (a ++ symbolCode .se0 == 0b0101#4 || a ++ symbolCode .se0 == 0b0110#4 ||
          a ++ symbolCode .se0 == 0b1001#4 || a ++ symbolCode .se0 == 0b1010#4) = false := by decide
    rw [symbolPair, hlow]
    exact hnone _
  have hd : dvalid s = false := by simp [dvalid, dvalidRaw, hraw]
  have hstart : packetStart s last = false := packetStart_of_packetValid h.receiving.packetValid
  have hput := (h.delivers.not_shown (valid_of_packetEnd h.ends)).1
  have hvalid : packetValidD s last = false := by
    have hends := h.ends
    simp only [packetEnd, Bool.and_eq_true, Bool.not_eq_true'] at hends
    exact hends.1
  exact
    { packetValid := by rw [step_packetValid s hl, hvalid]
      bitstuffHistory := by rw [step_bitstuffHistory s hl, bitstuffHistoryD, h.ends, if_pos rfl]
      rxDataPut := by
        have hbuffer : (step s last).rxDataBuffer = s.rxDataBuffer := by
          rw [step_rxDataBuffer s hl, rxDataBufferD, hd, hstart, hput]
          rfl
        rw [FsRx.rxDataPut, hbuffer]
        exact hput }

/-- Everything about a packet is decided within its cycles. -/
theorem SymbolPacket.decoded (h : SymbolPacket s first mid last ls) (hq : Quiet s)
    (hviol : violates 0 (nrziDecode false ls) = false)
    (hpre : (unstuff 0 (nrziDecode false ls)).take 8 ≠ pidBits usbPidPre) :
    ∃ n, Clocked.log step sample s (first :: mid) =
        levelSamples ls ++ List.replicate (n + 1) (symbolCode .se0) ∧
      Decoded (Clocked.run step s (first :: mid)) last (nrziDecode false ls)
        (Clocked.log step (fun s _ => putByte s) s (first :: mid)) := by
  obtain ⟨n, hall⟩ | ⟨hearly, hsub⟩ := h.samples_cases
  · refine ⟨n, hall, ?_⟩
    have hrec := h.receiving
    rw [packetBits_of_complete hall] at hrec
    have hreset := h.linkReset first (by simp)
    have hmid : ∀ i ∈ mid, i.linkReset = false := fun i hi => h.linkReset i (by simp [hi])
    have hfirst := Receiving.start h.settled hreset h.start
    have hdel := (Delivers.start hq hreset h.start).run hfirst mid hmid h.middle
    exact
      { ends := h.ends
        receiving := hrec
        delivers := by
          rw [h.log_decodedBit, packetBits_of_complete hall] at hdel
          rw [log_cons, hq.putByte_eq]
          exact hdel
        fields := by
          obtain ⟨init, i, hinit⟩ := (List.eq_nil_or_concat' (first :: mid)).resolve_left (by simp)
          have hvalid := valid_of_packetEnd h.ends
          have hi := h.linkReset i (by rw [hinit]; simp)
          rw [hinit, run_append] at hvalid ⊢
          exact fields_step hi hvalid }
  · exact absurd hearly (h.receiving.not_early hsub hviol hpre)

/-! ### From SYNC to the idle line -/

/-- The cycles after the end of a packet report nothing more. -/
theorem Decoded.silent (h : Decoded s last raw got) (hl : ∀ i ∈ last :: is, i.linkReset = false)
    (hd : ∀ i ∈ last :: is, i.diffRxOk = true)
    (hse0 : s.lineHistory.extractLsb' 0 2 = symbolCode .se0)
    (hsamples : ∀ x ∈ Clocked.log step sample s (last :: is), x ≠ symbolCode .k) :
    Clocked.log step report s (last :: is) = (report s last).toList ∧
      Clocked.log step (fun s _ => putByte s) s (last :: is) = [] := by
  have hvalid := valid_of_packetEnd h.ends
  have hsample : sample s last = some ((lineStateRx s last).extractLsb' 0 2) := by
    rw [sample, hvalid, if_pos rfl]
  rw [log_cons, hsample] at hsamples
  have hhist : (step s last).lineHistory.extractLsb' 0 4 =
      symbolCode .se0 ++ (lineStateRx s last).extractLsb' 0 2 := by
    have hline : (step s last).lineHistory = lineHistoryD s last := by
      simp [step, hl last (by simp)]
    rw [hline, lineHistoryD, hvalid, if_pos rfl]
    refine history_push _ (s.lineHistory.extractLsb' 2 2) _ _ ?_
    rw [low_split, hse0]
  have hreset : ∀ i ∈ is, i.linkReset = false := fun i hi => hl i (by simp [hi])
  obtain ⟨-, hreport, hput⟩ := (h.quiet (hl last (by simp)) hse0).hunt hreset
    (fun i hi => hd i (by simp [hi])) hhist
    (noSync_of_not_k (hsamples _ (by simp)) fun x hx => hsamples x (by simp [hx]))
  constructor
  · rw [log_cons, hreport, List.append_nil]
  · rw [log_cons, hput, (h.delivers.not_shown hvalid).2]
    rfl

/-- A packet between two idle lines is received: one report, in a cycle in which the registers
hold its bits, and no byte after it. -/
theorem receive {flip : Bool} (h : Idle s) (hne : raw ≠ [])
    (hw : Waveform flip (syncLines ++ ((nrzi false raw).map Line.ofLevel ++ [.se0, .se0, .j])) is)
    (hviol : violates 0 raw = false) (hpre : (unstuff 0 raw).take 8 ≠ pidBits usbPidPre) :
    ∃ e last, Clocked.log step report s is = (report e last).toList ∧
      Decoded e last raw (Clocked.log step (fun s _ => putByte s) s is) := by
  obtain ⟨b, bs, rfl⟩ := List.exists_cons_of_ne_nil hne
  have hreset := hw.linkReset
  have hok := hw.diffRxOk
  rw [nrzi_cons, List.map_cons, List.cons_append] at hw
  obtain ⟨pre, first, rest, rfl, hquiet, hstart, hreport, hput, hsamples⟩ := sync_detected h hw
  have hmem : ∀ i ∈ first :: rest, i ∈ pre ++ first :: rest := fun i hi =>
    List.mem_append_right pre hi
  have hlevels := hsamples.trans (map_symbolCode_levels (nrzi false (b :: bs)))
  obtain ⟨mid, last, post, rfl, hpacket⟩ := exists_packet hquiet hstart
    (fun i hi => hreset i (hmem i hi)) (fun i hi => hok i (hmem i hi)) hlevels
  rw [← nrziDecode_nrzi false (b :: bs)] at hviol hpre
  obtain ⟨n, hall, hdecoded⟩ := hpacket.decoded hquiet hviol hpre
  rw [nrziDecode_nrzi] at hdecoded
  have hlow : (Clocked.run step (Clocked.run step s pre)
      (first :: mid)).lineHistory.extractLsb' 0 2 = symbolCode .se0 := by
    rw [run_lineHistory _ _ hpacket.linkReset, hall, List.replicate_succ', ← List.append_assoc,
      List.foldl_concat, pushSample, BitVec.extractLsb'_append_eq_right]
  have hrest : ∀ x ∈ log step sample (Clocked.run step (Clocked.run step s pre) (first :: mid))
      (last :: post), x ≠ symbolCode .k := by
    rw [← List.cons_append, log_append, hall, List.append_assoc, List.append_cancel_left_eq]
      at hlevels
    intro x hx
    have hin : x ∈ [symbolCode .se0, symbolCode .se0, symbolCode .j] := by
      rw [← hlevels]
      exact List.mem_append_right _ hx
    have hk : ∀ y ∈ [symbolCode .se0, symbolCode .se0, symbolCode .j], y ≠ symbolCode .k := by
      decide
    exact hk x hin
  have hpost : ∀ i ∈ last :: post, i ∈ pre ++ first :: (mid ++ last :: post) := fun i hi => by
    refine hmem i ?_
    rw [← List.cons_append]
    exact List.mem_append_right _ hi
  obtain ⟨hreport', hput'⟩ := hdecoded.silent (fun i hi => hreset i (hpost i hi))
    (fun i hi => hok i (hpost i hi)) hlow hrest
  have hnone : log step report (Clocked.run step s pre) (first :: mid) = [] := by
    rw [log_cons, hquiet.report_eq, log_eq_nil (fun s i he => by rw [report, he]; rfl)
      hpacket.middle]
    rfl
  refine ⟨Clocked.run step (Clocked.run step s pre) (first :: mid), last, ?_, ?_⟩
  · rw [log_append, hreport, List.nil_append, ← List.cons_append, log_append, hnone, hreport',
      List.nil_append]
  · rw [log_append, hput, List.nil_append, ← List.cons_append, log_append, hput', List.append_nil]
    exact hdecoded

end UsbDev.FsRx
