import UsbDev.Driver
import UsbDev.RxDecode

/-!
# Packets of the host driver

Every packet that `drive_packet` sends on an idle line is received: the receiver
reports it once, as valid and with the fields that were sent, and delivers the
payload with the two bytes of the CRC.
-/
namespace UsbDev.FsRx

open LineCode Clocked Deserializer Driver

variable {s : State} {last : Input} {got : List (BitVec 8)} {raw : List Bool}

/-- An error output of the receiver. -/
def errorOut (s : State) (i : Input) : Bool :=
  crc5Error s i || crc16Error s i || pidError s i || bitstuffErrorO s i

/-- Errors are part of a report. -/
theorem errorOut_of_report {s : State} {is : List Input}
    (h : ∀ r ∈ log step report s is, r.noError = true) :
    ∀ e ∈ outs step errorOut s is, e = false := by
  induction is generalizing s with
  | nil => simp
  | cons i is ih =>
      rw [log_cons] at h
      have hrest := ih (s := step s i) fun r hr => h r (List.mem_append_right _ hr)
      have hfirst : errorOut s i = false := by
        cases hend : packetEnd s i with
        | false => simp [errorOut, crc5Error, crc16Error, pidError, bitstuffErrorO, hend]
        | true =>
            obtain ⟨r, hr⟩ : ∃ r, report s i = some r := ⟨_, by rw [report, hend, if_pos rfl]⟩
            have hnone := h r (by rw [hr]; simp)
            rw [report, hend, if_pos rfl, Option.some.injEq] at hr
            rw [← hr] at hnone
            simpa [Report.noError, errorOut, and_assoc] using hnone
      simpa [hfirst] using hrest

/-! ### The line code of the driver -/

/-- The bytes of a CRC in the order in which they are received. -/
def crcBytes (crc : BitVec 16) : List (BitVec 8) :=
  [(crc.extractLsb' 8 8).reverse, (crc.extractLsb' 0 8).reverse]

theorem bitsMsb_crc (crc : BitVec 16) : bitsMsb crc = (crcBytes crc).flatMap bitsLsb := by
  conv_lhs => rw [← bytes_append crc, bitsMsb_append]
  simp [crcBytes, bitsLsb_reverse]

/-- Bytes are determined by their bits. -/
theorem flatMap_bitsLsb_inj {as bs : List (BitVec 8)} {rest : List Bool} (hlt : rest.length < 8)
    (h : as.flatMap bitsLsb ++ rest = bs.flatMap bitsLsb) : as = bs := by
  induction as generalizing bs with
  | nil =>
      cases bs with
      | nil => rfl
      | cons b bs =>
          have hlen := congrArg List.length h
          simp at hlen
          omega
  | cons a as ih =>
      cases bs with
      | nil =>
          have hlen := congrArg List.length h
          simp at hlen
      | cons b bs =>
          rw [List.flatMap_cons, List.flatMap_cons, List.append_assoc] at h
          obtain ⟨hfirst, hrest⟩ := List.append_inj h (by simp)
          rw [bitsLsb_inj hfirst, ih hrest]

/-- SYNC on the line, then the packet from the level K on. -/
theorem packetLines_sync (bits : List Bool) :
    packetLines (bitsLsb 0x80#8 ++ bits) =
      syncLines ++ ((nrzi false (stuff 1 bits)).map Line.ofLevel ++ [.se0, .se0, .j]) := by
  have hsync : (nrzi true (stuff 0 (bitsLsb 0x80#8))).map Line.ofLevel = syncLines := by decide
  have hones : onesAfter 0 (bitsLsb 0x80#8) = 1 := by decide
  have hlevel : (stuff 0 (bitsLsb 0x80#8)).foldl nrziStep true = false := by decide
  rw [packetLines, stuff_append, nrzi_append, List.map_append, hsync, hones, hlevel,
    List.append_assoc]

theorem stuff_pidBits : ∀ p : BitVec 4,
    stuff 1 (pidBits p) = stuff 0 (pidBits p) ∧
      onesAfter 1 (pidBits p) = onesAfter 0 (pidBits p) := by decide

theorem stuff_pidBits_eq : ∀ p : BitVec 4, stuff 0 (pidBits p) = pidBits p := by decide

/-- The one at the end of SYNC does not count: no identifier starts with five ones. -/
theorem stuff_packet (p : BitVec 4) (bits : List Bool) :
    stuff 1 (pidBits p ++ bits) = stuff 0 (pidBits p ++ bits) := by
  obtain ⟨hstuff, hones⟩ := stuff_pidBits p
  rw [stuff_append, stuff_append, hstuff, hones]

/-! ### One report for each kind of packet -/

/-- A report without errors of the packet with identifier `p`. -/
structure Report.Good (r : Report) (p : BitVec 4) : Prop where
  valid : r.valid = true
  pid : r.pid = p
  noError : r.noError = true

section kinds
variable {p : BitVec 4} {payload : List Bool} (h : Decoded s last raw got)
  (hviol : violates 0 raw = false) (hus : unstuff 0 raw = pidBits p ++ payload)
include hus

theorem drop_pidBits : (unstuff 0 raw).drop 8 = payload := by
  rw [hus]
  exact List.drop_left' (length_pidBits p)

include h

theorem Decoded.pid_eq : pidValid s = true ∧ pid s = p := by
  refine (h.receiving.holds.pidValid_iff (by rw [hus]; simp) p).2 ?_
  rw [hus]
  exact List.take_left' (length_pidBits p)

include hviol

/-- The report of a valid packet whose CRC was right. -/
theorem Decoded.good (hvalid : validPacket s = true)
    (hcrc5 : pktIsToken s = true → crc5Valid s = true)
    (hcrc16 : pktIsData s = true → crc16Valid s = true) :
    ∃ r, report s last = some r ∧ r.Good p ∧ r.addr = s.addr ∧ r.endp = s.endp ∧
      r.frameNum = s.frameNum := by
  obtain ⟨hpv, hpid⟩ := h.pid_eq hus
  have herr := h.receiving.bitstuffError
  rw [hviol] at herr
  refine ⟨_, by rw [report, h.ends, if_pos rfl], ⟨hvalid, hpid, ?_⟩, rfl, rfl, rfl⟩
  have h5 : crc5Error s last = false := by
    cases ht : pktIsToken s with
    | false => simp [crc5Error, ht]
    | true => simp [crc5Error, hcrc5 ht]
  have h16 : crc16Error s last = false := by
    cases ht : pktIsData s with
    | false => simp [crc16Error, ht]
    | true => simp [crc16Error, hcrc16 ht]
  simp [Report.noError, h5, h16, pidError, hpv, bitstuffErrorO, herr]

/-- A token or SOF packet. -/
theorem Decoded.token {f : BitVec 11} (hkind : p.extractLsb' 0 2 = 0b01#2)
    (hpayload : payload = bitsLsb f ++ bitsMsb (~~~Crc.run crc5Poly 0b11111#5 (bitsLsb f))) :
    ∃ r, report s last = some r ∧ r.Good p ∧ r.addr = f.extractLsb' 0 7 ∧
      r.endp = f.extractLsb' 7 4 ∧ r.frameNum = f ∧ got = [] := by
  have hdrop := drop_pidBits hus
  obtain ⟨hpv, hpid⟩ := h.pid_eq hus
  have htoken : pktIsToken s = true := (pktIsToken_iff s).2 (by rw [hpid]; exact hkind)
  have hdata : pktIsData s = false := by
    by_contra hne
    have hd := (pktIsData_iff s).1 (by simpa using hne)
    rw [hpid, hkind] at hd
    exact absurd hd (by decide)
  have hcrc : Crc.run crc5Poly 0b11111#5 ((unstuff 0 raw).drop 8) = Crc.residue crc5Poly := by
    rw [hdrop, hpayload, Crc.run_append, Crc.run_bitsMsb_not]
  have hlen : ((unstuff 0 raw).drop 8).length = 16 := by
    rw [hdrop, hpayload]
    simp
  have hvalid := (h.receiving.validToken_iff.2 ⟨hviol, ⟨p, hkind, by
    rw [hus]
    exact List.take_left' (length_pidBits p)⟩, by omega, by omega, hcrc⟩).1
  obtain ⟨r, hr, hgood, haddr, hendp, hframe⟩ := h.good hviol hus hvalid
    (fun _ => h.receiving.holds.crc5Valid_iff.2 hcrc) fun hd => absurd hd (by simp [hdata])
  have hreg := h.receiving.holds.tokenPayload
  rw [htoken, if_pos rfl, hdrop, hpayload, List.take_left' (length_bitsLsb f)] at hreg
  have hdone : tokenPayloadDone s = true := by
    rw [tokenPayloadDone, hreg, collect_full (by simp)]
    simp
  have hf : s.tokenPayload.extractLsb' 1 11 = f := by
    rw [hreg]
    exact bitsLsb_inj (bitsLsb_collect (by simp))
  obtain ⟨hfa, hfe, hff⟩ := h.fields hdone htoken
  refine ⟨r, hr, hgood, ?_, ?_, ?_, (h.delivers.other (.inl hdata)).2⟩
  · rw [haddr, hfa, ← hf]
    ext k hk
    simp
    omega
  · rw [hendp, hfe, ← hf]
    ext k hk
    simp
    grind
  · rw [hframe, hff, hf]

/-- A data packet. -/
theorem Decoded.data {data : List (BitVec 8)} (hkind : p.extractLsb' 0 2 = 0b11#2)
    (hpayload : payload = data.flatMap bitsLsb ++
      bitsMsb (~~~Crc.run crc16Poly 0xffff#16 (data.flatMap bitsLsb))) :
    ∃ r, report s last = some r ∧ r.Good p ∧
      got = data ++ crcBytes (~~~Crc.run crc16Poly 0xffff#16 (data.flatMap bitsLsb)) := by
  have hdrop := drop_pidBits hus
  obtain ⟨hpv, hpid⟩ := h.pid_eq hus
  have hdata : pktIsData s = true := (pktIsData_iff s).2 (by rw [hpid]; exact hkind)
  have htoken : pktIsToken s = false := by
    by_contra hne
    have ht := (pktIsToken_iff s).1 (by simpa using hne)
    rw [hpid, hkind] at ht
    exact absurd ht (by decide)
  have hcrc : crc16Valid s = true := by
    rw [h.receiving.holds.crc16Valid_iff, hdrop, hpayload, Crc.run_append, Crc.run_bitsMsb_not]
  have hlen : validDataLen s = true := by
    rw [h.receiving.holds.validDataLen_iff, hdrop, hpayload]
    simp [List.length_flatMap]
  have herr := h.receiving.bitstuffError
  rw [hviol] at herr
  have hvalid : validPacket s = true := by simp [validPacket, hpv, herr, hdata, hlen, hcrc]
  obtain ⟨r, hr, hgood, -⟩ := h.good hviol hus hvalid (fun ht => absurd ht (by simp [htoken]))
    fun _ => hcrc
  refine ⟨r, hr, hgood, ?_⟩
  rw [bitsMsb_crc, ← List.flatMap_append] at hpayload
  obtain ⟨rest, hps, hlt, -⟩ | ⟨x, -, hnot, -⟩ := h.delivers.data hdata
  · rw [hdrop, hpayload] at hps
    exact flatMap_bitsLsb_inj hlt hps.symm
  · exact absurd ((valid_of_packetEnd h.ends).symm.trans hnot) (by decide)

/-- A handshake packet. -/
theorem Decoded.handshake (hkind : p.extractLsb' 0 2 = 0b10#2) (hraw : raw = pidBits p) :
    ∃ r, report s last = some r ∧ r.Good p ∧ got = [] := by
  obtain ⟨hpv, hpid⟩ := h.pid_eq hus
  have htoken : pktIsToken s = false := by
    by_contra hne
    have ht := (pktIsToken_iff s).1 (by simpa using hne)
    rw [hpid, hkind] at ht
    exact absurd ht (by decide)
  have hdata : pktIsData s = false := by
    by_contra hne
    have hd := (pktIsData_iff s).1 (by simpa using hne)
    rw [hpid, hkind] at hd
    exact absurd hd (by decide)
  have hvalid := (h.receiving.validHandshake_iff.2 (.inl ⟨by rw [hpid]; exact hkind,
    by rw [hpid]; exact hraw⟩)).1
  obtain ⟨r, hr, hgood, -⟩ := h.good hviol hus hvalid (fun ht => absurd ht (by simp [htoken]))
    fun hd => absurd hd (by simp [hdata])
  exact ⟨r, hr, hgood, (h.delivers.other (.inl hdata)).2⟩

end kinds

/-! ### `drive_packet` -/

/-- The payload bytes and the CRC bytes of a data packet. -/
def deliveredBytes (req : UsbTransaction) : List (BitVec 8) :=
  if req.isData then req.data ++ crcBytes (calcCrc16 req.data) else []

theorem bodyBits_eq (req : UsbTransaction) :
    bodyBits req = pidBits req.pid.code ++ payloadBits req := rfl

theorem code_token (req : UsbTransaction) (h : (req.isToken || req.isSof) = true) :
    req.pid.code.extractLsb' 0 2 = 0b01#2 := by
  simp only [UsbTransaction.isToken, UsbTransaction.isSof, Bool.or_eq_true, beq_iff_eq] at h
  obtain ((h | h) | h) | h := h <;> rw [h] <;> decide

theorem code_data (req : UsbTransaction) (h : req.isData = true) :
    req.pid.code.extractLsb' 0 2 = 0b11#2 := by
  simp only [UsbTransaction.isData, Bool.or_eq_true, beq_iff_eq] at h
  obtain h | h := h <;> rw [h] <;> decide

theorem code_handshake (req : UsbTransaction) (hpre : req.pid ≠ .pre)
    (htoken : ¬ (req.isToken || req.isSof) = true) (hdata : ¬ req.isData = true) :
    req.pid.code.extractLsb' 0 2 = 0b10#2 := by
  simp only [UsbTransaction.isToken, UsbTransaction.isSof, UsbTransaction.isData] at htoken hdata
  cases hpid : req.pid <;> simp_all <;> decide

theorem code_ne_pre {pid : UsbPid} (h : pid ≠ .pre) : pid.code ≠ usbPidPre := by
  cases pid with
  | pre => exact absurd rfl h
  | _ => decide

theorem isSof_of_isToken {req : UsbTransaction} (h : req.isToken = true) : req.isSof = false := by
  simp only [UsbTransaction.isToken, Bool.or_eq_true, beq_iff_eq] at h
  obtain (h | h) | h := h <;> rw [UsbTransaction.isSof, h] <;> rfl

/-- Each packet of the driver is reported exactly once, as valid, without an error, with its
identifier and fields; a data packet delivers its payload and the two bytes of the CRC, any
other packet no byte. -/
theorem drivePacket_received {flip : Bool} {is : List Input} {ls : List Line} (d : Driver)
    (req : UsbTransaction) (hpre : req.pid ≠ .pre) (hidle : Idle s)
    (hsent : (d.drivePacket req).sent = d.sent ++ ls) (hw : Waveform flip ls is) :
    (∃ r, log step report s is = [r] ∧ r.valid = true ∧ r.pid = req.pid.code ∧
        (req.isToken = true → r.addr = req.addr ∧ r.endp = req.endp) ∧
        (req.isSof = true → r.frameNum = req.frameNum)) ∧
      (∀ e ∈ outs step errorOut s is, e = false) ∧
      log step (fun s _ => putByte s) s is = deliveredBytes req := by
  rw [drivePacket_sent, List.append_cancel_left_eq, packetLines_sync, bodyBits_eq, stuff_packet]
    at hsent
  have hus := unstuff_stuff (show 0 < 6 by omega) (pidBits req.pid.code ++ payloadBits req)
  have hviol := violates_stuff (show 0 < 6 by omega) (pidBits req.pid.code ++ payloadBits req)
  have hne : stuff 0 (pidBits req.pid.code ++ payloadBits req) ≠ [] := by
    intro hnil
    have hlen := congrArg List.length (stuff_eq_nil.1 hnil)
    simp at hlen
  obtain ⟨e, last, hlog, hdec⟩ := receive hidle hne (hsent ▸ hw) hviol (by
    rw [hus, List.take_left' (length_pidBits _)]
    exact fun heq => code_ne_pre hpre (pidBits_inj heq))
  obtain ⟨r, hr, hgood, hfields, hgot⟩ : ∃ r, report e last = some r ∧ r.Good req.pid.code ∧
      ((req.isToken = true → r.addr = req.addr ∧ r.endp = req.endp) ∧
        (req.isSof = true → r.frameNum = req.frameNum)) ∧
      log step (fun s _ => putByte s) s is = deliveredBytes req := by
    by_cases htoken : (req.isToken || req.isSof) = true
    · obtain ⟨r, hr, hgood, haddr, hendp, hframe, hgot⟩ := hdec.token hviol hus
        (code_token req htoken) (f := fields req) (by
          rw [payloadBits, if_pos htoken, calcCrc5_eq]
          rfl)
      have hdata : req.isData = false := by
        by_contra hne
        have hkind := (code_token req htoken).symm.trans (code_data req (by simpa using hne))
        exact absurd hkind (by decide)
      rw [hgot, deliveredBytes, hdata, if_neg (by decide)]
      refine ⟨r, hr, hgood, ⟨fun ht => ?_, fun hsof => ?_⟩, rfl⟩
      · rw [haddr, hendp, fields, isSof_of_isToken ht, if_neg (by decide)]
        exact ⟨BitVec.extractLsb'_append_eq_right, BitVec.extractLsb'_append_eq_left⟩
      · rw [hframe, fields, hsof, if_pos rfl]
    · by_cases hdata : req.isData = true
      · have hbits : payloadBits req = req.data.flatMap bitsLsb ++
            bitsMsb (~~~Crc.run crc16Poly 0xffff#16 (req.data.flatMap bitsLsb)) := by
          rw [payloadBits, if_neg htoken, if_pos hdata, calcCrc16_eq]
          rfl
        obtain ⟨r, hr, hgood, hgot⟩ := hdec.data hviol hus (code_data req hdata) hbits
        rw [hgot, deliveredBytes, if_pos hdata, calcCrc16_eq]
        simp only [Bool.or_eq_true, not_or] at htoken
        exact ⟨r, hr, hgood, ⟨fun ht => absurd ht htoken.1, fun hsof => absurd hsof htoken.2⟩, rfl⟩
      · have hnone : payloadBits req = [] := by rw [payloadBits, if_neg htoken, if_neg hdata]
        obtain ⟨r, hr, hgood, hgot⟩ := hdec.handshake hviol hus
          (code_handshake req hpre htoken hdata) (by
            rw [hnone, List.append_nil]
            exact stuff_pidBits_eq _)
        rw [hgot, deliveredBytes, if_neg hdata]
        simp only [Bool.or_eq_true, not_or] at htoken
        exact ⟨r, hr, hgood, ⟨fun ht => absurd ht htoken.1, fun hsof => absurd hsof htoken.2⟩, rfl⟩
  have hone : log step report s is = [r] := by rw [hlog, hr]; rfl
  refine ⟨⟨r, hone, hgood.valid, hgood.pid, hfields.1, hfields.2⟩, ?_, hgot⟩
  exact errorOut_of_report fun r' hr' => by
    rw [hone, List.mem_singleton] at hr'
    rw [hr']
    exact hgood.noError

/-- A DATA0 packet of two bytes, after two bit times of J out of reset. -/
theorem drivePacket_received_data0 :
    (∃ r, log step report (run step State.reset (lineCycles [.j, .j]))
          (lineCycles (Driver.drivePacket ⟨.j, 0, []⟩ ⟨.data0, 0, 0, [0x23#8, 0xff#8], 0⟩).sent) =
            [r] ∧
        r.valid = true ∧ r.pid = 0b0011#4) ∧
      log step (fun s _ => putByte s) (run step State.reset (lineCycles [.j, .j]))
          (lineCycles (Driver.drivePacket ⟨.j, 0, []⟩ ⟨.data0, 0, 0, [0x23#8, 0xff#8], 0⟩).sent) =
        [0x23#8, 0xff#8] ++ crcBytes (calcCrc16 [0x23#8, 0xff#8]) := by
  obtain ⟨⟨r, hlog, hvalid, hpid, -⟩, -, hbytes⟩ :=
    drivePacket_received ⟨.j, 0, []⟩ ⟨.data0, 0, 0, [0x23#8, 0xff#8], 0⟩ (by decide)
      idle_lineCycles (List.nil_append _).symm (waveform_lineCycles _)
  exact ⟨⟨r, hlog, hvalid, hpid⟩, hbytes⟩

end UsbDev.FsRx
