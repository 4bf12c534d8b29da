import UsbDev.FsTx
import UsbDev.RxDetect

/-!
# Which packets the receiver reports as valid

Soundness of `valid_packet_o` and of the error outputs at the end of a packet,
over bit sequences of any length. Every check of the receiver is first expressed
with the unstuffed bits; the theorems then say exactly for which packets the
report is right.
-/
namespace UsbDev.FsRx

open LineCode Clocked Deserializer

variable {s : State} {us raw : List Bool}

/-! ### The identifier -/

/-- The identifier and its complement. -/
def pidBits (p : BitVec 4) : List Bool := bitsLsb p ++ bitsLsb (~~~p)

@[simp] theorem length_pidBits (p : BitVec 4) : (pidBits p).length = 8 := by simp [pidBits]

/-- The complement check is passed exactly by identifiers with their complement. -/
theorem Holds.pidValid_iff (h : Holds s us) (hlen : 8 ≤ us.length) (p : BitVec 4) :
    pidValid s = true ∧ pid s = p ↔ us.take 8 = pidBits p := by
  have htake : (us.take 8).length = 8 := by
    rw [List.length_take]
    omega
  have hbits := bitsLsb_collect htake
  rw [← h.fullPid] at hbits
  have hsplit : s.fullPid.extractLsb' 1 8 =
      s.fullPid.extractLsb' 5 4 ++ s.fullPid.extractLsb' 1 4 :=
    (BitVec.extractLsb'_append_extractLsb'_eq_extractLsb' (show 5 = 1 + 4 from rfl)).symm
  rw [← hbits, hsplit, pidBits, ← bitsLsb_append, pidValid, pid, beq_iff_eq]
  constructor
  · rintro ⟨hcomplement, rfl⟩
    rw [hcomplement, BitVec.not_not]
  · intro heq
    have hcat := bitsLsb_inj heq
    have hlow : s.fullPid.extractLsb' 1 4 = p := by
      have hcut := congrArg (fun x : BitVec (4 + 4) => x.extractLsb' 0 4) hcat
      simpa only [BitVec.extractLsb'_append_eq_right] using hcut
    have hhigh : s.fullPid.extractLsb' 5 4 = ~~~p := by
      have hcut := congrArg (fun x : BitVec (4 + 4) => x.extractLsb' 4 4) hcat
      simpa only [BitVec.extractLsb'_append_eq_left] using hcut
    rw [hlow, hhigh, BitVec.not_not]
    exact ⟨rfl, rfl⟩

theorem pidBits_inj {p q : BitVec 4} (h : pidBits p = pidBits q) : p = q :=
  bitsLsb_inj (List.append_inj_left h (by simp))

theorem pid_type (s : State) : (pid s).extractLsb' 0 2 = s.fullPid.extractLsb' 1 2 := by
  ext k hk
  simp only [pid, BitVec.getElem_extractLsb', BitVec.getLsbD_extractLsb']
  simp
  omega

theorem pktIsToken_iff (s : State) : pktIsToken s = true ↔ (pid s).extractLsb' 0 2 = 0b01#2 := by
  rw [pid_type, pktIsToken, beq_iff_eq]

theorem pktIsHandshake_iff (s : State) :
    pktIsHandshake s = true ↔ (pid s).extractLsb' 0 2 = 0b10#2 := by
  rw [pid_type, pktIsHandshake, beq_iff_eq]

theorem pktIsData_iff (s : State) : pktIsData s = true ↔ (pid s).extractLsb' 0 2 = 0b11#2 := by
  rw [pid_type, pktIsData, beq_iff_eq]

/-! ### The length and the CRC -/

theorem Holds.rxDataLen_eq_zero (h : Holds s us) :
    s.rxDataLen = 0 ↔ (us.drop 8).length % 16 = 0 := by
  rw [← h.rxDataLen, ← BitVec.toNat_inj]
  rfl

theorem Holds.validTokenLen_iff (h : Holds s us) :
    validTokenLen s = true ↔ 16 ≤ (us.drop 8).length ∧ (us.drop 8).length % 16 = 0 := by
  rw [validTokenLen, Bool.and_eq_true, beq_iff_eq, h.rxDataLen_eq_zero, h.rxDataLen16,
    decide_eq_true_eq]

theorem Holds.validDataLen_iff (h : Holds s us) :
    validDataLen s = true ↔ 16 ≤ (us.drop 8).length ∧ (us.drop 8).length % 8 = 0 := by
  have hlow : s.rxDataLen.extractLsb' 0 3 = 0 ↔ (us.drop 8).length % 8 = 0 := by
    rw [← BitVec.toNat_inj, BitVec.extractLsb'_toNat, h.rxDataLen]
    simp
  rw [validDataLen, Bool.and_eq_true, beq_iff_eq, hlow, h.rxDataLen16, decide_eq_true_eq]

theorem Holds.validHandshakeLen_iff (h : Holds s us) :
    validHandshakeLen s = true ↔ us.length ≤ 8 := by
  rw [validHandshakeLen, Bool.and_eq_true, beq_iff_eq, h.rxDataLen_eq_zero, h.rxDataLen16,
    Bool.not_eq_true', decide_eq_false_iff_not, List.length_drop]
  omega

theorem residue_crc5Poly : Crc.residue crc5Poly = 0b01100#5 := by decide

theorem residue_crc16Poly : Crc.residue crc16Poly = 0b1000000000001101#16 := by decide

theorem Holds.crc5Valid_iff (h : Holds s us) :
    crc5Valid s = true ↔ Crc.run crc5Poly 0b11111#5 (us.drop 8) = Crc.residue crc5Poly := by
  rw [crc5Valid, beq_iff_eq, h.crc5, residue_crc5Poly]

theorem Holds.crc16Valid_iff (h : Holds s us) :
    crc16Valid s = true ↔ Crc.run crc16Poly 0xffff#16 (us.drop 8) = Crc.residue crc16Poly := by
  rw [crc16Valid, beq_iff_eq, h.crc16, residue_crc16Poly]

/-- The two CRC bytes that the transmitter appends to a message. -/
def sentCrc16 (m : List Bool) : List Bool :=
  bitsLsb (FsTx.crcByte ((Crc.run FsTx.crc16Poly 0xffff#16 m).extractLsb' 8 8)) ++
    bitsLsb (FsTx.crcByte ((Crc.run FsTx.crc16Poly 0xffff#16 m).extractLsb' 0 8))

/-- The checks are exact: after any message the last sixteen bits leave the residue of the CRC16
check only if they are the two bytes that the transmitter appends, which are the complement of its
register from the top bit on, and the last five bits leave the residue of the CRC5 check only if
they are the complement of the register from the top bit on. -/
theorem crcResidue_iff (m c d : List Bool) (hc : c.length = 16) (hd : d.length = 5) :
    (Crc.run crc16Poly 0xffff#16 (m ++ c) = 0b1000000000001101#16 ↔ c = sentCrc16 m) ∧
      sentCrc16 m = bitsMsb (~~~Crc.run FsTx.crc16Poly 0xffff#16 m) ∧
      (Crc.run crc5Poly 0b11111#5 (m ++ d) = 0b01100#5 ↔
        d = bitsMsb (~~~Crc.run crc5Poly 0b11111#5 m)) := by
  have hsent : sentCrc16 m = bitsMsb (~~~Crc.run FsTx.crc16Poly 0xffff#16 m) :=
    FsTx.bitsLsb_crcByte _
  refine ⟨?_, hsent, ?_⟩
  · rw [Crc.run_append, ← residue_crc16Poly, hsent]
    exact Crc.run_eq_residue_iff (by decide) (Crc.run crc16Poly 0xffff#16 m) hc
  · rw [Crc.run_append, ← residue_crc5Poly]
    exact Crc.run_eq_residue_iff (by decide) _ hd

theorem crcResidue_iff_oneByte :
    Crc.run crc16Poly 0xffff#16 (bitsLsb 0xa5#8 ++ (bitsLsb 0x80#8 ++ bitsLsb 0xc4#8)) =
        0b1000000000001101#16 ∧
      Crc.run crc5Poly 0b11111#5 (bitsLsb 0xa5#8 ++ [true, false, true, false, true]) ≠
        0b01100#5 := by
  obtain ⟨h16, -, h5⟩ := crcResidue_iff (bitsLsb 0xa5#8) (bitsLsb 0x80#8 ++ bitsLsb 0xc4#8)
    [true, false, true, false, true] rfl rfl
  exact ⟨h16.2 (by decide), mt h5.1 (by decide)⟩

/-! ### Tokens -/

/-- The CRC5 of some bits, as it is sent. -/
def crc5Bits (bs : List Bool) : List Bool := bitsMsb (~~~Crc.run crc5Poly 0b11111#5 bs)

/-- After the identifier come eleven bits and their CRC5. -/
def TokenBits (us : List Bool) : Prop :=
  (us.drop 8).length = 16 ∧ us.drop 19 = crc5Bits ((us.drop 8).take 11)

/-- A packet that is too long for a token and yet passes every check: sixteen more bits, or any
multiple of sixteen, leave the length counter and the sticky bit as a token does. -/
structure LongToken (raw : List Bool) : Prop where
  noViolation : violates 0 raw = false
  pid : ∃ p : BitVec 4, p.extractLsb' 0 2 = 0b01#2 ∧ (unstuff 0 raw).take 8 = pidBits p
  length : 32 ≤ ((unstuff 0 raw).drop 8).length
  aligned : ((unstuff 0 raw).drop 8).length % 16 = 0
  crc : Crc.run crc5Poly 0b11111#5 ((unstuff 0 raw).drop 8) = Crc.residue crc5Poly

/-- What is reported as a valid token. -/
theorem Receiving.validToken_iff (h : Receiving s raw) :
    validPacket s = true ∧ pktIsToken s = true ↔
      violates 0 raw = false ∧
        (∃ p : BitVec 4, p.extractLsb' 0 2 = 0b01#2 ∧ (unstuff 0 raw).take 8 = pidBits p) ∧
        16 ≤ ((unstuff 0 raw).drop 8).length ∧ ((unstuff 0 raw).drop 8).length % 16 = 0 ∧
        Crc.run crc5Poly 0b11111#5 ((unstuff 0 raw).drop 8) = Crc.residue crc5Poly := by
  have hlen := h.holds.validTokenLen_iff
  have hcrc := h.holds.crc5Valid_iff
  have hpid : 8 ≤ (unstuff 0 raw).length →
      (pidValid s = true ∧ pktIsToken s = true ↔
        ∃ p : BitVec 4, p.extractLsb' 0 2 = 0b01#2 ∧ (unstuff 0 raw).take 8 = pidBits p) := by
    intro h8
    constructor
    · rintro ⟨hvalid, htoken⟩
      exact ⟨pid s, (pktIsToken_iff s).1 htoken, (h.holds.pidValid_iff h8 _).1 ⟨hvalid, rfl⟩⟩
    · rintro ⟨p, htype, hbits⟩
      obtain ⟨hvalid, rfl⟩ := (h.holds.pidValid_iff h8 p).2 hbits
      exact ⟨hvalid, (pktIsToken_iff s).2 htype⟩
  have hsplit : validPacket s = true ∧ pktIsToken s = true ↔
      pidValid s = true ∧ pktIsToken s = true ∧ s.bitstuffError = false ∧
        validTokenLen s = true ∧ crc5Valid s = true := by
    simp only [validPacket, Bool.and_eq_true, Bool.not_eq_true', Bool.or_eq_true]
    constructor
    · rintro ⟨⟨⟨hvalid, herr⟩, (⟨hkind, _⟩ | ⟨⟨hkind, _⟩, _⟩) | ⟨⟨_, hl⟩, hc⟩⟩, htoken⟩
      · rw [pktIsHandshake_iff, (pktIsToken_iff s).1 htoken] at hkind
        exact absurd hkind (by decide)
      · rw [pktIsData_iff, (pktIsToken_iff s).1 htoken] at hkind
        exact absurd hkind (by decide)
      · exact ⟨hvalid, htoken, herr, hl, hc⟩
    · rintro ⟨hvalid, htoken, herr, hl, hc⟩
      exact ⟨⟨⟨hvalid, herr⟩, .inr ⟨⟨htoken, hl⟩, hc⟩⟩, htoken⟩
  rw [hsplit, h.bitstuffError, hlen, hcrc]
  constructor
  · rintro ⟨hvalid, htoken, herr, ⟨h16, hmod⟩, hc⟩
    rw [List.length_drop] at h16
    exact ⟨herr, (hpid (by omega)).1 ⟨hvalid, htoken⟩, by rw [List.length_drop]; exact h16, hmod, hc⟩
  · rintro ⟨herr, hp, h16, hmod, hc⟩
    have h8 : 8 ≤ (unstuff 0 raw).length := by
      rw [List.length_drop] at h16
      omega
    obtain ⟨hvalid, htoken⟩ := (hpid h8).2 hp
    exact ⟨hvalid, htoken, herr, ⟨h16, hmod⟩, hc⟩

variable {first last : Input} {mid : List Input} {ls : List Bool}

/-- A packet that ends early is not valid. -/
theorem not_validPacket_of_early (h : s.bitstuffError = true ∨ seePreamble s = true) :
    validPacket s = false := by
  obtain herr | hpre := h
  · rw [validPacket, herr]
    simp
  · have hpid : pid s = usbPidPre := by
      simp only [seePreamble, Bool.and_eq_true, beq_iff_eq] at hpre
      exact hpre.2
    have htype : s.fullPid.extractLsb' 1 2 = 0b00#2 := by
      rw [← pid_type, hpid]
      decide
    simp [validPacket, pktIsHandshake, pktIsData, pktIsToken, htype]

/-- Without a bit after seven ones and without a PRE identifier no part of a packet ends it
early. -/
theorem Receiving.not_early {bits : List Bool} (h : Receiving s bits) (hsub : bits <+: raw)
    (hviol : violates 0 raw = false) (hpre : (unstuff 0 raw).take 8 ≠ pidBits usbPidPre) :
    ¬ (s.bitstuffError = true ∨ seePreamble s = true) := by
  obtain ⟨rest, rfl⟩ := hsub
  rintro (herr | hsee)
  · rw [violates_append, ← h.bitstuffError, herr] at hviol
    exact absurd hviol (by simp)
  · simp only [seePreamble, Bool.and_eq_true, beq_iff_eq] at hsee
    obtain ⟨⟨⟨_, hvalid⟩, hcomplete⟩, hpid⟩ := hsee
    rw [h.holds.pidComplete_eq, decide_eq_true_eq] at hcomplete
    have hbits := (h.holds.pidValid_iff hcomplete usbPidPre).1 ⟨hvalid, hpid⟩
    rw [unstuff_append, List.take_append_of_le_length hcomplete] at hpre
    exact hpre hbits

/-- All bits of such a packet are received. -/
theorem SymbolPacket.packetBits_all (h : SymbolPacket s first mid last (nrzi false raw))
    (hviol : violates 0 raw = false) (hpre : (unstuff 0 raw).take 8 ≠ pidBits usbPidPre) :
    packetBits s (first :: mid) = raw := by
  obtain ⟨n, hall⟩ | ⟨hearly, hsub⟩ := h.samples_cases
  · rw [packetBits_of_complete hall, nrziDecode_nrzi]
  · rw [nrziDecode_nrzi] at hsub
    exact absurd hearly (h.receiving.not_early hsub hviol hpre)

theorem SymbolPacket.receiving_all (h : SymbolPacket s first mid last (nrzi false raw))
    (hviol : violates 0 raw = false) (hpre : (unstuff 0 raw).take 8 ≠ pidBits usbPidPre) :
    Receiving (run step s (first :: mid)) raw := by
  have hrec := h.receiving
  rw [h.packetBits_all hviol hpre] at hrec
  exact hrec

/-- A long token does not end early. -/
theorem LongToken.not_early (hlong : LongToken raw) {bits : List Bool} (h : Receiving s bits)
    (hsub : bits <+: raw) : ¬ (s.bitstuffError = true ∨ seePreamble s = true) := by
  refine h.not_early hsub hlong.noViolation fun hpre => ?_
  obtain ⟨p, htype, hp⟩ := hlong.pid
  rw [← pidBits_inj (hpre.symm.trans hp)] at htype
  exact absurd htype (by decide)

/-- A packet reported as a valid token has exactly eleven bits and their CRC5 after the
identifier, unless it is a long one. -/
theorem token_sound_iff (h : SymbolPacket s first mid last ls) :
    (validPacket (run step s (first :: mid)) = true →
        pktIsToken (run step s (first :: mid)) = true →
        TokenBits (unstuff 0 (nrziDecode false ls))) ↔
      ¬ LongToken (nrziDecode false ls) := by
  have hrec := h.receiving
  obtain ⟨n, hall⟩ | ⟨hearly, hsub⟩ := h.samples_cases
  · rw [packetBits_of_complete hall] at hrec
    have hvalid := hrec.validToken_iff
    constructor
    · intro hsound hlong
      have hlen := hlong.length
      obtain ⟨hv, ht⟩ := hvalid.2
        ⟨hlong.noViolation, hlong.pid, by omega, hlong.aligned, hlong.crc⟩
      have hexact := (hsound hv ht).1
      omega
    · intro hlong hv ht
      obtain ⟨herr, hp, h16, hmod, hcrc⟩ := hvalid.1 ⟨hv, ht⟩
      have hlen : ((unstuff 0 (nrziDecode false ls)).drop 8).length = 16 := by
        by_contra hne
        exact hlong ⟨herr, hp, by omega, hmod, hcrc⟩
      refine ⟨hlen, ?_⟩
      rw [← List.take_append_drop 11 ((unstuff 0 (nrziDecode false ls)).drop 8),
        Crc.run_append, List.drop_drop] at hcrc
      rw [List.length_drop] at hlen
      exact (Crc.run_eq_residue_iff (by decide) _ (by rw [List.length_drop]; omega)).1 hcrc
  · refine iff_of_true (fun hv => ?_) fun hlong => hlong.not_early hrec hsub hearly
    rw [not_validPacket_of_early hearly] at hv
    exact absurd hv (by decide)

/-- An OUT token to endpoint 14 of address 21. -/
def outToken : List Bool :=
  pidBits 0b0001#4 ++ bitsLsb (0xe#4 ++ 0x15#7) ++ crc5Bits (bitsLsb (0xe#4 ++ 0x15#7))

/-- An OUT token with 27 zeros in place of address and endpoint. -/
def longOutToken : List Bool :=
  pidBits 0b0001#4 ++ List.replicate 27 false ++ crc5Bits (List.replicate 27 false)

theorem token_sound_iff_outToken :
    ∃ s first mid last, SymbolPacket s first mid last (nrzi false outToken) ∧
      validPacket (run step s (first :: mid)) = true ∧
      TokenBits (unstuff 0 (nrziDecode false (nrzi false outToken))) := by
  obtain ⟨s, first, mid, last, -, h⟩ := exists_symbolPacket (show outToken ≠ [] by decide)
  have hrec := h.receiving_all (by decide +kernel) (by decide +kernel)
  obtain ⟨hvalid, htoken⟩ := hrec.validToken_iff.2
    ⟨by decide +kernel, ⟨0b0001#4, by decide, by decide +kernel⟩, by decide +kernel,
      by decide +kernel, by decide +kernel⟩
  refine ⟨s, first, mid, last, h, hvalid, (token_sound_iff h).2 (fun hlong => ?_) hvalid htoken⟩
  rw [nrziDecode_nrzi] at hlong
  exact absurd hlong.length (by decide +kernel)

/-- Thirty-two bits after the identifier are accepted as a token. -/
theorem not_forall_token_sound :
    ¬ ∀ s first mid last ls, Reachable step (fun _ _ => True) State.reset s →
      SymbolPacket s first mid last ls →
      validPacket (run step s (first :: mid)) = true →
      pktIsToken (run step s (first :: mid)) = true →
      TokenBits (unstuff 0 (nrziDecode false ls)) := by
  intro hsound
  obtain ⟨s, first, mid, last, hreach, h⟩ := exists_symbolPacket (show longOutToken ≠ [] by decide)
  have hrec := h.receiving_all (by decide +kernel) (by decide +kernel)
  obtain ⟨hvalid, htoken⟩ := hrec.validToken_iff.2
    ⟨by decide +kernel, ⟨0b0001#4, by decide, by decide +kernel⟩, by decide +kernel,
      by decide +kernel, by decide +kernel⟩
  have hlen := (hsound s first mid last _ hreach h hvalid htoken).1
  rw [nrziDecode_nrzi] at hlen
  exact absurd hlen (by decide +kernel)

/-! ### Handshakes -/

/-- Six bits that leave the sentinel where it makes the identifier register look complete and
consistent: two bits, a one, a zero, and the complement of the first two. -/
def TruncatedHandshake (raw : List Bool) : Prop := ∃ a b, raw = [a, b, true, false, !a, !b]

/-- The handshake type needs a zero and a one above it where the sentinel may still be. -/
theorem length_of_handshake {us : List Bool} (hlen : us.length ≤ 8)
    (hkind : (collect 8 us).extractLsb' 1 2 = 0b10#2) : us.length = 6 ∨ us.length = 8 := by
  have hone : (collect 8 us).getLsbD 1 = false := by
    have hget := congrArg (fun x : BitVec 2 => x.getLsbD 0) hkind
    simpa using hget
  have htwo : (collect 8 us).getLsbD 2 = true := by
    have hget := congrArg (fun x : BitVec 2 => x.getLsbD 1) hkind
    simpa using hget
  rw [getLsbD_collect hlen (by decide)] at hone htwo
  by_contra hne
  by_cases h7 : us.length = 7
  · rw [if_neg (by omega), if_pos (by omega)] at hone
    exact absurd hone (by decide)
  · rw [if_pos (by omega)] at htwo
    exact absurd htwo (by decide)

theorem six_bit_handshake : ∀ a b c d e f : Bool,
    (collect 8 [a, b, c, d, e, f]).extractLsb' 1 4 =
        ~~~(collect 8 [a, b, c, d, e, f]).extractLsb' 5 4 →
      [a, b, c, d, e, f] = [a, b, true, false, !a, !b] := by decide +kernel

theorem six_bit_checks : ∀ a b : Bool,
    (collect 8 [a, b, true, false, !a, !b]).extractLsb' 1 4 =
        ~~~(collect 8 [a, b, true, false, !a, !b]).extractLsb' 5 4 ∧
      (collect 8 [a, b, true, false, !a, !b]).extractLsb' 1 2 = 0b10#2 ∧
      FewOnes 0 [a, b, true, false, !a, !b] := by decide

theorem fewOnes_pidBits : ∀ p : BitVec 4, FewOnes 0 (pidBits p) := by decide

/-- The checks that a valid handshake passes. -/
theorem Receiving.validHandshake_checks (h : Receiving s raw) :
    validPacket s = true ∧ pktIsHandshake s = true ↔
      violates 0 raw = false ∧ (unstuff 0 raw).length ≤ 8 ∧
        pidValid s = true ∧ pktIsHandshake s = true := by
  simp only [validPacket, Bool.and_eq_true, Bool.not_eq_true', Bool.or_eq_true, h.bitstuffError,
    ← h.holds.validHandshakeLen_iff]
  constructor
  · rintro ⟨⟨⟨hvalid, herr⟩, (⟨_, hl⟩ | ⟨⟨hkind, _⟩, _⟩) | ⟨⟨hkind, _⟩, _⟩⟩, hshake⟩
    · exact ⟨herr, hl, hvalid, hshake⟩
    · rw [pktIsData_iff, (pktIsHandshake_iff s).1 hshake] at hkind
      exact absurd hkind (by decide)
    · rw [pktIsToken_iff, (pktIsHandshake_iff s).1 hshake] at hkind
      exact absurd hkind (by decide)
  · rintro ⟨herr, hl, hvalid, hshake⟩
    exact ⟨⟨⟨hvalid, herr⟩, .inl (.inl ⟨hshake, hl⟩)⟩, hshake⟩

/-- What is reported as a valid handshake: a whole identifier, or six bits of one. -/
theorem Receiving.validHandshake_iff (h : Receiving s raw) :
    validPacket s = true ∧ pktIsHandshake s = true ↔
      (pid s).extractLsb' 0 2 = 0b10#2 ∧ raw = pidBits (pid s) ∨ TruncatedHandshake raw := by
  rw [h.validHandshake_checks]
  constructor
  · rintro ⟨_, hlen, hvalid, hshake⟩
    have hpid := h.holds.fullPid
    rw [List.take_of_length_le hlen] at hpid
    have hkind : (collect 8 (unstuff 0 raw)).extractLsb' 1 2 = 0b10#2 := by
      rw [← hpid]
      simpa [pktIsHandshake] using hshake
    obtain h6 | h8 := length_of_handshake hlen hkind
    · refine .inr ?_
      match hus : unstuff 0 raw, h6 with
      | [a, b, c, d, e, f], _ =>
          rw [pidValid, hpid, hus, beq_iff_eq] at hvalid
          have hbits := six_bit_handshake a b c d e f hvalid
          rw [hbits] at hus
          have hraw := unstuff_eq_self (hus ▸ (six_bit_checks a b).2.2)
          exact ⟨a, b, by rw [← hraw, hus]⟩
    · refine .inl ⟨(pktIsHandshake_iff s).1 hshake, ?_⟩
      have hbits := (h.holds.pidValid_iff (by omega) _).1 ⟨hvalid, rfl⟩
      rw [List.take_of_length_le hlen] at hbits
      have hraw := unstuff_eq_self (hbits ▸ fewOnes_pidBits (pid s))
      rw [← hraw, hbits]
  · rintro (⟨hkind, hraw⟩ | ⟨a, b, hraw⟩)
    · have hfew : FewOnes 0 raw := hraw ▸ fewOnes_pidBits (pid s)
      have hlen : raw.length = 8 := by rw [hraw, length_pidBits]
      have hus := unstuff_of_fewOnes hfew
      have hbits : (unstuff 0 raw).take 8 = pidBits (pid s) := by
        rw [hus, List.take_of_length_le (by omega)]
        exact hraw
      have hvalid := (h.holds.pidValid_iff (by rw [hus]; omega) _).2 hbits
      exact ⟨violates_of_fewOnes hfew, by rw [hus]; omega, hvalid.1, (pktIsHandshake_iff s).2 hkind⟩
    · obtain ⟨hcomplement, hkind, hfew⟩ := six_bit_checks a b
      rw [← hraw] at hcomplement hkind hfew
      have hlen : raw.length = 6 := by
        rw [hraw]
        rfl
      have hus := unstuff_of_fewOnes hfew
      have hpid := h.holds.fullPid
      rw [hus, List.take_of_length_le (by omega)] at hpid
      refine ⟨violates_of_fewOnes hfew, by rw [hus]; omega, ?_, ?_⟩
      · rw [pidValid, hpid, beq_iff_eq]
        exact hcomplement
      · rw [pktIsHandshake, hpid, beq_iff_eq]
        exact hkind

/-- Six such bits do not end a packet early. -/
theorem TruncatedHandshake.not_early (hshort : TruncatedHandshake raw) {bits : List Bool}
    (h : Receiving s bits) (hsub : bits <+: raw) :
    ¬ (s.bitstuffError = true ∨ seePreamble s = true) := by
  obtain ⟨a, b, hraw⟩ := hshort
  have hfew : FewOnes 0 raw := hraw ▸ (six_bit_checks a b).2.2
  refine h.not_early hsub (violates_of_fewOnes hfew) fun hpre => ?_
  have hlen := congrArg List.length hpre
  rw [unstuff_of_fewOnes hfew, hraw] at hlen
  simp at hlen

/-- A packet reported as a valid handshake has exactly the eight bits of its identifier, unless
it is a truncated one. -/
theorem handshake_sound_iff (h : SymbolPacket s first mid last ls) :
    (validPacket (run step s (first :: mid)) = true →
        pktIsHandshake (run step s (first :: mid)) = true →
        nrziDecode false ls = pidBits (pid (run step s (first :: mid)))) ↔
      ¬ TruncatedHandshake (nrziDecode false ls) := by
  have hrec := h.receiving
  obtain ⟨n, hall⟩ | ⟨hearly, hsub⟩ := h.samples_cases
  · rw [packetBits_of_complete hall] at hrec
    have hvalid := hrec.validHandshake_iff
    constructor
    · rintro hsound ⟨a, b, hshort⟩
      obtain ⟨hv, hk⟩ := hvalid.2 (.inr ⟨a, b, hshort⟩)
      have hlen := congrArg List.length (hsound hv hk)
      simp [hshort] at hlen
    · intro hshort hv hk
      obtain ⟨_, hbits⟩ | htrunc := hvalid.1 ⟨hv, hk⟩
      · exact hbits
      · exact absurd htrunc hshort
  · refine iff_of_true (fun hv => ?_) fun hshort => hshort.not_early hrec hsub hearly
    rw [not_validPacket_of_early hearly] at hv
    exact absurd hv (by decide)

/-- The first six bits of an ACK identifier whose next bits would be one and zero. -/
def shortAck : List Bool := [false, false, true, false, true, true]

theorem handshake_sound_iff_ack :
    ∃ s first mid last, SymbolPacket s first mid last (nrzi false (pidBits 0b0010#4)) ∧
      nrziDecode false (nrzi false (pidBits 0b0010#4)) =
        pidBits (pid (run step s (first :: mid))) := by
  obtain ⟨s, first, mid, last, -, h⟩ := exists_symbolPacket (show pidBits 0b0010#4 ≠ [] by decide)
  have hrec := h.receiving_all (by decide) (by decide)
  have hpid := (hrec.holds.pidValid_iff (by decide) 0b0010#4).2 (by decide)
  obtain ⟨hvalid, hshake⟩ := hrec.validHandshake_iff.2
    (.inl ⟨by rw [hpid.2]; decide, by rw [hpid.2]⟩)
  refine ⟨s, first, mid, last, h, (handshake_sound_iff h).2 ?_ hvalid hshake⟩
  rintro ⟨a, b, hshort⟩
  have hlen := congrArg List.length hshort
  simp at hlen

/-- Six bits are reported as a valid ACK. -/
theorem not_forall_handshake_sound :
    ¬ ∀ s first mid last ls, Reachable step (fun _ _ => True) State.reset s →
      SymbolPacket s first mid last ls →
      validPacket (run step s (first :: mid)) = true →
      pktIsHandshake (run step s (first :: mid)) = true →
      nrziDecode false ls = pidBits (pid (run step s (first :: mid))) := by
  intro hsound
  obtain ⟨s, first, mid, last, hreach, h⟩ := exists_symbolPacket (show shortAck ≠ [] by decide)
  have hrec := h.receiving_all (by decide) (by decide)
  obtain ⟨hvalid, hshake⟩ := hrec.validHandshake_iff.2 (.inr ⟨false, false, rfl⟩)
  have hlen := congrArg List.length (hsound s first mid last _ hreach h hvalid hshake)
  simp [shortAck] at hlen

/-! ### Bit stuffing -/

/-- At the end of a packet the bit stuffing error is reported exactly for a bit after seven
ones. -/
theorem PacketRun.bitstuffErrorO_eq (h : PacketRun s first mid last) :
    bitstuffErrorO (run step s (first :: mid)) last = violates 0 (packetBits s (first :: mid)) := by
  rw [bitstuffErrorO, h.ends, Bool.and_true, h.receiving.bitstuffError]

/-- Seven ones in a row are reported, and make the packet invalid, unless they are the last
seven bits of the packet. -/
theorem bitstuff_sound_iff (h : PacketRun s first mid last) :
    ((SevenOnes (packetBits s (first :: mid)) →
          validPacket (run step s (first :: mid)) = false ∧
            bitstuffErrorO (run step s (first :: mid)) last = true) ∧
        (¬ SevenOnes (packetBits s (first :: mid)) →
          bitstuffErrorO (run step s (first :: mid)) last = false)) ↔
      ¬ (List.replicate 7 true <:+ packetBits s (first :: mid) ∧
        violates 0 (packetBits s (first :: mid)) = false) := by
  rw [h.bitstuffErrorO_eq, sevenOnes_iff]
  constructor
  · rintro ⟨hseven, -⟩ ⟨hsuffix, hnone⟩
    have hviol := (hseven (.inr hsuffix)).2
    rw [hnone] at hviol
    exact absurd hviol (by decide)
  · intro hlast
    refine ⟨fun hseven => ?_, fun hnone => ?_⟩
    · have hviol : violates 0 (packetBits s (first :: mid)) = true := by
        obtain hviol | hsuffix := hseven
        · exact hviol
        · by_contra hne
          exact hlast ⟨hsuffix, by simpa using hne⟩
      have herr := h.receiving.bitstuffError
      rw [hviol] at herr
      have hinvalid : validPacket (run step s (first :: mid)) = false := by
        rw [validPacket, herr]
        simp
      exact ⟨hinvalid, hviol⟩
    · by_contra hviol
      exact hnone (.inl (by simpa using hviol))

/-- An OUT token whose CRC5 ends in the sixth one in a row, with a one for the stuffed bit. -/
def sevenOnesToken : List Bool :=
  pidBits 0b0001#4 ++ bitsLsb 1036#11 ++ crc5Bits (bitsLsb 1036#11) ++ [true]

theorem bitstuff_sound_iff_outToken :
    ∃ s first mid last, PacketRun s first mid last ∧
      packetBits s (first :: mid) = outToken ∧
      bitstuffErrorO (run step s (first :: mid)) last = false := by
  obtain ⟨s, first, mid, last, -, h⟩ := exists_symbolPacket (show outToken ≠ [] by decide)
  have hbits := h.packetBits_all (by decide +kernel) (by decide +kernel)
  refine ⟨s, first, mid, last, h.toPacketRun, hbits,
    ((bitstuff_sound_iff h.toPacketRun).2 ?_).2 ?_⟩
  · rw [hbits]
    decide +kernel
  · rw [hbits, SevenOnes]
    decide +kernel

/-- Seven ones as the last bits of a packet are not noticed. -/
theorem not_forall_bitstuff_sound :
    ¬ ∀ s first mid last, Reachable step (fun _ _ => True) State.reset s →
      PacketRun s first mid last → SevenOnes (packetBits s (first :: mid)) →
      validPacket (run step s (first :: mid)) = false ∧
        bitstuffErrorO (run step s (first :: mid)) last = true := by
  intro hsound
  obtain ⟨s, first, mid, last, hreach, h⟩ :=
    exists_symbolPacket (show sevenOnesToken ≠ [] by decide)
  have hbits := h.packetBits_all (by decide +kernel) (by decide +kernel)
  have herr := (hsound s first mid last hreach h.toPacketRun (by
    rw [hbits, SevenOnes]
    decide +kernel)).2
  rw [h.bitstuffErrorO_eq, hbits] at herr
  exact absurd herr (by decide +kernel)

end UsbDev.FsRx
