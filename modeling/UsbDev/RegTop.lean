import Mathlib.Tactic.Ring
import UsbDev.Clocked
import UsbDev.TlulAdapters

/-!
# The bus side of the device

`usbdev_reg_top`: the check of every request, `tlul_socket_1n` that steers it to the
registers or to the packet buffer, and the decoding of the register address, together
with the memory behind the adapter. Every accepted request has exactly one response,
settled when it was accepted.
-/
namespace UsbDev.RegTop

open Tlul

/-! ### The check of the write enables -/

/-- `or_tree`, `and_tree` and `err_tree` of `prim_onehot_check` at the node `offset` that is `n`
levels above the leaves. -/
def orTree (oh : ℕ → Bool) : ℕ → ℕ → Bool
  | 0, offset => oh offset
  | n + 1, offset => orTree oh n (2 * offset) || orTree oh n (2 * offset + 1)

def andTree (oh : ℕ → Bool) (addr : ℕ → Bool) : ℕ → ℕ → Bool
  | 0, offset => oh offset
  | n + 1, offset =>
    !addr n && andTree oh addr n (2 * offset) || addr n && andTree oh addr n (2 * offset + 1)

def errTree (oh : ℕ → Bool) : ℕ → ℕ → Bool
  | 0, _ => false
  | n + 1, offset => orTree oh n (2 * offset) && orTree oh n (2 * offset + 1) ||
    errTree oh n (2 * offset) || errTree oh n (2 * offset + 1)

/-- `prim_onehot_check`: `err_o` for the parameters `AddrCheck`, `EnableCheck` and
`StrictCheck`. -/
def onehotErr (addrCheck enableCheck strictCheck : Bool) {w aw : ℕ} (oh : BitVec w)
    (addr : BitVec aw) (en : Bool) : Bool :=
  errTree oh.getLsbD aw 0 ||
    enableCheck && (if strictCheck then orTree oh.getLsbD aw 0 ^^ en
      else !en && orTree oh.getLsbD aw 0) ||
    addrCheck && (orTree oh.getLsbD aw 0 ^^ andTree oh.getLsbD addr.getLsbD aw 0)

/-- The leaves below the two children of a node are those below the node. -/
theorem div_two_pow_succ (j n offset : ℕ) :
    j / 2 ^ (n + 1) = offset ↔ j / 2 ^ n = 2 * offset ∨ j / 2 ^ n = 2 * offset + 1 := by
  rw [pow_succ, ← Nat.div_div_eq_div_mul]
  omega

theorem orTree_iff (oh : ℕ → Bool) (n offset : ℕ) :
    orTree oh n offset = true ↔ ∃ j, j / 2 ^ n = offset ∧ oh j = true := by
  induction n generalizing offset with
  | zero => simp [orTree]
  | succ n ih =>
      simp only [orTree, Bool.or_eq_true, ih, div_two_pow_succ]
      constructor
      · rintro (⟨j, hj, hoh⟩ | ⟨j, hj, hoh⟩)
        exacts [⟨j, .inl hj, hoh⟩, ⟨j, .inr hj, hoh⟩]
      · rintro ⟨j, hj | hj, hoh⟩
        exacts [.inl ⟨j, hj, hoh⟩, .inr ⟨j, hj, hoh⟩]

theorem andTree_eq (oh : ℕ → Bool) {aw : ℕ} (addr : BitVec aw) (n offset : ℕ) :
    andTree oh addr.getLsbD n offset = oh (offset * 2 ^ n + addr.toNat % 2 ^ n) := by
  induction n generalizing offset with
  | zero => simp [andTree, Nat.mod_one]
  | succ n ih =>
      rw [andTree, ih, ih, Nat.mod_pow_succ, pow_succ, BitVec.getLsbD,
        Nat.testBit_eq_decide_div_mod_eq]
      obtain hbit | hbit := Nat.mod_two_eq_zero_or_one (addr.toNat / 2 ^ n)
      · rw [hbit, show offset * (2 ^ n * 2) + (addr.toNat % 2 ^ n + 2 ^ n * 0) =
          2 * offset * 2 ^ n + addr.toNat % 2 ^ n by ring]
        simp
      · rw [hbit, show offset * (2 ^ n * 2) + (addr.toNat % 2 ^ n + 2 ^ n * 1) =
          (2 * offset + 1) * 2 ^ n + addr.toNat % 2 ^ n by ring]
        simp

/-- A node errs if two of the leaves below it are set: one below each child, or both below the
same. -/
theorem errTree_iff (oh : ℕ → Bool) (n offset : ℕ) : errTree oh n offset = true ↔
    ∃ j k, j ≠ k ∧ (j / 2 ^ n = offset ∧ oh j = true) ∧ k / 2 ^ n = offset ∧ oh k = true := by
  induction n generalizing offset with
  | zero =>
      simp only [errTree, Bool.false_eq_true, pow_zero, Nat.div_one, false_iff]
      rintro ⟨j, k, hne, ⟨rfl, -⟩, rfl, -⟩
      exact hne rfl
  | succ n ih =>
      simp only [errTree, Bool.or_eq_true, Bool.and_eq_true, orTree_iff, ih, div_two_pow_succ]
      constructor
      · rintro ((⟨⟨j, hj, hoh⟩, k, hk, hoh'⟩ | ⟨j, k, hne, ⟨hj, hoh⟩, hk, hoh'⟩) |
          ⟨j, k, hne, ⟨hj, hoh⟩, hk, hoh'⟩)
        · have hne : j ≠ k := by
            rintro rfl
            omega
          exact ⟨j, k, hne, ⟨.inl hj, hoh⟩, .inr hk, hoh'⟩
        · exact ⟨j, k, hne, ⟨.inl hj, hoh⟩, .inl hk, hoh'⟩
        · exact ⟨j, k, hne, ⟨.inr hj, hoh⟩, .inr hk, hoh'⟩
      · rintro ⟨j, k, hne, ⟨hj | hj, hoh⟩, hk | hk, hoh'⟩
        · exact .inl (.inr ⟨j, k, hne, ⟨hj, hoh⟩, hk, hoh'⟩)
        · exact .inl (.inl ⟨⟨j, hj, hoh⟩, k, hk, hoh'⟩)
        · exact .inl (.inl ⟨⟨k, hk, hoh'⟩, j, hj, hoh⟩)
        · exact .inr ⟨j, k, hne, ⟨hj, hoh⟩, hk, hoh'⟩

/-- `Onehot0Check_A`, `EnableCheck_A` and `AddrCheck_A`: the check fails for these reasons and for
no other, at every width that the address can tell apart. -/
theorem onehotErr_iff (addrCheck enableCheck strictCheck : Bool) {w aw : ℕ} (hw : w ≤ 2 ^ aw)
    (oh : BitVec w) (addr : BitVec aw) (en : Bool) :
    onehotErr addrCheck enableCheck strictCheck oh addr en = true ↔
      (∃ j k, j ≠ k ∧ oh.getLsbD j = true ∧ oh.getLsbD k = true) ∨
      (enableCheck = true ∧ (if strictCheck then (oh != 0) ≠ en else oh ≠ 0 ∧ en = false)) ∨
      (addrCheck = true ∧ oh.getLsbD addr.toNat ≠ (oh != 0)) := by
  have hroot : ∀ j, oh.getLsbD j = true → j / 2 ^ aw = 0 := by
    intro j hj
    exact Nat.div_eq_of_lt ((BitVec.lt_of_getLsbD hj).trans_le hw)
  have hor : orTree oh.getLsbD aw 0 = (oh != 0) := by
    rw [Bool.eq_iff_iff, orTree_iff, bne_iff_ne, ne_eq, BitVec.eq_of_getLsbD_eq_iff]
    constructor
    · rintro ⟨j, -, hoh⟩ hzero
      rw [hzero j (BitVec.lt_of_getLsbD hoh)] at hoh
      simp at hoh
    · intro hne
      by_contra hnone
      refine hne fun j _ => ?_
      rw [show BitVec.getLsbD (0 : BitVec w) j = false by simp, Bool.eq_false_iff]
      exact fun hoh => hnone ⟨j, hroot j hoh, hoh⟩
  have herr : errTree oh.getLsbD aw 0 = true ↔
      ∃ j k, j ≠ k ∧ oh.getLsbD j = true ∧ oh.getLsbD k = true := by
    rw [errTree_iff]
    constructor
    · rintro ⟨j, k, hne, ⟨-, hj⟩, -, hk⟩
      exact ⟨j, k, hne, hj, hk⟩
    · rintro ⟨j, k, hne, hj, hk⟩
      exact ⟨j, k, hne, ⟨hroot j hj, hj⟩, hroot k hk, hk⟩
  have hand : andTree oh.getLsbD addr.getLsbD aw 0 = oh.getLsbD addr.toNat := by
    rw [andTree_eq, Nat.zero_mul, Nat.zero_add, Nat.mod_eq_of_lt addr.isLt]
  rw [onehotErr, hor, hand, Bool.or_eq_true, Bool.or_eq_true, herr, or_assoc, Bool.and_eq_true,
    Bool.and_eq_true, Bool.xor_iff_ne]
  refine or_congr Iff.rfl (or_congr (and_congr Iff.rfl ?_) (and_congr Iff.rfl ne_comm))
  cases strictCheck with
  | false => simp [and_comm]
  | true => rw [if_pos rfl, if_pos rfl, Bool.xor_iff_ne]

/-- Bits 1 and 4 of five, with an address of three bits. -/
theorem onehotErr_iff_five : 5 ≤ 2 ^ 3 ∧ (onehotErr true true true (0b10010 : BitVec 5)
    (1 : BitVec 3) true = true ↔
      (∃ j k, j ≠ k ∧ (0b10010 : BitVec 5).getLsbD j = true ∧
        (0b10010 : BitVec 5).getLsbD k = true) ∨
      (true = true ∧ (if true then ((0b10010 : BitVec 5) != 0) ≠ true
        else (0b10010 : BitVec 5) ≠ 0 ∧ true = false)) ∨
      (true = true ∧ (0b10010 : BitVec 5).getLsbD (1 : BitVec 3).toNat ≠
        ((0b10010 : BitVec 5) != 0))) :=
  ⟨by decide, onehotErr_iff true true true (by decide) 0b10010 1 true⟩

/-! ### The register map -/

/-- The offsets of the registers, `USBDEV_INTR_STATE_OFFSET` to `USBDEV_COUNT_ERRORS_OFFSET`. -/
def offsets : List (BitVec 12) :=
  [0x0, 0x4, 0x8, 0xc, 0x10, 0x14, 0x18, 0x1c, 0x20, 0x24, 0x28, 0x2c, 0x30, 0x34, 0x38, 0x3c,
    0x40, 0x44, 0x48, 0x4c, 0x50, 0x54, 0x58, 0x5c, 0x60, 0x64, 0x68, 0x6c, 0x70, 0x74, 0x78,
    0x7c, 0x80, 0x84, 0x88, 0x8c, 0x90, 0x94, 0x98, 0x9c, 0xa0, 0xa4, 0xa8]

/-- `USBDEV_PERMIT`: the bytes that a write to the register must have. -/
def permit : List (BitVec 4) :=
  [0b0111, 0b0111, 0b0111, 0b0001, 0b0111, 0b0011, 0b0011, 0b1111, 0b0001, 0b0001, 0b0111,
    0b0011, 0b1111, 0b0011, 0b0011, 0b0011, 0b0011, 0b1111, 0b1111, 0b1111, 0b1111, 0b1111,
    0b1111, 0b1111, 0b1111, 0b1111, 0b1111, 0b1111, 0b1111, 0b0011, 0b0011, 0b1111, 0b1111,
    0b0111, 0b0111, 0b0001, 0b0001, 0b0011, 0b0001, 0b1111, 0b1111, 0b1111, 0b1111]

/-- The registers without a write enable: `usbstat`, `rxfifo`, `phy_pins_sense` and
`wake_events`. -/
def readOnly : List ℕ := [7, 10, 33, 37]

def wakeControl : ℕ := 36
def wakeEvents : ℕ := 37

def addrHit (regAddr : BitVec 12) (k : ℕ) : Bool := offsets[k]? == some regAddr

/-! ### Inputs and registers -/

/-- The inputs of a cycle: the host, what the read multiplexer shows, the two registers of the
other clock domain, and the access of the USB side to the memory. -/
structure Input where
  tl : H2D
  regRdata : BitVec 32
  wakeControlBusy : Bool
  wakeEventsBusy : Bool
  usb : Option PacketRam.Req
  deriving DecidableEq, Repr

structure State where
  numReqOutstanding : BitVec 9
  /-- `dev_select_outstanding`: the registers, not the memory. -/
  devSelectOutstanding : Bool
  errQ : Bool
  reg : AdapterReg.State
  sram : AdapterSram.State
  ram : PacketRam.State

/-- Register values under `rst_ni`; the memory and the storage of the FIFOs are not reset. -/
def State.reset (req : AdapterSram.Req) (mask : BitVec 4) (rsp : AdapterSram.Rsp)
    (mem : BitVec 9 → BitVec 32) (sramRdata : BitVec 32) : State :=
  ⟨0, false, false, .reset, .reset req mask rsp, .reset mem sramRdata⟩

/-! ### Steering -/

/-- `reg_steer`: a request that is not intact goes to the registers. -/
def regSteer (tl : H2D) : Bool :=
  cmdIntgChk tl || !decide (2048 ≤ (tl.aAddress.extractLsb' 0 12).toNat)

/-- `hold_all_requests`: a response of the other device is still to come. -/
def holdAllRequests (s : State) (tl : H2D) : Bool :=
  s.numReqOutstanding != 0 && regSteer tl != s.devSelectOutstanding

/-- `blanked_auser`, with `get_bad_cmd_intg` and `get_bad_data_intg`. -/
def blankedAUser (tl : H2D) : AUser :=
  { tl.aUser with cmdIntg := ~~~getCmdIntg tl, dataIntg := ~~~getDataIntg (BitVec.allOnes 32) }

def devSelect (s : State) (tl : H2D) (dev : Bool) : Bool :=
  regSteer tl == dev && !holdAllRequests s tl

/-- `tl_u_o`: what a device sees of the request. -/
def toDevice (s : State) (tl : H2D) (dev : Bool) : H2D :=
  { tl with
    aValid := tl.aValid && devSelect s tl dev
    aData := if devSelect s tl dev then tl.aData else BitVec.allOnes 32
    aUser := if devSelect s tl dev then tl.aUser else blankedAUser tl }

/-- The response side of `tlul_fifo_sync` with `RspDepth = 0`. -/
def fifoRsp (tl : D2H) : D2H :=
  { tl with dData := if tl.dOpcode == accessAckData then tl.dData else 0 }

/-! ### The registers -/

def regTl (s : State) (i : Input) : H2D := toDevice s i.tl true

def regBusy (i : Input) : Bool :=
  (if addrHit (AdapterReg.addrO i.tl) wakeControl then i.wakeControlBusy
    else if addrHit (AdapterReg.addrO i.tl) wakeEvents then i.wakeEventsBusy else false) &&
  i.tl.aValid

def regWe (s : State) (i : Input) : Bool := AdapterReg.weO s.reg (regTl s i) (regBusy i)

def regRe (s : State) (i : Input) : Bool := AdapterReg.reO s.reg (regTl s i) (regBusy i)

def regHit (i : Input) (k : ℕ) : Bool := addrHit (AdapterReg.addrO i.tl) k

def addrmiss (s : State) (i : Input) : Bool :=
  (regRe s i || regWe s i) && !(List.range 43).any (regHit i)

/-- `wr_err`: a byte of the register is missing. -/
def wrErr (s : State) (i : Input) : Bool :=
  regWe s i && (List.range 43).any fun k => regHit i k && permit.getD k 0 &&& ~~~i.tl.aMask != 0

def regError (s : State) (i : Input) : Bool := addrmiss s i || wrErr s i || cmdIntgChk i.tl

/-- The write enable of register `k`, also in `reg_we_check`. -/
def writeEnable (s : State) (i : Input) (k : ℕ) : Bool :=
  !readOnly.contains k && (regHit i k && regWe s i && !regError s i)

def regs (s : State) (i : Input) : AdapterReg.Regs := ⟨regBusy i, i.regRdata, regError s i⟩

/-! ### The memory -/

def winTl (s : State) (i : Input) : H2D := toDevice s i.tl false

def swMem (s : State) (i : Input) : AdapterSram.Mem :=
  ⟨PacketRam.swGnt i.usb, s.ram.swRvalid, s.ram.swRdata⟩

def swReq (s : State) (i : Input) : Option PacketRam.Req := AdapterSram.memReq s.sram (winTl s i)

/-! ### The socket -/

/-- `a_ready` to the host. -/
def aReady (s : State) (i : Input) : Bool :=
  i.tl.aValid && !holdAllRequests s i.tl &&
    if regSteer i.tl then AdapterReg.aReady s.reg (regBusy i)
    else AdapterSram.aReady s.sram (swMem s i)

/-- The response of the device that owes one. -/
def tlOPre (s : State) (i : Input) : D2H :=
  { fifoRsp (fifoRsp (if s.devSelectOutstanding then AdapterReg.tlO s.reg (regBusy i)
      else AdapterSram.tlO s.sram (swMem s i))) with aReady := aReady s i }

/-- `tl_o`. -/
def tlO (s : State) (i : Input) : D2H := rspIntgGen (tlOPre s i)

def acceptReq (s : State) (i : Input) : Bool := i.tl.aValid && aReady s i

def acceptRsp (s : State) (i : Input) : Bool := (tlO s i).dValid && i.tl.dReady

/-- `reg_we_check`. -/
def regWeCheck (s : State) (i : Input) : BitVec 43 := Secded.ofBits 43 (writeEnable s i)

/-- `prim_reg_we_check`. -/
def regWeErr (s : State) (i : Input) : Bool :=
  onehotErr false true false (regWeCheck s i) (0 : BitVec 6) (regWe s i && !addrmiss s i)

/-- `intg_err_o`. -/
def intgErrO (s : State) (i : Input) : Bool := s.errQ || cmdIntgChk i.tl || regWeErr s i

/-- One clock cycle. -/
def step (s : State) (i : Input) : State where
  numReqOutstanding :=
    if acceptReq s i then
      if acceptRsp s i then s.numReqOutstanding else s.numReqOutstanding + 1
    else if acceptRsp s i then s.numReqOutstanding - 1 else s.numReqOutstanding
  devSelectOutstanding := if acceptReq s i then regSteer i.tl else s.devSelectOutstanding
  errQ := s.errQ || cmdIntgChk i.tl || regWeErr s i
  reg := AdapterReg.step s.reg (regTl s i) (regs s i)
  sram := AdapterSram.step s.sram (winTl s i) (swMem s i)
  ram := PacketRam.step s.ram i.usb (swReq s i)

end UsbDev.RegTop
