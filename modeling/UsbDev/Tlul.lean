import UsbDev.Secded

/-!
# The bus and its integrity checks

`tlul_pkg`: requests from the host to the device and responses back, with check bits
over the command and over the data of each. A request or a response with one or two
changed bits is not taken for an intact one.
-/
namespace UsbDev.Tlul

/-! ### The two codes -/

/-- `prim_secded_inv_39_32_enc` and `prim_secded_inv_39_32_dec`. -/
def secdedInv3932 : Secded.Code 39 32 7 where
  invert := 0x2A00000000
  encMasks := [0x002606BD25, 0x00DEBA8050, 0x00413D89AA, 0x0031234ED1, 0x00C2C1323B, 0x002DCC624C,
    0x0098505586]
  decMasks := [0x012606BD25, 0x02DEBA8050, 0x04413D89AA, 0x0831234ED1, 0x10C2C1323B, 0x202DCC624C,
    0x4098505586]
  columns := [0x19, 0x54, 0x61, 0x34, 0x1a, 0x15, 0x2a, 0x4c, 0x45, 0x38, 0x49, 0xd, 0x51, 0x31,
    0x68, 0x7, 0x1c, 0xb, 0x25, 0x26, 0x46, 0xe, 0x70, 0x32, 0x2c, 0x13, 0x23, 0x62, 0x4a, 0x29,
    0x16, 0x52]
  width := rfl
  length := rfl
  low := by simp
  invertHigh := by decide
  checks := by decide
  corrects := by decide
  distinct := by decide
  odd := by decide

/-- `prim_secded_inv_64_57_enc` and `prim_secded_inv_64_57_dec`. -/
def secdedInv6457 : Secded.Code 64 57 7 where
  invert := 0x5400000000000000
  encMasks := [0x0103FFF800007FFF, 0x017C1FF801FF801F, 0x01BDE1F87E0781E1, 0x01DEEE3B8E388E22,
    0x01EF76CDB2C93244, 0x01F7BB56D5525488, 0x01FBDDA769A46910]
  decMasks := [0x0303FFF800007FFF, 0x057C1FF801FF801F, 0x09BDE1F87E0781E1, 0x11DEEE3B8E388E22,
    0x21EF76CDB2C93244, 0x41F7BB56D5525488, 0x81FBDDA769A46910]
  columns := [0x7, 0xb, 0x13, 0x23, 0x43, 0xd, 0x15, 0x25, 0x45, 0x19, 0x29, 0x49, 0x31, 0x51,
    0x61, 0xe, 0x16, 0x26, 0x46, 0x1a, 0x2a, 0x4a, 0x32, 0x52, 0x62, 0x1c, 0x2c, 0x4c, 0x34, 0x54,
    0x64, 0x38, 0x58, 0x68, 0x70, 0x1f, 0x2f, 0x4f, 0x37, 0x57, 0x67, 0x3b, 0x5b, 0x6b, 0x73, 0x3d,
    0x5d, 0x6d, 0x75, 0x79, 0x3e, 0x5e, 0x6e, 0x76, 0x7a, 0x7c, 0x7f]
  width := rfl
  length := rfl
  low := by simp
  invertHigh := by decide
  checks := by decide
  corrects := by decide
  distinct := by decide
  odd := by decide

/-! ### Requests and responses -/

/-- `tl_a_user_t`. -/
structure AUser where
  rsvd : BitVec 5
  instrType : BitVec 4
  cmdIntg : BitVec 7
  dataIntg : BitVec 7
  deriving DecidableEq, Repr

/-- `tl_h2d_t`. -/
structure H2D where
  aValid : Bool
  aOpcode : BitVec 3
  aParam : BitVec 3
  aSize : BitVec 2
  aSource : BitVec 8
  aAddress : BitVec 32
  aMask : BitVec 4
  aData : BitVec 32
  aUser : AUser
  dReady : Bool
  deriving DecidableEq, Repr

/-- `tl_d_user_t`. -/
structure DUser where
  rspIntg : BitVec 7
  dataIntg : BitVec 7
  deriving DecidableEq, Repr

/-- `tl_d2h_t`. -/
structure D2H where
  dValid : Bool
  dOpcode : BitVec 3
  dParam : BitVec 3
  dSize : BitVec 2
  dSource : BitVec 8
  dSink : BitVec 1
  dData : BitVec 32
  dUser : DUser
  dError : Bool
  aReady : Bool
  deriving DecidableEq, Repr

/-! `tl_a_op_e` and `tl_d_op_e`. -/

def putFullData : BitVec 3 := 0
def putPartialData : BitVec 3 := 1
def get : BitVec 3 := 4
def accessAck : BitVec 3 := 0
def accessAckData : BitVec 3 := 1

/-! ### Integrity -/

/-- `extract_h2d_cmd_intg`, packed and extended to `H2DCmdMaxWidth`. -/
def extractH2DCmdIntg (tl : H2D) : BitVec 57 :=
  (tl.aUser.instrType ++ tl.aAddress ++ tl.aOpcode ++ tl.aMask).setWidth 57

/-- `extract_d2h_rsp_intg`, packed and extended to `D2HRspMaxWidth`. -/
def extractD2HRspIntg (tl : D2H) : BitVec 57 :=
  (tl.dOpcode ++ tl.dSize ++ BitVec.ofBool tl.dError).setWidth 57

/-- `get_cmd_intg`. -/
def getCmdIntg (tl : H2D) : BitVec 7 :=
  (secdedInv6457.encode (extractH2DCmdIntg tl)).extractLsb' 57 7

/-- `get_data_intg`. -/
def getDataIntg (data : BitVec 32) : BitVec 7 := (secdedInv3932.encode data).extractLsb' 32 7

/-- `tlul_cmd_intg_gen`. -/
def cmdIntgGen (tl : H2D) : H2D :=
  { tl with aUser := { tl.aUser with cmdIntg := getCmdIntg tl, dataIntg := getDataIntg tl.aData } }

/-- The words that `tlul_cmd_intg_chk` checks. -/
def cmdWord (tl : H2D) : BitVec 64 := tl.aUser.cmdIntg ++ extractH2DCmdIntg tl

def dataWord (tl : H2D) : BitVec 39 := tl.aUser.dataIntg ++ tl.aData

/-- `|err_o`. -/
def anyErr {n k r : ℕ} (c : Secded.Code n k r) (word : BitVec n) : Bool :=
  c.singleErr word || c.doubleErr word

/-- `tlul_cmd_intg_chk`. -/
def cmdIntgChk (tl : H2D) : Bool :=
  tl.aValid && (anyErr secdedInv6457 (cmdWord tl) || anyErr secdedInv3932 (dataWord tl))

/-- `tlul_rsp_intg_gen` with both kinds of check bits. -/
def rspIntgGen (tl : D2H) : D2H :=
  { tl with dUser := {
      rspIntg := (secdedInv6457.encode (extractD2HRspIntg tl)).extractLsb' 57 7
      dataIntg := getDataIntg tl.dData } }

def rspWord (tl : D2H) : BitVec 64 := tl.dUser.rspIntg ++ extractD2HRspIntg tl

def rspDataWord (tl : D2H) : BitVec 39 := tl.dUser.dataIntg ++ tl.dData

/-- `tlul_rsp_intg_chk` with `EnableRspDataIntgCheck = 1`, as in `tlul_adapter_vh`. -/
def rspIntgChk (tl : D2H) : Bool :=
  tl.dValid && (anyErr secdedInv6457 (rspWord tl) || anyErr secdedInv3932 (rspDataWord tl))

/-- Two words that differ in one place or in two. -/
inductive Damaged {n : ℕ} (x : BitVec n) : BitVec n → Prop where
  | single {i : ℕ} (hi : i < n) : Damaged x (x ^^^ BitVec.twoPow n i)
  | double {i j : ℕ} (hi : i < n) (hj : j < n) (hij : i ≠ j) :
      Damaged x (x ^^^ BitVec.twoPow n i ^^^ BitVec.twoPow n j)

/-- An intact word passes the check, a damaged one does not. -/
theorem anyErr_encode {n k r : ℕ} (c : Secded.Code n k r) (data : BitVec k) :
    anyErr c (c.encode data) = false := by
  obtain ⟨-, hsingle, hdouble⟩ := c.decode_encode data
  rw [anyErr, hsingle, hdouble]
  rfl

theorem anyErr_of_damaged {n k r : ℕ} (c : Secded.Code n k r) (data : BitVec k) {word : BitVec n}
    (h : Damaged (c.encode data) word) : anyErr c word = true := by
  cases h with
  | single hi => rw [anyErr, (c.decode_single data hi).2.1, Bool.true_or]
  | double hi hj hij => rw [anyErr, (c.decode_double data hi hj hij).2, Bool.or_true]

/-- The check bits in front of the data make up the encoded word. -/
theorem intg_append {k r : ℕ} (c : Secded.Code (r + k) k r) (data : BitVec k) :
    (c.encode data).extractLsb' k r ++ data = c.encode data := by
  refine BitVec.eq_of_getLsbD_eq fun i hi => ?_
  rw [BitVec.getLsbD_append]
  split_ifs with hlow
  · exact (c.getLsbD_encode data hlow).symm
  · rw [BitVec.getLsbD_extractLsb', decide_eq_true (by omega), Bool.true_and,
      show k + (i - k) = i by omega]

theorem cmdWord_gen (tl : H2D) :
    cmdWord (cmdIntgGen tl) = secdedInv6457.encode (extractH2DCmdIntg tl) :=
  @intg_append 57 7 secdedInv6457 (extractH2DCmdIntg tl)

theorem dataWord_gen (tl : H2D) : dataWord (cmdIntgGen tl) = secdedInv3932.encode tl.aData :=
  @intg_append 32 7 secdedInv3932 tl.aData

theorem rspWord_gen (tl : D2H) :
    rspWord (rspIntgGen tl) = secdedInv6457.encode (extractD2HRspIntg tl) :=
  @intg_append 57 7 secdedInv6457 (extractD2HRspIntg tl)

theorem rspDataWord_gen (tl : D2H) :
    rspDataWord (rspIntgGen tl) = secdedInv3932.encode tl.dData :=
  @intg_append 32 7 secdedInv3932 tl.dData

/-- A request as the host sends it passes the check of the device, and one whose command or data
has changed in one bit or in two does not, whatever else has changed. -/
theorem cmd_integrity (tl : H2D) : cmdIntgChk (cmdIntgGen tl) = false ∧ ∀ tl' : H2D,
    tl'.aValid = true → Damaged (cmdWord (cmdIntgGen tl)) (cmdWord tl') ∨
      Damaged (dataWord (cmdIntgGen tl)) (dataWord tl') → cmdIntgChk tl' = true := by
  rw [cmdWord_gen, dataWord_gen]
  refine ⟨?_, fun tl' hvalid hdamaged => ?_⟩
  · rw [cmdIntgChk, cmdWord_gen, dataWord_gen, anyErr_encode, anyErr_encode, Bool.or_false,
      Bool.and_false]
  · rw [cmdIntgChk, hvalid]
    obtain hcmd | hdata := hdamaged
    · rw [anyErr_of_damaged _ _ hcmd, Bool.true_or, Bool.and_true]
    · rw [anyErr_of_damaged _ _ hdata, Bool.or_true, Bool.and_true]

/-- The same holds of responses and the check of the host. -/
theorem rsp_integrity (tl : D2H) : rspIntgChk (rspIntgGen tl) = false ∧ ∀ tl' : D2H,
    tl'.dValid = true → Damaged (rspWord (rspIntgGen tl)) (rspWord tl') ∨
      Damaged (rspDataWord (rspIntgGen tl)) (rspDataWord tl') → rspIntgChk tl' = true := by
  rw [rspWord_gen, rspDataWord_gen]
  refine ⟨?_, fun tl' hvalid hdamaged => ?_⟩
  · rw [rspIntgChk, rspWord_gen, rspDataWord_gen, anyErr_encode, anyErr_encode, Bool.or_false,
      Bool.and_false]
  · rw [rspIntgChk, hvalid]
    obtain hrsp | hdata := hdamaged
    · rw [anyErr_of_damaged _ _ hrsp, Bool.true_or, Bool.and_true]
    · rw [anyErr_of_damaged _ _ hdata, Bool.or_true, Bool.and_true]

/-- Both codes of the bus correct every single error and tell every double one. -/
theorem codes_correct : secdedInv3932.Corrects ∧ secdedInv6457.Corrects :=
  ⟨secdedInv3932.corrects_all, secdedInv6457.corrects_all⟩

/-! ### Well-formed requests -/

/-! `mubi4_t`. -/

def muBi4True : BitVec 4 := 6
def muBi4False : BitVec 4 := 9

def mubi4TestInvalid (val : BitVec 4) : Bool := !(val == muBi4True || val == muBi4False)

def mubi4TestTrueStrict (val : BitVec 4) : Bool := muBi4True == val

def mubi4TestFalseLoose (val : BitVec 4) : Bool := muBi4True != val

def H2D.isPut (tl : H2D) : Bool := tl.aOpcode == putFullData || tl.aOpcode == putPartialData

/-- The size fits the address, only lanes of the access are in the mask, and `PutFullData` has all
of them. -/
def aConfigAllowed (tl : H2D) : Bool :=
  let mask : BitVec 4 := 1 <<< (tl.aAddress.extractLsb' 0 2).toNat
  let (addrSzChk, maskChk, fulldataChk) :=
    if tl.aValid then
      if tl.aSize = 0 then (true, tl.aMask &&& ~~~mask == 0, tl.aMask &&& mask != 0)
      else if tl.aSize = 1 then
        (!tl.aAddress.getLsbD 0,
          if tl.aAddress.getLsbD 1 then tl.aMask &&& 0x3 == 0 else tl.aMask &&& 0xC == 0,
          if tl.aAddress.getLsbD 1 then tl.aMask.extractLsb' 2 2 == 3
          else tl.aMask.extractLsb' 0 2 == 3)
      else if tl.aSize = 2 then (tl.aAddress.extractLsb' 0 2 == 0, true, tl.aMask == 0xF)
      else (false, false, false)
    else (false, false, false)
  addrSzChk && maskChk && (tl.aOpcode == get || tl.aOpcode == putPartialData || fulldataChk)

/-- `tlul_err`. -/
def tlulErr (tl : H2D) : Bool :=
  let opcodeAllowed := tl.isPut || tl.aOpcode == get
  let instrWrErr := mubi4TestTrueStrict tl.aUser.instrType && tl.isPut
  !(opcodeAllowed && aConfigAllowed tl) || instrWrErr || mubi4TestInvalid tl.aUser.instrType

/-- What is not malformed reads or writes. -/
theorem isPut_or_get {tl : H2D} (h : tlulErr tl = false) :
    tl.isPut = true ∨ (tl.aOpcode == get) = true := by
  rw [tlulErr, Bool.or_eq_false_iff, Bool.or_eq_false_iff, Bool.not_eq_false', Bool.and_eq_true] at h
  simpa using h.1.1.1

theorem isPut_eq {tl : H2D} (h : tlulErr tl = false) : tl.isPut = !(tl.aOpcode == get) := by
  obtain hput | hget := isPut_or_get h
  · rw [hput]
    rw [H2D.isPut, Bool.or_eq_true, beq_iff_eq, beq_iff_eq] at hput
    obtain hput | hput := hput <;> rw [hput] <;> rfl
  · rw [hget]
    rw [beq_iff_eq] at hget
    rw [H2D.isPut, hget]
    rfl

end UsbDev.Tlul
