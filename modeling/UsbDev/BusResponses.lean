import UsbDev.RegTop
import UsbDev.TwoClocks

/-!
# Requests and responses of a run

Every request that the device accepts is answered once, in order, and the answer is
settled when the request is accepted: the register or the memory word as it is then,
or an error for a request that is damaged, malformed or not permitted. Software writes
the memory and the registers through accepted requests alone.
-/
namespace UsbDev.RegTop

open Clocked TwoClocks Tlul

/-! ### What is asked and answered -/

/-- A response, without its check bits. -/
structure Response where
  opcode : BitVec 3
  size : BitVec 2
  source : BitVec 8
  data : BitVec 32
  error : Bool
  deriving DecidableEq, Repr

def Response.of (tl : D2H) : Response := ⟨tl.dOpcode, tl.dSize, tl.dSource, tl.dData, tl.dError⟩

/-- A register access that is damaged, that writes a part of a word's address, that has no
register, or that writes without a byte the register needs. -/
def refusedReg (tl : H2D) : Bool :=
  cmdIntgChk tl || tl.isPut && tl.aAddress.extractLsb' 0 2 != 0 ||
    !(List.range 43).any (addrHit (AdapterReg.addrO tl)) ||
    tl.isPut && (List.range 43).any fun k =>
      addrHit (AdapterReg.addrO tl) k && permit.getD k 0 &&& ~~~tl.aMask != 0

/-- The requests that are answered with an error. -/
def refused (tl : H2D) : Bool :=
  tlulErr tl || mubi4TestTrueStrict tl.aUser.instrType ||
    if regSteer tl then refusedReg tl else AdapterSram.wrAttrError tl

/-- What a read gives. -/
def readData (mem : BitVec 9 → BitVec 32) (i : Input) : BitVec 32 :=
  if regSteer i.tl then if refused i.tl then BitVec.allOnes 32 else i.regRdata
  else if refused i.tl then AdapterSram.blankingData i.tl.aUser.instrType
  else mem (i.tl.aAddress.extractLsb' 2 9) &&& AdapterSram.byteMask i.tl.aMask

/-- The response to the request of a cycle. -/
def answer (mem : BitVec 9 → BitVec 32) (i : Input) : Response where
  opcode := if i.tl.aOpcode == get then accessAckData else accessAck
  size := i.tl.aSize
  source := i.tl.aSource
  data := if i.tl.aOpcode == get then readData mem i else 0
  error := refused i.tl

/-- The response to a request that is accepted. -/
def accepted (s : State) (i : Input) : Option Response :=
  if acceptReq s i then some (answer s.ram.mem i) else none

/-- The response that the host takes. -/
def responded (s : State) (i : Input) : Option Response :=
  if acceptRsp s i then some (.of (tlO s i)) else none

/-- The response that the host sees. -/
def shown (s : State) (i : Input) : Option Response :=
  if (tlO s i).dValid then some (.of (tlO s i)) else none

/-- A refused access to the memory that has waited for a cycle is not replaced by one that is not
refused. -/
def Keeps (s : State) (i : Input) : Prop :=
  s.sram.missedErrGntQ = true → i.tl.aValid = true → regSteer i.tl = false → refused i.tl = true

instance (s : State) (i : Input) : Decidable (Keeps s i) :=
  inferInstanceAs (Decidable (_ → _ → _ → _))

/-! ### The response that is owed -/

def owedReg (s : AdapterReg.State) : Response where
  opcode := s.rspopQ
  size := s.reqszQ
  source := s.reqidQ
  data := if s.rspopQ == accessAckData then s.rdataQ else 0
  error := s.errorQ

def owedWin (s : AdapterSram.State) (rdata : BitVec 32) : Response where
  opcode := if s.reqfifo.storage.isRead then accessAckData else accessAck
  size := s.reqfifo.storage.size
  source := s.reqfifo.storage.source
  data :=
    if s.reqfifo.storage.isRead then
      if s.reqfifo.storage.error then AdapterSram.blankingData s.reqfifo.storage.instrType
      else AdapterSram.readWord s rdata
    else 0
  error := s.reqfifo.storage.error

/-- What was accepted and is not answered. -/
def owed (s : State) : List Response :=
  if s.numReqOutstanding = 0 then []
  else if s.devSelectOutstanding then [owedReg s.reg]
  else [owedWin s.sram s.ram.swRdata]

/-! ### The requests that the devices see -/

section
variable {s : State} {i : Input} {tl : H2D} {dev : Bool}

theorem toDevice_of_select (h : devSelect s tl dev = true) : toDevice s tl dev = tl := by
  simp [toDevice, h]

theorem toDevice_aValid : (toDevice s tl dev).aValid = (tl.aValid && devSelect s tl dev) := rfl

theorem toDevice_dReady : (toDevice s tl dev).dReady = tl.dReady := rfl

/-- The registers accept what the host has accepted for them, and so does the memory. -/
theorem regAck_eq : AdapterReg.aAck s.reg (regTl s i) (regBusy i) =
    (acceptReq s i && regSteer i.tl) := by
  rw [AdapterReg.aAck, regTl, toDevice_aValid, devSelect, acceptReq, aReady]
  cases i.tl.aValid <;> cases regSteer i.tl <;> cases holdAllRequests s i.tl <;> simp

theorem winAck_eq : AdapterSram.aAck s.sram (winTl s i) (swMem s i) =
    (acceptReq s i && !regSteer i.tl) := by
  rw [AdapterSram.aAck, winTl, toDevice_aValid, devSelect, acceptReq, aReady]
  cases i.tl.aValid <;> cases regSteer i.tl <;> cases holdAllRequests s i.tl <;> simp

/-- A request that is accepted reaches its device as it is. -/
theorem toDevice_of_accept (h : acceptReq s i = true) :
    toDevice s i.tl (regSteer i.tl) = i.tl := by
  have hhold : holdAllRequests s i.tl = false := by
    rw [acceptReq, aReady, Bool.and_eq_true, Bool.and_eq_true, Bool.and_eq_true] at h
    simpa using h.2.1.2
  refine toDevice_of_select ?_
  rw [devSelect, hhold, beq_self_eq_true]
  rfl

theorem regTl_of_accept (h : acceptReq s i = true) (hsteer : regSteer i.tl = true) :
    regTl s i = i.tl := by
  have hdev := toDevice_of_accept h
  rwa [hsteer] at hdev

theorem winTl_of_accept (h : acceptReq s i = true) (hsteer : regSteer i.tl = false) :
    winTl s i = i.tl := by
  have hdev := toDevice_of_accept h
  rwa [hsteer] at hdev

theorem tlO_dValid : (tlO s i).dValid = if s.devSelectOutstanding then s.reg.outstandingQ
    else AdapterSram.dValid s.sram (swMem s i) := by
  rw [tlO, tlOPre]
  cases s.devSelectOutstanding <;> rfl

theorem regDAck_eq (h : s.devSelectOutstanding = true) :
    AdapterReg.dAck s.reg (regTl s i) = acceptRsp s i := by
  rw [acceptRsp, tlO_dValid, if_pos h]
  rfl

/-! ### The checks of the devices -/

theorem errorDet_eq (hsteer : regSteer tl = false) : AdapterSram.errorDet tl = refused tl := by
  have hfalse : mubi4TestFalseLoose muBi4False = true := rfl
  rw [AdapterSram.errorDet, AdapterSram.instrError, refused, hsteer, hfalse, Bool.and_true,
    if_neg Bool.false_ne_true]
  cases hinvalid : mubi4TestInvalid tl.aUser.instrType with
  | true =>
      have herr : tlulErr tl = true := by simp [tlulErr, hinvalid]
      simp [herr]
  | false => cases AdapterSram.wrAttrError tl <;> cases tlulErr tl <;> simp

theorem wrReq_eq (h : acceptReq s i = true) (hsteer : regSteer i.tl = true) :
    AdapterReg.wrReq s.reg (regTl s i) (regBusy i) = i.tl.isPut := by
  rw [AdapterReg.wrReq, regAck_eq, h, hsteer, regTl_of_accept h hsteer]
  rfl

theorem rdReq_eq (h : acceptReq s i = true) (hsteer : regSteer i.tl = true) :
    AdapterReg.rdReq s.reg (regTl s i) (regBusy i) = (i.tl.aOpcode == get) := by
  rw [AdapterReg.rdReq, regAck_eq, h, hsteer, regTl_of_accept h hsteer]
  rfl

theorem errInternal_eq (h : acceptReq s i = true) (hsteer : regSteer i.tl = true) :
    AdapterReg.errInternal s.reg (regTl s i) (regBusy i) =
      (i.tl.isPut && i.tl.aAddress.extractLsb' 0 2 != 0 || tlulErr i.tl ||
        mubi4TestTrueStrict i.tl.aUser.instrType) := by
  rw [AdapterReg.errInternal, AdapterReg.addrAlignErr, wrReq_eq h hsteer, regTl_of_accept h hsteer,
    show mubi4TestFalseLoose muBi4False = true from rfl, Bool.and_true]

/-- An accepted access of the registers fails for the reasons of `refused`. -/
theorem regError_eq (h : acceptReq s i = true) (hsteer : regSteer i.tl = true) :
    (regError s i || AdapterReg.errInternal s.reg (regTl s i) (regBusy i)) = refused i.tl := by
  have hint := errInternal_eq h hsteer
  rw [refused, hsteer, if_pos rfl, refusedReg, regError, addrmiss, wrErr, regWe, regRe,
    AdapterReg.weO, AdapterReg.reO, wrReq_eq h hsteer, rdReq_eq h hsteer, hint,
    show regHit i = addrHit (AdapterReg.addrO i.tl) from rfl]
  generalize (List.range 43).any (addrHit (AdapterReg.addrO i.tl)) = hit
  generalize ((List.range 43).any fun k =>
    addrHit (AdapterReg.addrO i.tl) k && permit.getD k 0 &&& ~~~i.tl.aMask != 0) = missing
  generalize (i.tl.aAddress.extractLsb' 0 2 != 0) = unaligned
  cases herr : tlulErr i.tl with
  | true => simp
  | false =>
      cases mubi4TestTrueStrict i.tl.aUser.instrType with
      | true => simp
      | false =>
          obtain hop | hop := isPut_or_get herr
          · cases unaligned <;> cases cmdIntgChk i.tl <;> simp [hop]
          · cases hput : i.tl.isPut <;> cases unaligned <;> cases cmdIntgChk i.tl <;> simp [hop]

/-! ### What the host sees -/

theorem fifoRsp_fifoRsp (tl : D2H) : fifoRsp (fifoRsp tl) = fifoRsp tl := by
  rw [fifoRsp, fifoRsp]
  split_ifs <;> rfl

theorem of_tlO (s : State) (i : Input) : Response.of (tlO s i) =
    .of (fifoRsp (if s.devSelectOutstanding then AdapterReg.tlO s.reg (regBusy i)
      else AdapterSram.tlO s.sram (swMem s i))) := by
  rw [tlO, rspIntgGen, tlOPre, fifoRsp_fifoRsp]
  rfl

theorem of_tlO_reg (hdev : s.devSelectOutstanding = true) :
    Response.of (tlO s i) = owedReg s.reg := by
  rw [of_tlO, if_pos hdev]
  rfl

theorem of_tlO_win (hdev : s.devSelectOutstanding = false)
    (h : AdapterSram.Busy s.sram s.ram.swRvalid) :
    Response.of (tlO s i) = owedWin s.sram s.ram.swRdata := by
  have hvalid : AdapterSram.dValid s.sram (swMem s i) = true := AdapterSram.Busy.dValid_eq h
  have hrdata := h.reqfifoRdata_eq
  have hfull := h.reqfifo_full
  have herr : AdapterSram.dError s.sram (swMem s i) = s.sram.reqfifo.storage.error ∧
      (s.sram.reqfifo.storage.isRead = true → s.sram.reqfifo.storage.error = false →
        AdapterSram.rspfifoRvalid s.sram (swMem s i) = true ∧
        (AdapterSram.rspfifoRdata s.sram (swMem s i)).data =
          AdapterSram.readWord s.sram s.ram.swRdata) := by
    rw [AdapterSram.dError, hfull, hrdata, Bool.true_and]
    cases h with
    | done _ kind =>
        obtain herror | hread := kind
        · simp [herror]
        · simp [hread]
    | reading _ herror hread hsramreq hrsp hport =>
        simp [AdapterSram.rspfifoRdata, AdapterSram.rspfifoRvalid, SingletonFifo.rdata,
          SingletonFifo.rvalid, AdapterSram.rspfifoWvalid, swMem, hport, hfull, hrsp, herror,
          AdapterSram.rspfifoWdata, AdapterSram.sramReqMask, SingletonFifo.head, hsramreq,
          AdapterSram.readWord]
    | buffered _ herror hread _ hrsp hok =>
        simp [AdapterSram.rspfifoRdata, AdapterSram.rspfifoRvalid, SingletonFifo.rdata,
          SingletonFifo.rvalid, hrsp, hok, herror, AdapterSram.readWord]
  obtain ⟨herror, hdata⟩ := herr
  rw [of_tlO, hdev, if_neg Bool.false_ne_true, fifoRsp, Response.of, owedWin, AdapterSram.tlO,
    AdapterSram.vldRdRsp, AdapterSram.errorBlankingData, hvalid, hrdata, herror]
  cases hread : s.sram.reqfifo.storage.isRead with
  | false => simp [accessAck, accessAckData]
  | true =>
      cases hfail : s.sram.reqfifo.storage.error with
      | true => simp [accessAckData]
      | false =>
          obtain ⟨hrsp, hword⟩ := hdata hread hfail
          simp [accessAckData, hrsp, hword]

/-! ### The device while it owes a response -/

/-- Whether a response is owed, and by which device. -/
inductive Mode (s : State) : Prop where
  | free (num : s.numReqOutstanding = 0) (reg : s.reg.outstandingQ = false)
      (sram : AdapterSram.Idle s.sram s.ram.swRvalid)
  | register (num : s.numReqOutstanding = 1) (dev : s.devSelectOutstanding = true)
      (reg : s.reg.outstandingQ = true) (sram : AdapterSram.Idle s.sram s.ram.swRvalid)
  | window (num : s.numReqOutstanding = 1) (dev : s.devSelectOutstanding = false)
      (reg : s.reg.outstandingQ = false) (sram : AdapterSram.Busy s.sram s.ram.swRvalid)

theorem mode_reset (req : AdapterSram.Req) (mask : BitVec 4) (rsp : AdapterSram.Rsp)
    (mem : BitVec 9 → BitVec 32) (sramRdata : BitVec 32) :
    Mode (.reset req mask rsp mem sramRdata) :=
  .free rfl rfl ⟨rfl, rfl, rfl, rfl⟩

/-- No request is accepted before the response to the last one is taken. -/
theorem Mode.acceptReq_eq (h : Mode s) (hnum : s.numReqOutstanding ≠ 0) :
    acceptReq s i = false := by
  cases h with
  | free num => exact absurd num hnum
  | register num dev reg =>
      rw [acceptReq, aReady, holdAllRequests, num, dev]
      cases regSteer i.tl <;> simp [AdapterReg.aReady, reg]
  | window num dev _ sram =>
      rw [acceptReq, aReady, holdAllRequests, num, dev]
      cases regSteer i.tl <;> simp [sram.aReady_eq]

/-- A response is shown while one is owed. -/
theorem Mode.dValid_eq (h : Mode s) : (tlO s i).dValid = (s.numReqOutstanding != 0) := by
  rw [tlO_dValid]
  cases h with
  | free num reg sram =>
      rw [num, reg, sram.dValid_eq, ite_self]
      rfl
  | register num dev reg =>
      rw [num, dev, if_pos rfl, reg]
      rfl
  | window num dev _ sram =>
      rw [num, dev, if_neg Bool.false_ne_true]
      exact AdapterSram.Busy.dValid_eq sram

/-- The host sees the response that is owed, and nothing else. -/
theorem Mode.shown_eq (h : Mode s) : shown s i = (owed s).head? := by
  rw [shown, h.dValid_eq]
  cases h with
  | free num => simp [owed, num]
  | register num dev => simp [owed, num, dev, of_tlO_reg]
  | window num dev _ sram =>
      rw [of_tlO_win dev sram, owed, num, dev]
      rfl

theorem swRvalid_step :
    (step s i).ram.swRvalid = AdapterSram.reads s.sram (winTl s i) (swMem s i) := by
  rw [AdapterSram.reads, swMem, step, PacketRam.State.swRvalid, PacketRam.step, swReq,
    PacketRam.swGnt, PacketRam.served]
  cases i.usb <;> simp

/-- A read is served with the word that the memory held. -/
theorem swRdata_step (h : AdapterSram.reads s.sram (winTl s i) (swMem s i) = true) :
    (step s i).ram.swRdata = s.ram.mem (AdapterSram.addrO (winTl s i)) := by
  rw [AdapterSram.reads, swMem, PacketRam.swGnt, AdapterSram.memReq] at h
  rw [step, PacketRam.State.swRdata, PacketRam.State.memRdata, PacketRam.step, swReq,
    AdapterSram.memReq]
  cases husb : i.usb with
  | some q => simp [husb] at h
  | none =>
      cases hreq : AdapterSram.reqO s.sram (winTl s i) with
      | false => simp [husb, hreq] at h
      | true =>
          have hread : AdapterSram.weO (winTl s i) = false := by simpa [husb, hreq] using h
          simp [PacketRam.served, hread]

/-! ### One cycle -/

/-- The registers take what is accepted for them. -/
theorem reg_step_of_accept (h : acceptReq s i = true) (hsteer : regSteer i.tl = true) :
    (step s i).reg.outstandingQ = true ∧ owedReg (step s i).reg = answer s.ram.mem i := by
  have hack : AdapterReg.aAck s.reg (regTl s i) (regs s i).busy = true :=
    regAck_eq.trans (by rw [h, hsteer]; rfl)
  have hrd : AdapterReg.rdReq s.reg (regTl s i) (regs s i).busy = (i.tl.aOpcode == get) :=
    rdReq_eq h hsteer
  have hwr : AdapterReg.wrReq s.reg (regTl s i) (regs s i).busy = i.tl.isPut := wrReq_eq h hsteer
  have herr : ((regs s i).error || AdapterReg.errInternal s.reg (regTl s i) (regs s i).busy) =
      refused i.tl := regError_eq h hsteer
  rw [step, AdapterReg.step, if_pos hack, hrd, hwr, herr, regTl_of_accept h hsteer]
  refine ⟨rfl, ?_⟩
  rw [owedReg, answer, readData, hsteer, if_pos rfl]
  cases hget : i.tl.aOpcode == get with
  | false => simp [accessAck, accessAckData]
  | true =>
      cases hrefused : refused i.tl with
      | true => simp [accessAckData]
      | false =>
          rw [refused, Bool.or_eq_false_iff, Bool.or_eq_false_iff] at hrefused
          have hput := isPut_eq hrefused.1.1
          rw [hget] at hput
          simp [accessAckData, hput, regs]

theorem reg_step_of_not_ack (h : (acceptReq s i && regSteer i.tl) = false) :
    (step s i).reg = { s.reg with
      outstandingQ := s.reg.outstandingQ && !AdapterReg.dAck s.reg (regTl s i) } := by
  have hack : AdapterReg.aAck s.reg (regTl s i) (regs s i).busy = false := regAck_eq.trans h
  rw [show (step s i).reg = AdapterReg.step s.reg (regTl s i) (regs s i) from rfl, AdapterReg.step,
    hack, if_neg Bool.false_ne_true]

/-- The memory stays idle without a request for it. -/
theorem idle_step (hidle : AdapterSram.Idle s.sram s.ram.swRvalid)
    (h : (acceptReq s i && !regSteer i.tl) = false) :
    AdapterSram.Idle (step s i).sram (step s i).ram.swRvalid := by
  rw [swRvalid_step]
  exact AdapterSram.Idle.step_of_not_ack hidle (winAck_eq.trans h)

/-- The memory takes what is accepted for it. -/
theorem win_step_of_accept (hi : Keeps s i) (hidle : AdapterSram.Idle s.sram s.ram.swRvalid)
    (h : acceptReq s i = true) (hsteer : regSteer i.tl = false) :
    AdapterSram.Busy (step s i).sram (step s i).ram.swRvalid ∧
      owedWin (step s i).sram (step s i).ram.swRdata = answer s.ram.mem i := by
  have hwin := winTl_of_accept h hsteer
  have hack : AdapterSram.aAck s.sram (winTl s i) (swMem s i) = true :=
    winAck_eq.trans (by rw [h, hsteer]; rfl)
  have hvalid : i.tl.aValid = true := by
    rw [acceptReq, Bool.and_eq_true] at h
    exact h.1
  have hkeeps : s.sram.missedErrGntQ = true → AdapterSram.errorDet (winTl s i) = true := by
    intro hmissed
    rw [hwin, errorDet_eq hsteer]
    exact hi hmissed hvalid hsteer
  obtain ⟨hbusy, hreads⟩ := AdapterSram.Idle.step_of_ack hidle hack hkeeps
  have hstorage := AdapterSram.Idle.storage_of_ack hidle hack
  rw [hwin, errorDet_eq hsteer] at hreads hstorage
  rw [← swRvalid_step] at hbusy
  refine ⟨hbusy, ?_⟩
  rw [owedWin, show (step s i).sram = AdapterSram.step s.sram (winTl s i) (swMem s i) from rfl,
    hwin, hstorage, answer, readData, hsteer, if_neg Bool.false_ne_true]
  cases hget : i.tl.aOpcode == get with
  | false => rfl
  | true =>
      cases hrefused : refused i.tl with
      | true => rfl
      | false =>
          have hread : AdapterSram.reads s.sram (winTl s i) (swMem s i) = true := by
            rw [hwin, hreads, hget, hrefused]
            rfl
          have hmask := AdapterSram.Idle.mask_of_reads hidle hread
          have hempty : (AdapterSram.step s.sram (winTl s i) (swMem s i)).rspfifo.fullQ = false := by
            simp [AdapterSram.step, SingletonFifo.step, SingletonFifo.rvalid, hidle.rspfifo,
              AdapterSram.rspfifoWvalid, swMem, hidle.port]
          rw [swRdata_step hread, AdapterSram.readWord, AdapterSram.addrO]
          rw [hwin] at hempty hmask ⊢
          rw [hempty, hmask, hvalid]
          rfl

theorem Mode.step_of_free (hi : Keeps s i) (num : s.numReqOutstanding = 0)
    (reg : s.reg.outstandingQ = false) (sram : AdapterSram.Idle s.sram s.ram.swRvalid) :
    Mode (RegTop.step s i) ∧
      owed s ++ (accepted s i).toList = (responded s i).toList ++ owed (RegTop.step s i) := by
  have hmode : Mode s := .free num reg sram
  have hrsp : acceptRsp s i = false := by
    rw [acceptRsp, hmode.dValid_eq, num]
    rfl
  have howed : owed s = [] := if_pos num
  rw [howed, responded, hrsp, accepted]
  cases hacc : acceptReq s i with
  | false =>
      have hnum : (RegTop.step s i).numReqOutstanding = 0 := by simp [RegTop.step, hacc, hrsp, num]
      have hreg := reg_step_of_not_ack (s := s) (i := i) (by rw [hacc]; rfl)
      refine ⟨.free hnum ?_ (idle_step sram (by rw [hacc]; rfl)), ?_⟩
      · rw [hreg, reg, Bool.false_and]
      · rw [owed, if_pos hnum]
        rfl
  | true =>
      have hnum : (RegTop.step s i).numReqOutstanding = 1 := by simp [RegTop.step, hacc, hrsp, num]
      have hdev : (RegTop.step s i).devSelectOutstanding = regSteer i.tl := if_pos hacc
      cases hsteer : regSteer i.tl with
      | true =>
          obtain ⟨hout, hanswer⟩ := reg_step_of_accept hacc hsteer
          have hidle := idle_step sram (i := i) (by rw [hacc, hsteer]; rfl)
          refine ⟨.register hnum (hdev.trans hsteer) hout hidle, ?_⟩
          simp [owed, hnum, hdev, hsteer, hanswer]
      | false =>
          obtain ⟨hbusy, hanswer⟩ := win_step_of_accept hi sram hacc hsteer
          have hreg := reg_step_of_not_ack (s := s) (i := i) (by rw [hacc, hsteer]; rfl)
          refine ⟨.window hnum (hdev.trans hsteer) (by rw [hreg, reg, Bool.false_and]) hbusy, ?_⟩
          simp [owed, hnum, hdev, hsteer, hanswer]

theorem Mode.step_of_register (num : s.numReqOutstanding = 1) (dev : s.devSelectOutstanding = true)
    (reg : s.reg.outstandingQ = true) (sram : AdapterSram.Idle s.sram s.ram.swRvalid) :
    Mode (RegTop.step s i) ∧
      owed s ++ (accepted s i).toList = (responded s i).toList ++ owed (RegTop.step s i) := by
  have hmode : Mode s := .register num dev reg sram
  have hacc : acceptReq s i = false := hmode.acceptReq_eq (by simp [num])
  have hidle := idle_step sram (i := i) (by rw [hacc]; rfl)
  have hreg := reg_step_of_not_ack (s := s) (i := i) (by rw [hacc]; rfl)
  rw [regDAck_eq dev, reg, Bool.true_and] at hreg
  have hdev : (RegTop.step s i).devSelectOutstanding = true := by simp [RegTop.step, hacc, dev]
  rw [accepted, hacc, responded]
  cases hrsp : acceptRsp s i with
  | true =>
      have hnum : (RegTop.step s i).numReqOutstanding = 0 := by simp [RegTop.step, hacc, hrsp, num]
      refine ⟨.free hnum (by rw [hreg, hrsp]; rfl) hidle, ?_⟩
      simp [owed, hnum, num, dev, of_tlO_reg dev]
  | false =>
      have hnum : (RegTop.step s i).numReqOutstanding = 1 := by simp [RegTop.step, hacc, hrsp, num]
      refine ⟨.register hnum hdev (by rw [hreg, hrsp]; rfl) hidle, ?_⟩
      simp [owed, hnum, num, dev, hdev, hreg, owedReg]

theorem Mode.step_of_window (num : s.numReqOutstanding = 1) (dev : s.devSelectOutstanding = false)
    (reg : s.reg.outstandingQ = false) (sram : AdapterSram.Busy s.sram s.ram.swRvalid) :
    Mode (RegTop.step s i) ∧
      owed s ++ (accepted s i).toList = (responded s i).toList ++ owed (RegTop.step s i) := by
  have hmode : Mode s := .window num dev reg sram
  have hacc : acceptReq s i = false := hmode.acceptReq_eq (by simp [num])
  have hreg := reg_step_of_not_ack (s := s) (i := i) (by rw [hacc]; rfl)
  rw [reg, Bool.false_and] at hreg
  have hdev : (RegTop.step s i).devSelectOutstanding = false := by simp [RegTop.step, hacc, dev]
  have hport : (RegTop.step s i).ram.swRvalid = false := by
    rw [swRvalid_step, AdapterSram.reads, sram.memReq_eq]
    simp
  have hvalid : (tlO s i).dValid = true := by
    rw [hmode.dValid_eq, num]
    rfl
  rw [accepted, hacc, responded, acceptRsp, hvalid, Bool.true_and]
  cases hready : i.tl.dReady with
  | true =>
      have hrsp : acceptRsp s i = true := by rw [acceptRsp, hvalid, hready]; rfl
      have hnum : (RegTop.step s i).numReqOutstanding = 0 := by simp [RegTop.step, hacc, hrsp, num]
      have hidle : AdapterSram.Idle (AdapterSram.step s.sram (winTl s i) (swMem s i)) false :=
        AdapterSram.Busy.step_of_taken sram hready
      refine ⟨.free hnum (by rw [hreg]) (by rw [hport]; exact hidle), ?_⟩
      simp [owed, hnum, num, dev, of_tlO_win dev sram]
  | false =>
      have hrsp : acceptRsp s i = false := by rw [acceptRsp, hready, Bool.and_false]
      have hnum : (RegTop.step s i).numReqOutstanding = 1 := by simp [RegTop.step, hacc, hrsp, num]
      have hbusy : AdapterSram.Busy (AdapterSram.step s.sram (winTl s i) (swMem s i)) false :=
        AdapterSram.Busy.step_of_kept sram hready
      have hstorage : (AdapterSram.step s.sram (winTl s i) (swMem s i)).reqfifo.storage =
          s.sram.reqfifo.storage := sram.storage_step
      refine ⟨.window hnum hdev (by rw [hreg]) (by rw [hport]; exact hbusy), ?_⟩
      have hdata : owedWin (RegTop.step s i).sram (RegTop.step s i).ram.swRdata =
          owedWin s.sram s.ram.swRdata := by
        rw [owedWin, owedWin, show (RegTop.step s i).sram = AdapterSram.step s.sram (winTl s i)
          (swMem s i) from rfl, hstorage]
        cases hread : s.sram.reqfifo.storage.isRead with
        | false => simp
        | true =>
            cases herror : s.sram.reqfifo.storage.error with
            | true => simp
            | false =>
                have hword : AdapterSram.readWord
                    (AdapterSram.step s.sram (winTl s i) (swMem s i)) (RegTop.step s i).ram.swRdata =
                      AdapterSram.readWord s.sram s.ram.swRdata :=
                  AdapterSram.Busy.readWord_step (m := swMem s i) sram
                    (toDevice_dReady.trans hready) hread herror _
                rw [hword]
      simp [owed, hnum, num, dev, hdev, hdata]

theorem Mode.step (hi : Keeps s i) (h : Mode s) : Mode (RegTop.step s i) ∧
    owed s ++ (accepted s i).toList = (responded s i).toList ++ owed (RegTop.step s i) := by
  cases h with
  | free num reg sram => exact step_of_free hi num reg sram
  | register num dev reg sram => exact step_of_register num dev reg sram
  | window num dev reg sram => exact step_of_window num dev reg sram

/-! ### What software reads and writes -/

/-- The access that a request makes to the memory. -/
def memAccess (tl : H2D) : PacketRam.Req :=
  ⟨tl.isPut, tl.aAddress.extractLsb' 2 9, if tl.isPut then tl.aData else 0⟩

/-- The accesses to the memory: those of the USB side, and otherwise those of accepted requests that
are not refused. -/
def access (s : State) (i : Input) : Option PacketRam.Req :=
  if i.usb.isSome then i.usb
  else if acceptReq s i && !regSteer i.tl && !refused i.tl then some (memAccess i.tl) else none

theorem byteMask_all : AdapterSram.byteMask 0xF = BitVec.allOnes 32 := by decide

theorem memReq_eq (hvalid : tl.aValid = true) (hsteer : regSteer tl = false)
    (hok : refused tl = false) :
    (⟨AdapterSram.weO tl, AdapterSram.addrO tl, AdapterSram.wdataO tl⟩ : PacketRam.Req) =
      memAccess tl := by
  rw [memAccess, AdapterSram.wdataO, AdapterSram.addrO, AdapterSram.weO, hvalid, Bool.true_and]
  cases hput : tl.isPut with
  | false => simp
  | true =>
      rw [refused, hsteer, if_neg Bool.false_ne_true, Bool.or_eq_false_iff] at hok
      have hmask : tl.aMask = 0xF ∧ tl.aSize = 2 := by
        simpa [AdapterSram.wrAttrError, hput] using hok.2
      rw [hmask.1, byteMask_all, BitVec.and_allOnes]
      rfl

/-- An idle memory is asked for what is accepted and not refused. -/
theorem swReq_of_idle (hidle : AdapterSram.Idle s.sram s.ram.swRvalid) (husb : i.usb = none) :
    swReq s i = if acceptReq s i && !regSteer i.tl && !refused i.tl then some (memAccess i.tl)
      else none := by
  have hack : (acceptReq s i && !regSteer i.tl) = (winTl s i).aValid := by
    rw [← winAck_eq, AdapterSram.aAck, AdapterSram.aReady, SingletonFifo.wready,
      SingletonFifo.wready, hidle.reqfifo, hidle.sramreqfifo, swMem, husb]
    simp [PacketRam.swGnt]
  rw [swReq, AdapterSram.memReq, AdapterSram.reqO, SingletonFifo.wready, hidle.reqfifo]
  cases hacc : (acceptReq s i && !regSteer i.tl) with
  | false =>
      rw [← hack, hacc]
      rfl
  | true =>
      have hvalid := hack.symm.trans hacc
      rw [Bool.and_eq_true, Bool.not_eq_true'] at hacc
      have hwin := winTl_of_accept hacc.1 hacc.2
      rw [hwin] at hvalid ⊢
      rw [hvalid, errorDet_eq hacc.2]
      cases hok : refused i.tl with
      | true => rfl
      | false =>
          rw [memReq_eq hvalid hacc.2 hok]
          rfl

theorem Mode.served_eq (h : Mode s) : PacketRam.served i.usb (swReq s i) = access s i := by
  cases husb : i.usb with
  | some q => simp [PacketRam.served, access, husb]
  | none =>
      rw [PacketRam.served, access, husb, if_neg (by simp), if_neg (by simp)]
      cases h with
      | free _ _ sram => exact swReq_of_idle sram husb
      | register _ _ _ sram => exact swReq_of_idle sram husb
      | window num dev reg sram =>
          have hacc : acceptReq s i = false :=
            (Mode.window num dev reg sram).acceptReq_eq (by simp [num])
          rw [swReq, sram.memReq_eq, hacc]
          rfl

/-- A register is written by an accepted write to it that is not refused. -/
theorem writeEnable_eq (s : State) (i : Input) (k : ℕ) : writeEnable s i k =
    (!readOnly.contains k && regHit i k &&
      (acceptReq s i && regSteer i.tl && i.tl.isPut && !refused i.tl)) := by
  rw [writeEnable, regWe, AdapterReg.weO]
  cases hacc : (acceptReq s i && regSteer i.tl) with
  | false =>
      rw [AdapterReg.wrReq, regAck_eq, hacc]
      simp
  | true =>
      rw [Bool.and_eq_true] at hacc
      rw [wrReq_eq hacc.1 hacc.2, ← regError_eq hacc.1 hacc.2]
      cases readOnly.contains k <;> cases regHit i k <;> cases regError s i <;> simp

/-! ### The check of the write enables -/

theorem offsets_nodup : offsets.Nodup := by decide

theorem addrHit_unique {a : BitVec 12} {j k : ℕ} (hj : addrHit a j = true)
    (hk : addrHit a k = true) : j = k := by
  rw [addrHit, beq_iff_eq] at hj hk
  obtain ⟨hlt, -⟩ := List.getElem?_eq_some_iff.1 hj
  exact (List.getElem?_inj hlt offsets_nodup).1 (hj.trans hk.symm)

theorem getLsbD_regWeCheck {k : ℕ} (hk : (regWeCheck s i).getLsbD k = true) :
    k < 43 ∧ writeEnable s i k = true := by
  have hlt := BitVec.lt_of_getLsbD hk
  rw [regWeCheck, Secded.getLsbD_ofBits _ hlt] at hk
  exact ⟨hlt, hk⟩

/-- At most one register is written, and only under a write that has one. -/
theorem regWeErr_eq (s : State) (i : Input) : regWeErr s i = false := by
  rw [regWeErr, Bool.eq_false_iff, ne_eq, onehotErr_iff _ _ _ (by decide)]
  rintro (⟨j, k, hne, hj, hk⟩ | ⟨-, hany⟩ | ⟨hno, -⟩)
  · have hj' := (getLsbD_regWeCheck hj).2
    have hk' := (getLsbD_regWeCheck hk).2
    rw [writeEnable_eq, Bool.and_eq_true, Bool.and_eq_true] at hj' hk'
    exact hne (addrHit_unique hj'.1.2 hk'.1.2)
  · rw [if_neg Bool.false_ne_true] at hany
    obtain ⟨hne, hen⟩ := hany
    refine hne (BitVec.eq_of_getLsbD_eq fun k hk => ?_)
    rw [show BitVec.getLsbD (0 : BitVec 43) k = false by simp, Bool.eq_false_iff]
    intro hset
    obtain ⟨hlt, hwe⟩ := getLsbD_regWeCheck hset
    rw [writeEnable, Bool.and_eq_true, Bool.and_eq_true, Bool.and_eq_true] at hwe
    obtain ⟨-, ⟨hhit, hregwe⟩, -⟩ := hwe
    have hsome : (List.range 43).any (regHit i) = true :=
      List.any_eq_true.2 ⟨k, List.mem_range.2 hlt, hhit⟩
    rw [hregwe, addrmiss, hsome, Bool.not_true, Bool.and_false] at hen
    exact Bool.noConfusion hen
  · exact Bool.false_ne_true hno

/-- A damaged request goes to the registers and is refused there. -/
theorem refused_of_damaged (h : cmdIntgChk tl = true) : regSteer tl = true ∧ refused tl = true := by
  have hsteer : regSteer tl = true := by rw [regSteer, h, Bool.true_or]
  refine ⟨hsteer, ?_⟩
  rw [refused, hsteer, if_pos rfl, refusedReg, h]
  simp

/-! ### A request that waits -/

/-- The host takes the response that is owed, and is free to ask. -/
theorem Mode.num_step (h : Mode s) (hready : i.tl.dReady = true) (hacc : acceptReq s i = false) :
    (RegTop.step s i).numReqOutstanding = 0 := by
  have hrsp : acceptRsp s i = (s.numReqOutstanding != 0) := by
    rw [acceptRsp, h.dValid_eq, hready, Bool.and_true]
  cases h with
  | free num => simp [RegTop.step, hacc, hrsp, num]
  | register num => simp [RegTop.step, hacc, hrsp, num]
  | window num => simp [RegTop.step, hacc, hrsp, num]

theorem Mode.idle (h : Mode s) (hnum : s.numReqOutstanding = 0) :
    s.reg.outstandingQ = false ∧ AdapterSram.Idle s.sram s.ram.swRvalid := by
  cases h with
  | free _ reg sram => exact ⟨reg, sram⟩
  | register num => simp [num] at hnum
  | window num => simp [num] at hnum

theorem hold_of_num (hnum : s.numReqOutstanding = 0) : holdAllRequests s tl = false := by
  rw [holdAllRequests, hnum]
  rfl

/-- A free device accepts a request for a register that is not busy, and one for the memory that
has it, or that is refused and has waited. -/
theorem Mode.acceptReq_of_free (h : Mode s) (hnum : s.numReqOutstanding = 0)
    (hvalid : i.tl.aValid = true) (hfree : if regSteer i.tl then regBusy i = false
      else i.usb = none ∨ s.sram.missedErrGntQ = true) : acceptReq s i = true := by
  obtain ⟨hreg, hidle⟩ := h.idle hnum
  rw [acceptReq, aReady, hvalid, hold_of_num hnum]
  cases hsteer : regSteer i.tl with
  | true =>
      rw [hsteer, if_pos rfl] at hfree
      simp [AdapterReg.aReady, hreg, hfree]
  | false =>
      rw [hsteer, if_neg Bool.false_ne_true] at hfree
      obtain husb | hmissed := hfree
      · simp [AdapterSram.aReady, SingletonFifo.wready, hidle.reqfifo, hidle.sramreqfifo, swMem,
          PacketRam.swGnt, husb]
      · simp [AdapterSram.aReady, SingletonFifo.wready, hidle.reqfifo, hidle.sramreqfifo, hmissed]

/-- A refused request for the memory waits for one cycle. -/
theorem missed_step (hnum : s.numReqOutstanding = 0) (hvalid : i.tl.aValid = true)
    (hacc : acceptReq s i = false) (hsteer : regSteer i.tl = false) (hrefused : refused i.tl = true) :
    (step s i).sram.missedErrGntQ = true := by
  have hselect : devSelect s i.tl false = true := by
    rw [devSelect, hsteer, hold_of_num hnum]
    rfl
  have hwin : winTl s i = i.tl := toDevice_of_select hselect
  rw [acceptReq, aReady, hvalid, hold_of_num hnum, hsteer] at hacc
  have hready : AdapterSram.aReady s.sram (swMem s i) = false := by simpa using hacc
  rw [step, AdapterSram.step, hwin, errorDet_eq hsteer, hrefused, hvalid, hready]
  rfl

/-- The device waits for nothing but its register or the memory. -/
structure Waits (tl : H2D) (s : State) : Prop where
  mode : Mode s
  num : s.numReqOutstanding = 0
  missed : regSteer tl = false → refused tl = true → s.sram.missedErrGntQ = true

theorem Mode.waits_step (h : Mode s) (hnum : s.numReqOutstanding = 0) (hi : Keeps s i)
    (hvalid : i.tl.aValid = true) (hready : i.tl.dReady = true) (hacc : acceptReq s i = false) :
    Waits i.tl (RegTop.step s i) :=
  ⟨(h.step hi).1, h.num_step hready hacc, missed_step hnum hvalid hacc⟩

end

/-! ### Every run -/

/-- A request of the host that is intact. -/
def hostReq (opcode : BitVec 3) (address data : BitVec 32) : H2D :=
  cmdIntgGen ⟨true, opcode, 0, 2, 5, address, 0xF, data, ⟨0, muBi4False, 0, 0⟩, true⟩

/-- The host writes a word of the memory, waits for a cycle in which the USB side reads, and reads
the word. -/
def writeAndRead : List Input :=
  [⟨hostReq putFullData 0x804 0x12345678, 0, false, false, none⟩,
    ⟨hostReq get 0x804 0, 0, false, false, none⟩,
    ⟨hostReq get 0x804 0, 0, false, false, some ⟨false, 0, 0⟩⟩,
    ⟨hostReq get 0x804 0, 0, false, false, none⟩,
    ⟨{ hostReq get 0x804 0 with aValid := false }, 0, false, false, none⟩]

section
variable {req : AdapterSram.Req} {mask : BitVec 4} {rsp : AdapterSram.Rsp}
  {mem : BitVec 9 → BitVec 32} {sramRdata : BitVec 32} {is : List Input}

theorem mode_run (h : Allowed step Keeps (.reset req mask rsp mem sramRdata) is) :
    Mode (run step (.reset req mask rsp mem sramRdata) is) :=
  h.invariant Mode (fun _ _ hi hmode => (hmode.step hi).1) (mode_reset req mask rsp mem sramRdata)

theorem owed_length_le (s : State) : (owed s).length ≤ 1 := by
  rw [owed]
  split_ifs <;> simp

/-- The responses that the host takes are those to the accepted requests, in order and as settled
at their acceptance; at most the last is still owed, and from the cycle after its acceptance on the
host sees it and no other. -/
theorem responses_in_order (h : Allowed step Keeps (.reset req mask rsp mem sramRdata) is) :
    ∃ rest, log step accepted (.reset req mask rsp mem sramRdata) is =
        log step responded (.reset req mask rsp mem sramRdata) is ++ rest ∧
      rest.length ≤ 1 ∧
      ∀ i, shown (run step (.reset req mask rsp mem sramRdata) is) i = rest.head? := by
  have hledger := h.ledger Mode owed (fun _ _ hi hmode => hmode.step hi)
    (mode_reset req mask rsp mem sramRdata)
  exact ⟨_, hledger, owed_length_le _, fun i => (mode_run h).shown_eq⟩

theorem responses_in_order_run :
    ∃ rest, log step accepted (.reset .zero 0 .zero (fun _ => 0) 0) writeAndRead =
        log step responded (.reset .zero 0 .zero (fun _ => 0) 0) writeAndRead ++ rest ∧
      rest.length ≤ 1 ∧
      ∀ i, shown (run step (.reset .zero 0 .zero (fun _ => 0) 0) writeAndRead) i = rest.head? :=
  responses_in_order (by decide +kernel)

/-- The memory is what the writes of the USB side, and the accepted writes of software that are not
refused, have made of it, each once and in order. -/
theorem memory_history (h : Allowed step Keeps (.reset req mask rsp mem sramRdata) is) :
    (run step (.reset req mask rsp mem sramRdata) is).ram.mem =
      (log step access (.reset req mask rsp mem sramRdata) is).foldl
        (fun m q => PacketRam.writeMem m (some q)) mem := by
  have hstep : ∀ s i, Keeps s i → Mode s → Mode (step s i) ∧ (step s i).ram.mem =
      (access s i).toList.foldl (fun m q => PacketRam.writeMem m (some q)) s.ram.mem := by
    intro s i hi hmode
    refine ⟨(hmode.step hi).1, ?_⟩
    rw [show (step s i).ram.mem = PacketRam.writeMem s.ram.mem
      (PacketRam.served i.usb (swReq s i)) from rfl, hmode.served_eq]
    cases access s i <;> rfl
  exact h.foldl (fun s => s.ram.mem) Mode hstep (mode_reset req mask rsp mem sramRdata)

theorem memory_history_run :
    (run step (.reset .zero 0 .zero (fun _ => 0) 0) writeAndRead).ram.mem =
      (log step access (.reset .zero 0 .zero (fun _ => 0) 0) writeAndRead).foldl
        (fun m q => PacketRam.writeMem m (some q)) (fun _ => 0) :=
  memory_history (by decide +kernel)

/-- A request that the host keeps, while it takes responses, is accepted by the third cycle if its
register is not busy then, or the memory is not in use by the USB side, or it is refused anyway;
and else in the first later cycle of which this is true. -/
theorem request_taken {js : List Input} {i : Input} (tl : H2D)
    (h : Allowed step Keeps (.reset req mask rsp mem sramRdata) (is ++ js))
    (htl : ∀ j ∈ js ++ [i], j.tl = tl) (hvalid : tl.aValid = true) (hready : tl.dReady = true)
    (hlen : 2 ≤ js.length) (hfree : if regSteer tl then regBusy i = false
      else i.usb = none ∨ refused tl = true) :
    true ∈ outs step acceptReq (run step (.reset req mask rsp mem sramRdata) is) (js ++ [i]) := by
  by_contra hnever
  have hwaits := allowed_of_outs hnever
  rw [allowed_append] at h
  rw [allowed_concat] at hwaits
  have hmode : Mode (run step (.reset req mask rsp mem sramRdata) is) := mode_run h.1
  generalize run step (.reset req mask rsp mem sramRdata) is = s at h hwaits hmode
  obtain ⟨a, b, js, rfl⟩ : ∃ a b js', js = a :: b :: js' := by
    match js, hlen with
    | a :: b :: js, _ => exact ⟨a, b, js, rfl⟩
  obtain ⟨-, hka, hkb, hkeeps⟩ := h
  obtain ⟨⟨hwa, hwb, hwait⟩, hlast⟩ := hwaits
  have ha : a.tl = tl := htl a (by simp)
  have hi : i.tl = tl := htl i (by simp)
  have hfirst : Mode (step s a) ∧ (step s a).numReqOutstanding = 0 :=
    ⟨(hmode.step hka).1, hmode.num_step (by rw [ha, hready]) hwa⟩
  have hstep : ∀ t j, (Keeps t j ∧ acceptReq t j = false) ∧ j.tl = tl →
      Mode t ∧ t.numReqOutstanding = 0 → Waits tl (step t j) := by
    rintro t j ⟨⟨hk, hacc⟩, rfl⟩ ⟨hm, hnum⟩
    exact hm.waits_step hnum hk hvalid hready hacc
  have hsecond := hstep _ b ⟨⟨hkb, hwb⟩, htl b (by simp)⟩ hfirst
  have hall : Allowed step (fun _ j => j.tl = tl) (step (step s a) b) js :=
    allowed_of_forall step _ fun j hj => htl j (by simp [hj])
  have hlater := ((hkeeps.and hwait).and hall).invariant (Waits tl)
    (fun t j hj ht => hstep t j hj ⟨ht.mode, ht.num⟩) hsecond
  have hacc : acceptReq (run step s (a :: b :: js)) i = true := by
    refine hlater.mode.acceptReq_of_free hlater.num (by rw [hi, hvalid]) ?_
    rw [hi]
    cases hsteer : regSteer tl with
    | true => simpa [hsteer] using hfree
    | false =>
        rw [hsteer, if_neg Bool.false_ne_true] at hfree
        exact hfree.imp_right (hlater.missed hsteer)
  rw [hacc] at hlast
  exact Bool.noConfusion hlast

/-- The USB side has the memory for two cycles. -/
theorem request_taken_run :
    true ∈ outs step acceptReq (run step (.reset .zero 0 .zero (fun _ => 0) 0) [])
      ([⟨hostReq get 0x804 0, 0, false, false, some ⟨false, 0, 0⟩⟩,
        ⟨hostReq get 0x804 0, 0, false, false, some ⟨false, 0, 0⟩⟩] ++
        [⟨hostReq get 0x804 0, 0, false, false, none⟩]) :=
  request_taken (hostReq get 0x804 0) (by decide +kernel) (by decide +kernel) rfl rfl le_rfl
    (by decide +kernel)

/-- The fault that is latched for the alert: it is raised in the cycles from the first damaged
request on and in no other, whatever software does; and a damaged request writes no register and
does not reach the memory. -/
theorem integrity_alert (is : List Input) (i : Input) :
    intgErrO (run step (.reset req mask rsp mem sramRdata) is) i =
        ((is ++ [i]).any fun j => cmdIntgChk j.tl) ∧
      (cmdIntgChk i.tl = true →
        (∀ k, writeEnable (run step (.reset req mask rsp mem sramRdata) is) i k = false) ∧
        swReq (run step (.reset req mask rsp mem sramRdata) is) i = none) := by
  have hlatch : ∀ s : State, (run step s is).errQ = (s.errQ || is.any fun j => cmdIntgChk j.tl) := by
    induction is with
    | nil => simp
    | cons j is ih =>
        intro s
        rw [run_cons, ih, step, regWeErr_eq, List.any_cons, Bool.or_false, Bool.or_assoc]
  constructor
  · rw [intgErrO, regWeErr_eq, hlatch, List.any_append]
    simp [State.reset]
  · intro hdamaged
    obtain ⟨hsteer, hrefused⟩ := refused_of_damaged hdamaged
    generalize run step (.reset req mask rsp mem sramRdata) is = s
    constructor
    · intro k
      rw [writeEnable_eq, hrefused]
      simp
    · have hvalid : (winTl s i).aValid = false := by
        rw [winTl, toDevice_aValid, devSelect, hsteer]
        simp
      rw [swReq, AdapterSram.memReq, AdapterSram.reqO, hvalid]
      rfl

end

end UsbDev.RegTop
