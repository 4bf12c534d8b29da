import UsbDev.PacketRam
import UsbDev.Tlul

/-!
# The bus adapters

`tlul_adapter_reg`, behind which the registers are, and `tlul_adapter_sram`, behind
which the packet buffer is, as this device uses them. Each takes one request at a time
and answers it from the next cycle on, until the host takes the response.
-/
namespace UsbDev

open Tlul

/-! ### The register adapter -/

namespace AdapterReg

/-- The registers of `tlul_adapter_reg` with `AccessLatency = 0`. -/
structure State where
  outstandingQ : Bool
  reqidQ : BitVec 8
  reqszQ : BitVec 2
  rspopQ : BitVec 3
  rdataQ : BitVec 32
  errorQ : Bool
  deriving DecidableEq, Repr

def State.reset : State := ⟨false, 0, 0, accessAck, 0, false⟩

/-- The register interface in the cycle of an access. -/
structure Regs where
  busy : Bool
  rdata : BitVec 32
  error : Bool
  deriving DecidableEq, Repr

def aReady (s : State) (busy : Bool) : Bool := !(s.outstandingQ || busy)

def aAck (s : State) (tl : H2D) (busy : Bool) : Bool := tl.aValid && aReady s busy

def wrReq (s : State) (tl : H2D) (busy : Bool) : Bool := aAck s tl busy && tl.isPut

def rdReq (s : State) (tl : H2D) (busy : Bool) : Bool := aAck s tl busy && tl.aOpcode == get

def addrAlignErr (s : State) (tl : H2D) (busy : Bool) : Bool :=
  wrReq s tl busy && tl.aAddress.extractLsb' 0 2 != 0

/-- Instruction fetches are not enabled, and the command is not checked here. -/
def errInternal (s : State) (tl : H2D) (busy : Bool) : Bool :=
  addrAlignErr s tl busy || tlulErr tl ||
    mubi4TestTrueStrict tl.aUser.instrType && mubi4TestFalseLoose muBi4False

/-- `we_o`. -/
def weO (s : State) (tl : H2D) (busy : Bool) : Bool := wrReq s tl busy && !errInternal s tl busy

/-- `re_o`. -/
def reO (s : State) (tl : H2D) (busy : Bool) : Bool := rdReq s tl busy && !errInternal s tl busy

/-- `addr_o`: always word-aligned. -/
def addrO (tl : H2D) : BitVec 12 := tl.aAddress.extractLsb' 2 10 ++ (0 : BitVec 2)

/-- `tl_o`. -/
def tlO (s : State) (busy : Bool) : D2H where
  aReady := aReady s busy
  dValid := s.outstandingQ
  dOpcode := s.rspopQ
  dParam := 0
  dSize := s.reqszQ
  dSource := s.reqidQ
  dSink := 0
  dData := s.rdataQ
  dUser := ⟨0, 0⟩
  dError := s.errorQ

def dAck (s : State) (tl : H2D) : Bool := s.outstandingQ && tl.dReady

/-- One clock cycle. -/
def step (s : State) (tl : H2D) (regs : Regs) : State :=
  if aAck s tl regs.busy then
    { outstandingQ := true
      reqidQ := tl.aSource
      reqszQ := tl.aSize
      rspopQ := if rdReq s tl regs.busy then accessAckData else accessAck
      rdataQ := if regs.error || errInternal s tl regs.busy || wrReq s tl regs.busy
        then BitVec.allOnes 32 else regs.rdata
      errorQ := regs.error || errInternal s tl regs.busy }
  else { s with outstandingQ := s.outstandingQ && !dAck s tl }

end AdapterReg

/-! ### The FIFO of depth one -/

/-- `prim_fifo_sync` with `Depth = 1`. -/
structure SingletonFifo (α : Type*) where
  fullQ : Bool
  storage : α
  deriving DecidableEq, Repr

namespace SingletonFifo
variable {α : Type*}

def wready (f : SingletonFifo α) : Bool := !f.fullQ

def rvalid (pass : Bool) (f : SingletonFifo α) (wvalid : Bool) : Bool := f.fullQ || pass && wvalid

/-- `rdata_o` with `OutputZeroIfEmpty`. -/
def rdata (pass : Bool) (zero : α) (f : SingletonFifo α) (wvalid : Bool) (wdata : α) : α :=
  if rvalid pass f wvalid then if f.fullQ || !pass then f.storage else wdata else zero

/-- `rdata_o` without `Pass`. -/
def head (zero : α) (f : SingletonFifo α) : α := if f.fullQ then f.storage else zero

def step (pass : Bool) (f : SingletonFifo α) (wvalid : Bool) (wdata : α) (rready : Bool) :
    SingletonFifo α where
  fullQ := if rvalid pass f wvalid then !rready else wvalid
  storage := if wvalid && wready f then wdata else f.storage

end SingletonFifo

/-! ### The memory adapter -/

namespace AdapterSram

/-- `req_t`. -/
structure Req where
  isRead : Bool
  error : Bool
  instrType : BitVec 4
  size : BitVec 2
  source : BitVec 8
  deriving DecidableEq, Repr

def Req.zero : Req := ⟨false, false, 0, 0, 0⟩

/-- `rsp_t`. -/
structure Rsp where
  data : BitVec 32
  dataIntg : BitVec 7
  error : Bool
  deriving DecidableEq, Repr

def Rsp.zero : Rsp := ⟨0, 0, false⟩

/-- The registers of `tlul_adapter_sram` with `Outstanding = 1`; what waits in `u_sramreqfifo` is
the mask of a read. -/
structure State where
  missedErrGntQ : Bool
  reqfifo : SingletonFifo Req
  sramreqfifo : SingletonFifo (BitVec 4)
  rspfifo : SingletonFifo Rsp
  deriving DecidableEq, Repr

/-- Register values under `rst_ni`; the storage of the FIFOs is not reset. -/
def State.reset (req : Req) (mask : BitVec 4) (rsp : Rsp) : State :=
  ⟨false, ⟨false, req⟩, ⟨false, mask⟩, ⟨false, rsp⟩⟩

/-- The read port of the memory. -/
structure Mem where
  gnt : Bool
  rvalid : Bool
  rdata : BitVec 32
  deriving DecidableEq, Repr

/-- The bits of the byte lanes of a mask. -/
def byteMask (mask : BitVec 4) : BitVec 32 := Secded.ofBits 32 fun i => mask.getLsbD (i / 8)

/-- Only whole words are written (`ByteAccess = 0`). -/
def wrAttrError (tl : H2D) : Bool := tl.isPut && (tl.aMask != 0xF || tl.aSize != 2)

def instrError (tl : H2D) : Bool :=
  mubi4TestInvalid tl.aUser.instrType ||
    mubi4TestTrueStrict tl.aUser.instrType && mubi4TestFalseLoose muBi4False

/-- `error_det`. -/
def errorDet (tl : H2D) : Bool := wrAttrError tl || instrError tl || tlulErr tl

variable (s : State) (tl : H2D) (m : Mem)

def aReady : Bool := (m.gnt || s.missedErrGntQ) && s.reqfifo.wready && s.sramreqfifo.wready

def aAck : Bool := tl.aValid && aReady s m

/-- `req_o`. -/
def reqO : Bool := tl.aValid && s.reqfifo.wready && !errorDet tl

/-- `we_o`. -/
def weO : Bool := tl.aValid && tl.isPut

def addrO : BitVec 9 := if tl.aValid then tl.aAddress.extractLsb' 2 9 else 0

def wdataO : BitVec 32 := if weO tl then tl.aData &&& byteMask tl.aMask else 0

def sramAck : Bool := reqO s tl && m.gnt

/-- What the memory is asked for. -/
def memReq : Option PacketRam.Req :=
  if reqO s tl then some ⟨weO tl, addrO tl, wdataO tl⟩ else none

def reqfifoRdata : Req := s.reqfifo.head .zero

def rspfifoWvalid : Bool := m.rvalid && s.reqfifo.fullQ

/-- The mask of the read whose data arrives. -/
def sramReqMask : BitVec 4 := s.sramreqfifo.head 0

def rspfifoWdata : Rsp := ⟨m.rdata &&& byteMask (sramReqMask s), 0, false⟩

def rspfifoRvalid : Bool := s.rspfifo.rvalid true (rspfifoWvalid s m)

def rspfifoRdata : Rsp := s.rspfifo.rdata true .zero (rspfifoWvalid s m) (rspfifoWdata s m)

def dValid : Bool :=
  s.reqfifo.fullQ &&
    ((reqfifoRdata s).error || !(reqfifoRdata s).isRead || rspfifoRvalid s m)

def dError : Bool :=
  s.reqfifo.fullQ && (((reqfifoRdata s).isRead && (rspfifoRdata s m).error) ||
    (reqfifoRdata s).error)

def vldRdRsp : Bool := dValid s m && rspfifoRvalid s m && (reqfifoRdata s).isRead

/-- `DataWhenInstrError` and `DataWhenError`. -/
def blankingData (instrType : BitVec 4) : BitVec 32 :=
  if mubi4TestTrueStrict instrType then 0 else BitVec.allOnes 32

def errorBlankingData : BitVec 32 := blankingData (reqfifoRdata s).instrType

/-- `SecdedInv3932ZeroEcc`. -/
def secdedInv3932ZeroEcc : BitVec 7 := 0x2A

/-- `tl_o`. -/
def tlO : D2H where
  aReady := aReady s m
  dValid := dValid s m
  dOpcode := if dValid s m && !(reqfifoRdata s).isRead then accessAck else accessAckData
  dParam := 0
  dSize := if dValid s m then (reqfifoRdata s).size else 0
  dSource := if dValid s m then (reqfifoRdata s).source else 0
  dSink := 0
  dData := if vldRdRsp s m && !dError s m then (rspfifoRdata s m).data else errorBlankingData s
  dUser :=
    ⟨0, if (reqfifoRdata s).error then getDataIntg (errorBlankingData s)
      else if vldRdRsp s m then (rspfifoRdata s m).dataIntg else secdedInv3932ZeroEcc⟩
  dError := dValid s m && dError s m

def dAck : Bool := dValid s m && tl.dReady

/-- One clock cycle. -/
def step : State where
  missedErrGntQ := errorDet tl && tl.aValid && !aReady s m
  reqfifo := s.reqfifo.step false (aAck s tl m)
    ⟨tl.aOpcode == get, errorDet tl, tl.aUser.instrType, tl.aSize, tl.aSource⟩ (dAck s tl m)
  sramreqfifo := s.sramreqfifo.step false (sramAck s tl m && !weO tl) tl.aMask (rspfifoWvalid s m)
  rspfifo := s.rspfifo.step true (rspfifoWvalid s m) (rspfifoWdata s m)
    ((reqfifoRdata s).isRead && !(reqfifoRdata s).error && dAck s tl m)

/-! ### Phases of an access -/

variable {s : State} {tl : H2D} {m : Mem}

/-- No access is under way; `port` says whether the memory shows data for this side. -/
structure Idle (s : State) (port : Bool) : Prop where
  reqfifo : s.reqfifo.fullQ = false
  sramreqfifo : s.sramreqfifo.fullQ = false
  rspfifo : s.rspfifo.fullQ = false
  port : port = false

/-- An access is under way: one without data, a read whose data the memory shows, or one whose
data waits for the host. -/
inductive Busy (s : State) (port : Bool) : Prop where
  | done (reqfifo : s.reqfifo.fullQ = true)
      (kind : s.reqfifo.storage.error = true ∨ s.reqfifo.storage.isRead = false)
      (sramreqfifo : s.sramreqfifo.fullQ = false) (rspfifo : s.rspfifo.fullQ = false)
      (port : port = false)
  | reading (reqfifo : s.reqfifo.fullQ = true) (error : s.reqfifo.storage.error = false)
      (isRead : s.reqfifo.storage.isRead = true) (sramreqfifo : s.sramreqfifo.fullQ = true)
      (rspfifo : s.rspfifo.fullQ = false) (port : port = true)
  | buffered (reqfifo : s.reqfifo.fullQ = true) (error : s.reqfifo.storage.error = false)
      (isRead : s.reqfifo.storage.isRead = true) (sramreqfifo : s.sramreqfifo.fullQ = false)
      (rspfifo : s.rspfifo.fullQ = true) (ok : s.rspfifo.storage.error = false)
      (port : port = false)

/-- The memory is read in this cycle. -/
def reads (s : State) (tl : H2D) (m : Mem) : Bool := m.gnt && (memReq s tl).any fun q => !q.write

theorem reads_eq : reads s tl m = (sramAck s tl m && !weO tl) := by
  rw [reads, memReq, sramAck]
  cases reqO s tl <;> simp

theorem Busy.reqfifo_full {port : Bool} (h : Busy s port) : s.reqfifo.fullQ = true := by
  cases h with
  | done reqfifo => exact reqfifo
  | reading reqfifo => exact reqfifo
  | buffered reqfifo => exact reqfifo

theorem Busy.reqfifoRdata_eq {port : Bool} (h : Busy s port) :
    reqfifoRdata s = s.reqfifo.storage := by
  rw [reqfifoRdata, SingletonFifo.head, if_pos h.reqfifo_full]

theorem Idle.dValid_eq {port : Bool} (h : Idle s port) : dValid s m = false := by
  rw [dValid, h.reqfifo, Bool.false_and]

/-- An access under way keeps others out, and the memory is not asked. -/
theorem Busy.aReady_eq {port : Bool} (h : Busy s port) : aReady s m = false := by
  rw [aReady, SingletonFifo.wready, h.reqfifo_full]
  simp

theorem Busy.memReq_eq {port : Bool} (h : Busy s port) : memReq s tl = none := by
  rw [memReq, reqO, SingletonFifo.wready, h.reqfifo_full]
  simp

theorem Busy.sramAck_eq {port : Bool} (h : Busy s port) : sramAck s tl m = false := by
  rw [sramAck, reqO, SingletonFifo.wready, h.reqfifo_full]
  simp

theorem Busy.dValid_eq (h : Busy s m.rvalid) : dValid s m = true := by
  rw [dValid, h.reqfifoRdata_eq, h.reqfifo_full]
  cases h with
  | done _ kind =>
      obtain herror | hread := kind
      · rw [herror]
        rfl
      · simp [hread]
  | reading hreq _ hread _ _ hport =>
      simp [hread, rspfifoRvalid, rspfifoWvalid, SingletonFifo.rvalid, hport, hreq]
  | buffered _ _ hread _ hrsp => simp [hread, rspfifoRvalid, SingletonFifo.rvalid, hrsp]

/-- Without a request that is accepted nothing starts. -/
theorem Idle.step_of_not_ack (h : Idle s m.rvalid) (hack : aAck s tl m = false) :
    Idle (step s tl m) (reads s tl m) := by
  have hsram : sramAck s tl m = false := by
    rw [aAck, aReady, SingletonFifo.wready, SingletonFifo.wready, h.reqfifo, h.sramreqfifo] at hack
    rw [sramAck, reqO, SingletonFifo.wready, h.reqfifo]
    cases htl : tl.aValid with
    | false => simp
    | true =>
        have hgnt : m.gnt = false := by simp_all
        rw [hgnt, Bool.and_false]
  have hport := h.port
  refine ⟨?_, ?_, ?_, ?_⟩
  · simp [step, SingletonFifo.step, SingletonFifo.rvalid, h.reqfifo, hack]
  · simp [step, SingletonFifo.step, SingletonFifo.rvalid, h.sramreqfifo, hsram]
  · simp [step, SingletonFifo.step, SingletonFifo.rvalid, h.rspfifo, rspfifoWvalid, hport]
  · rw [reads_eq, hsram, Bool.false_and]

theorem Idle.storage_of_ack (h : Idle s m.rvalid) (hack : aAck s tl m = true) :
    (step s tl m).reqfifo.storage =
      ⟨tl.aOpcode == get, errorDet tl, tl.aUser.instrType, tl.aSize, tl.aSource⟩ := by
  simp [step, SingletonFifo.step, SingletonFifo.wready, hack, h.reqfifo]

theorem Idle.mask_of_reads (h : Idle s m.rvalid) (hreads : reads s tl m = true) :
    (step s tl m).sramreqfifo.storage = tl.aMask := by
  rw [reads_eq] at hreads
  simp [step, SingletonFifo.step, SingletonFifo.wready, hreads, h.sramreqfifo]

/-- A request that is accepted starts an access: one without data, or a read that the memory serves
in the same cycle. -/
theorem Idle.step_of_ack (h : Idle s m.rvalid) (hack : aAck s tl m = true)
    (hkeeps : s.missedErrGntQ = true → errorDet tl = true) :
    Busy (step s tl m) (reads s tl m) ∧
      reads s tl m = (tl.aOpcode == get && !errorDet tl) := by
  have hport := h.port
  have hstorage := h.storage_of_ack hack
  have hready : tl.aValid = true ∧ (m.gnt = true ∨ s.missedErrGntQ = true) := by
    simpa [aAck, aReady, SingletonFifo.wready, h.reqfifo, h.sramreqfifo] using hack
  have hreads : reads s tl m = (tl.aOpcode == get && !errorDet tl) := by
    rw [reads_eq, sramAck, reqO, weO, hready.1, SingletonFifo.wready, h.reqfifo]
    cases herr : errorDet tl with
    | true => simp
    | false =>
        have hgnt : m.gnt = true := by
          obtain hgnt | hmissed := hready.2
          · exact hgnt
          · rw [hkeeps hmissed] at herr
            exact Bool.noConfusion herr
        have hop : tl.isPut = !(tl.aOpcode == get) := by
          rw [errorDet, Bool.or_eq_false_iff] at herr
          exact isPut_eq herr.2
        simp [hgnt, hop]
  have hfull : (step s tl m).reqfifo.fullQ = true := by
    simp [step, SingletonFifo.step, SingletonFifo.rvalid, h.reqfifo, hack]
  have hsramreq : (step s tl m).sramreqfifo.fullQ = reads s tl m := by
    rw [reads_eq]
    simp [step, SingletonFifo.step, SingletonFifo.rvalid, h.sramreqfifo]
  have hrsp : (step s tl m).rspfifo.fullQ = false := by
    simp [step, SingletonFifo.step, SingletonFifo.rvalid, h.rspfifo, rspfifoWvalid, hport]
  refine ⟨?_, hreads⟩
  cases hcase : reads s tl m with
  | true =>
      rw [hreads, Bool.and_eq_true, Bool.not_eq_true'] at hcase
      refine .reading hfull ?_ ?_ ?_ hrsp rfl
      · rw [hstorage, hcase.2]
      · rw [hstorage, hcase.1]
      · rw [hsramreq, hreads, hcase.1, hcase.2]
        rfl
  | false =>
      refine .done hfull ?_ (hsramreq.trans hcase) hrsp rfl
      rw [hreads, Bool.and_eq_false_iff, Bool.not_eq_false'] at hcase
      rw [hstorage]
      exact hcase.symm

/-- The request of an access under way does not change. -/
theorem Busy.storage_step {port : Bool} (h : Busy s port) :
    (step s tl m).reqfifo.storage = s.reqfifo.storage := by
  simp [step, SingletonFifo.step, SingletonFifo.wready, h.reqfifo_full]

/-- An access under way ends when the host takes the response, and not before. -/
theorem Busy.step_of_taken (h : Busy s m.rvalid) (hready : tl.dReady = true) :
    Idle (step s tl m) false := by
  have hack : dAck s tl m = true := by rw [dAck, h.dValid_eq, hready]; rfl
  have hreq := h.reqfifo_full
  have hrdata := h.reqfifoRdata_eq
  have hsram : sramAck s tl m = false := h.sramAck_eq
  refine ⟨?_, ?_, ?_, rfl⟩
  · simp [step, SingletonFifo.step, SingletonFifo.rvalid, hreq, hack]
  · cases h with
    | done _ _ hsramreq =>
        simp [step, SingletonFifo.step, SingletonFifo.rvalid, hsramreq, hsram]
    | reading _ _ _ hsramreq _ hport =>
        simp [step, SingletonFifo.step, SingletonFifo.rvalid, hsramreq, rspfifoWvalid, hport, hreq]
    | buffered _ _ _ hsramreq =>
        simp [step, SingletonFifo.step, SingletonFifo.rvalid, hsramreq, hsram]
  · cases h with
    | done _ _ _ hrsp hport =>
        simp [step, SingletonFifo.step, SingletonFifo.rvalid, hrsp, rspfifoWvalid, hport]
    | reading _ herror hread _ hrsp hport =>
        simp [step, SingletonFifo.step, SingletonFifo.rvalid, hrsp, rspfifoWvalid, hport, hreq,
          herror, hread, hack, hrdata]
    | buffered _ herror hread _ hrsp =>
        simp [step, SingletonFifo.step, SingletonFifo.rvalid, hrsp, herror, hread, hack, hrdata]

theorem Busy.step_of_kept (h : Busy s m.rvalid) (hready : tl.dReady = false) :
    Busy (step s tl m) false := by
  have hack : dAck s tl m = false := by rw [dAck, hready, Bool.and_false]
  have hreq := h.reqfifo_full
  have hrdata := h.reqfifoRdata_eq
  have hsram : sramAck s tl m = false := h.sramAck_eq
  have hfull : (step s tl m).reqfifo.fullQ = true := by
    simp [step, SingletonFifo.step, SingletonFifo.rvalid, hreq, hack]
  have hstorage : (step s tl m).reqfifo.storage = s.reqfifo.storage := h.storage_step
  cases h with
  | done _ kind hsramreq hrsp hport =>
      refine .done hfull (by rw [hstorage]; exact kind) ?_ ?_ rfl
      · simp [step, SingletonFifo.step, SingletonFifo.rvalid, hsramreq, hsram]
      · simp [step, SingletonFifo.step, SingletonFifo.rvalid, hrsp, rspfifoWvalid, hport]
  | reading _ herror hread hsramreq hrsp hport =>
      refine .buffered hfull (by rw [hstorage, herror]) (by rw [hstorage, hread]) ?_ ?_ ?_ rfl
      · simp [step, SingletonFifo.step, SingletonFifo.rvalid, hsramreq, rspfifoWvalid, hport, hreq]
      · simp [step, SingletonFifo.step, SingletonFifo.rvalid, hrsp, rspfifoWvalid, hport, hreq,
          hack]
      · simp [step, SingletonFifo.step, SingletonFifo.wready, hrsp, rspfifoWvalid, hport, hreq,
          rspfifoWdata]
  | buffered _ herror hread hsramreq hrsp hok hport =>
      refine .buffered hfull (by rw [hstorage, herror]) (by rw [hstorage, hread]) ?_ ?_ ?_ rfl
      · simp [step, SingletonFifo.step, SingletonFifo.rvalid, hsramreq, hsram]
      · simp [step, SingletonFifo.step, SingletonFifo.rvalid, hrsp, hack]
      · simp [step, SingletonFifo.step, SingletonFifo.wready, hrsp, hok]

/-- The data of a read under way: what the memory shows, or what waits. -/
def readWord (s : State) (rdata : BitVec 32) : BitVec 32 :=
  if s.rspfifo.fullQ then s.rspfifo.storage.data else rdata &&& byteMask s.sramreqfifo.storage

/-- The data of a read stays what it was while the host does not take it. -/
theorem Busy.readWord_step (h : Busy s m.rvalid) (hready : tl.dReady = false)
    (hread : s.reqfifo.storage.isRead = true) (herror : s.reqfifo.storage.error = false)
    (rdata : BitVec 32) : readWord (step s tl m) rdata = readWord s m.rdata := by
  have hack : dAck s tl m = false := by rw [dAck, hready, Bool.and_false]
  have hreq := h.reqfifo_full
  cases h with
  | done _ kind => simp [hread, herror] at kind
  | reading _ _ _ hsramreq hrsp hport =>
      simp [readWord, step, SingletonFifo.step, SingletonFifo.rvalid, SingletonFifo.wready, hrsp,
        rspfifoWvalid, hport, hreq, hack, rspfifoWdata, sramReqMask, SingletonFifo.head, hsramreq]
  | buffered _ _ _ _ hrsp =>
      simp [readWord, step, SingletonFifo.step, SingletonFifo.rvalid, SingletonFifo.wready, hrsp,
        hack]

end AdapterSram

end UsbDev
