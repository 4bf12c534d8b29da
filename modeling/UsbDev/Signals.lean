import Mathlib.Algebra.CharZero.Defs
import Mathlib.Data.Fin.Basic
import Mathlib.Data.ZMod.Defs

/-!
# Packet identifiers and the receiver interface

The four-bit packet identifiers of `usb_consts_pkg` and the bundle of signals
that the receiver presents to both protocol engines.
-/
namespace UsbDev

/-- `UsbPidTypeToken`: the two low bits of every token identifier. -/
def usbPidTypeToken : BitVec 2 := 0b01#2

def usbPidOut : BitVec 4 := 0b0001#4
def usbPidIn : BitVec 4 := 0b1001#4
def usbPidSof : BitVec 4 := 0b0101#4
def usbPidSetup : BitVec 4 := 0b1101#4
def usbPidData0 : BitVec 4 := 0b0011#4
def usbPidData1 : BitVec 4 := 0b1011#4
def usbPidAck : BitVec 4 := 0b0010#4
def usbPidNak : BitVec 4 := 0b1010#4
def usbPidStall : BitVec 4 := 0b1110#4
def usbPidPre : BitVec 4 := 0b1100#4

/-- The packet type: the two low bits of the identifier. -/
def pidType (pid : BitVec 4) : BitVec 2 := pid.extractLsb' 0 2

/-- The receiver's outputs that the protocol engines read in one cycle. -/
structure RxSignals where
  pktStart : Bool
  pktEnd : Bool
  pktValid : Bool
  pid : BitVec 4
  addr : BitVec 7
  endp : BitVec 4
  dataPut : Bool
  data : BitVec 8
  deriving DecidableEq, Repr

/-- No packet event and no byte strobe. -/
def RxSignals.quiet (rx : RxSignals) : Bool := !rx.pktStart && !rx.pktEnd && !rx.dataPut

/-- `ep_in_hw`: the addressed endpoint is one of the `N` implemented ones. -/
def RxSignals.epInHw (N : ℕ) (rx : RxSignals) : Bool := decide (rx.endp.toNat < N)

/-- `out_ep_current_d` and `in_ep_current_d`: the addressed endpoint, or endpoint 0
when it is not implemented. -/
def RxSignals.epCurrentD {N : ℕ} [NeZero N] (rx : RxSignals) : Fin N :=
  if h : rx.endp.toNat < N then ⟨rx.endp.toNat, h⟩ else 0

/-- `token_received`: a valid token for the device address ends in this cycle. -/
def RxSignals.tokenReceived (rx : RxSignals) (devAddr : BitVec 7) : Bool :=
  rx.pktEnd && rx.pktValid && pidType rx.pid == usbPidTypeToken && rx.addr == devAddr

/-- `data_packet_received`: a valid DATA0 or DATA1 packet ends in this cycle. -/
def RxSignals.dataPacketReceived (rx : RxSignals) : Bool :=
  rx.pktEnd && rx.pktValid && (rx.pid == usbPidData0 || rx.pid == usbPidData1)

namespace RxSignals

@[simp] theorem tokenReceived_of_not_end (rx : RxSignals) (d : BitVec 7)
    (h : rx.pktEnd = false) : rx.tokenReceived d = false := by simp [tokenReceived, h]

@[simp] theorem dataPacketReceived_of_not_end (rx : RxSignals) (h : rx.pktEnd = false) :
    rx.dataPacketReceived = false := by simp [dataPacketReceived, h]

theorem pktEnd_of_tokenReceived {rx : RxSignals} {d : BitVec 7}
    (h : rx.tokenReceived d = true) : rx.pktEnd = true := by
  simp only [tokenReceived, Bool.and_eq_true] at h
  exact h.1.1.1

/-- A token is not a data packet. -/
theorem dataPacketReceived_of_tokenReceived {rx : RxSignals} {d : BitVec 7}
    (h : rx.tokenReceived d = true) : rx.dataPacketReceived = false := by
  simp only [tokenReceived, Bool.and_eq_true, beq_iff_eq] at h
  obtain ⟨⟨_, ht⟩, _⟩ := h
  have h0 : rx.pid ≠ usbPidData0 := by rintro hp; rw [hp] at ht; revert ht; decide
  have h1 : rx.pid ≠ usbPidData1 := by rintro hp; rw [hp] at ht; revert ht; decide
  simp [dataPacketReceived, h0, h1]

theorem epCurrentD_of_lt {N : ℕ} [NeZero N] (rx : RxSignals) (h : rx.endp.toNat < N) :
    rx.epCurrentD = (⟨rx.endp.toNat, h⟩ : Fin N) := by simp [epCurrentD, h]

/-- The receiver names the implemented endpoint `e`. -/
theorem epCurrentD_eq {N : ℕ} [NeZero N] {rx : RxSignals} {e : Fin N}
    (h : rx.endp.toNat = e.val) : rx.epCurrentD = e := by
  have hlt : rx.endp.toNat < N := by omega
  rw [epCurrentD_of_lt rx hlt]
  exact Fin.ext h

theorem epInHw_of_eq {N : ℕ} {rx : RxSignals} {e : Fin N} (h : rx.endp.toNat = e.val) :
    rx.epInHw N = true := by
  have := e.isLt
  simp [epInHw]
  omega

theorem epInHw_iff {N : ℕ} (rx : RxSignals) : rx.epInHw N = true ↔ rx.endp.toNat < N := by
  simp [epInHw]

end RxSignals

/-! ### Signals that say the same -/

/-- The signals of two receivers that report the same packets. The start of a packet is left out,
and so is the validity when no packet ends. -/
structure RxSignals.Agree (rx rx' : RxSignals) : Prop where
  pktEnd : rx.pktEnd = rx'.pktEnd
  pktValid : rx.pktEnd = true → rx.pktValid = rx'.pktValid
  pid : rx.pid = rx'.pid
  addr : rx.addr = rx'.addr
  endp : rx.endp = rx'.endp
  dataPut : rx.dataPut = rx'.dataPut
  data : rx.data = rx'.data

namespace RxSignals.Agree

theorem refl (rx : RxSignals) : rx.Agree rx := ⟨rfl, fun _ => rfl, rfl, rfl, rfl, rfl, rfl⟩

variable {rx rx' : RxSignals} (h : rx.Agree rx')
include h

theorem valid_eq : (rx.pktEnd && rx.pktValid) = (rx'.pktEnd && rx'.pktValid) := by
  rw [← h.pktEnd]
  cases he : rx.pktEnd with
  | false => rfl
  | true => rw [h.pktValid he]

theorem invalid_eq : (rx.pktEnd && !rx.pktValid) = (rx'.pktEnd && !rx'.pktValid) := by
  rw [← h.pktEnd]
  cases he : rx.pktEnd with
  | false => rfl
  | true => rw [h.pktValid he]

theorem tokenReceived_eq (d : BitVec 7) : rx.tokenReceived d = rx'.tokenReceived d := by
  rw [tokenReceived, tokenReceived, h.valid_eq, h.pid, h.addr]

theorem dataPacketReceived_eq : rx.dataPacketReceived = rx'.dataPacketReceived := by
  rw [dataPacketReceived, dataPacketReceived, h.valid_eq, h.pid]

theorem epInHw_eq (N : ℕ) : rx.epInHw N = rx'.epInHw N := by
  rw [epInHw, epInHw, h.endp]

theorem epCurrentD_eq {N : ℕ} [NeZero N] : (rx.epCurrentD : Fin N) = rx'.epCurrentD := by
  simp only [epCurrentD, h.endp]

end RxSignals.Agree

end UsbDev
