import UsbDev.RxBits

/-!
# The bytes of a data packet

The deserializer of the receiver collects the bits after the identifier of a
data packet and shows each full byte for one cycle. Samples are at least two
cycles apart, so a byte is never overwritten while it is shown.
-/
namespace UsbDev.FsRx

open LineCode Clocked Deserializer

/-- The byte shown in this cycle. -/
def putByte (s : State) : Option (BitVec 8) := if rxDataPut s then some (rxData s) else none

/-- The bits `ps` after the identifier are the bytes `got` shown before and those in the
register: a part of a byte, or the one shown now. -/
def Collected (s : State) (ps : List Bool) (got : List (BitVec 8)) : Prop :=
  (∃ rest, ps = got.flatMap bitsLsb ++ rest ∧ rest.length < 8 ∧ s.rxDataBuffer = collect 8 rest) ∨
    ∃ x, ps = (got ++ [x]).flatMap bitsLsb ∧ lineStateValid s = false ∧ putByte s = some x

/-- The deserializer after the unstuffed bits `us` of a packet. -/
structure Delivers (s : State) (us : List Bool) (got : List (BitVec 8)) : Prop where
  data : pktIsData s = true → Collected s (us.drop 8) got
  other : pktIsData s = false ∨ us.length ≤ 8 → s.rxDataBuffer = sentinel 8 ∧ got = []

variable {s : State} {i : Input} {us : List Bool} {got : List (BitVec 8)}

/-- A part of a byte is not shown. -/
theorem not_put {rest : List Bool} (hlt : rest.length < 8)
    (hbuffer : s.rxDataBuffer = collect 8 rest) : rxDataPut s = false ∧ putByte s = none := by
  have hput : rxDataPut s = false := by
    rw [rxDataPut, hbuffer, collect_full (by omega), decide_eq_false_iff_not]
    omega
  exact ⟨hput, by rw [putByte, hput, if_neg (by decide)]⟩

theorem not_put_sentinel (hbuffer : s.rxDataBuffer = sentinel 8) :
    rxDataPut s = false ∧ putByte s = none := by
  refine not_put (?_ : ([] : List Bool).length < 8) hbuffer
  decide

theorem putByte_of_full {x : BitVec 8} (hbuffer : s.rxDataBuffer = collect 8 (bitsLsb x)) :
    putByte s = some x := by
  have hput : rxDataPut s = true := by
    rw [rxDataPut, hbuffer, collect_full (by simp), decide_eq_true_eq]
    simp
  rw [putByte, hput, if_pos rfl, rxData, hbuffer]
  exact congrArg some (bitsLsb_inj (bitsLsb_collect (by simp)))

/-- A cycle with a sample is followed by one without. -/
theorem not_valid_step (hl : i.linkReset = false) (hv : lineStateValid s = true) :
    lineStateValid (step s i) = false := by
  have hphase : s.bitPhase = 1 := by simpa [lineStateValid] using hv
  have hnext : (step s i).bitPhase = bitPhaseD s i := by simp [step, hl]
  rw [lineStateValid, hnext, bitPhaseD, hphase]
  split_ifs <;> decide

/-- A list of eight bits is a byte. -/
theorem exists_byte {bs : List Bool} (h : bs.length = 8) : ∃ x : BitVec 8, bs = bitsLsb x :=
  ⟨_, (bitsLsb_collect h).symm⟩

theorem step_fullPid_of_complete (hl : i.linkReset = false) (hv : s.packetValid = true)
    (hc : pidComplete s = true) : (step s i).fullPid = s.fullPid := by
  have hstart : packetStart s i = false := packetStart_of_packetValid hv
  simp [step_fullPid s hl, fullPidD, hc, hstart]

namespace Delivers

/-- Without a new bit the byte shown is taken away. -/
theorem hold (h : Delivers s us got) (hl : i.linkReset = false) (hv : s.packetValid = true)
    (hd : dvalid s = false) : Delivers (step s i) us (got ++ (putByte s).toList) := by
  have hstart : packetStart s i = false := packetStart_of_packetValid hv
  have hpid : pktIsData (step s i) = pktIsData s := by
    simp [pktIsData, step_fullPid s hl, fullPidD, hd, hstart]
  have hbuffer : (step s i).rxDataBuffer =
      if rxDataPut s then sentinel 8 else s.rxDataBuffer := by
    rw [step_rxDataBuffer s hl, rxDataBufferD, hd, hstart]
    rfl
  constructor
  case data =>
    intro hdata
    rw [hpid] at hdata
    obtain ⟨rest, hps, hlt, hb⟩ | ⟨x, hps, -, hput⟩ := h.data hdata
    · obtain ⟨hput, hnone⟩ := not_put hlt hb
      rw [hnone, Option.toList_none, List.append_nil]
      exact .inl ⟨rest, hps, hlt, by rw [hbuffer, hput, if_neg (by decide), hb]⟩
    · have hsome : rxDataPut s = true := by
        by_contra hne
        rw [putByte, if_neg hne] at hput
        exact absurd hput (by simp)
      rw [hput, Option.toList_some]
      exact .inl ⟨[], by rw [hps, List.append_nil], by decide,
        by rw [hbuffer, hsome, if_pos rfl]; rfl⟩
  case other =>
    intro hother
    rw [hpid] at hother
    obtain ⟨hb, rfl⟩ := h.other hother
    obtain ⟨hput, hnone⟩ := not_put_sentinel hb
    rw [hnone, hbuffer, hput, if_neg (by decide), hb]
    exact ⟨rfl, rfl⟩

/-- A new bit. -/
theorem push (h : Delivers s us got) (hh : Holds s us) (hl : i.linkReset = false)
    (hv : s.packetValid = true) (hd : dvalid s = true) :
    Delivers (step s i) (us ++ [din s]) (got ++ (putByte s).toList) := by
  have hstart : packetStart s i = false := packetStart_of_packetValid hv
  have hvalid : lineStateValid s = true := by
    simp only [dvalid, dvalidRaw, Bool.and_eq_true] at hd
    exact hd.1.1.2
  have hbuffer : (step s i).rxDataBuffer =
      if pidComplete s && pktIsData s then shiftIn (n := 8) s.rxDataBuffer (din s)
      else if rxDataPut s then sentinel 8 else s.rxDataBuffer := by
    rw [step_rxDataBuffer s hl, rxDataBufferD, hd, hstart]
    rfl
  by_cases hlen : us.length < 8
  · obtain ⟨hb, rfl⟩ := h.other (.inr (by omega))
    have hcomplete : pidComplete s = false := by
      rw [hh.pidComplete_eq, decide_eq_false_iff_not]
      omega
    obtain ⟨hput, hnone⟩ := not_put_sentinel hb
    have hb' : (step s i).rxDataBuffer = sentinel 8 := by
      rw [hbuffer, hcomplete, hput, hb]
      rfl
    have hdrop : (us ++ [din s]).drop 8 = [] := List.drop_of_length_le (by simp; omega)
    rw [hnone]
    exact ⟨fun _ => .inl ⟨[], by rw [hdrop]; rfl, by decide, hb'⟩, fun _ => ⟨hb', rfl⟩⟩
  · have hcomplete : pidComplete s = true := by
      rw [hh.pidComplete_eq, decide_eq_true_eq]
      omega
    have hpid : pktIsData (step s i) = pktIsData s := by
      rw [pktIsData, step_fullPid_of_complete hl hv hcomplete, ← pktIsData]
    have hdrop : (us ++ [din s]).drop 8 = us.drop 8 ++ [din s] := by
      rw [drop_snoc, if_pos (by omega)]
    constructor
    case data =>
      intro hdata
      rw [hpid] at hdata
      rw [hdrop]
      rw [hcomplete, hdata, Bool.and_self, if_pos rfl] at hbuffer
      obtain ⟨rest, hps, hlt, hb⟩ | ⟨x, -, hnot, -⟩ := h.data hdata
      · rw [(not_put hlt hb).2, Option.toList_none, List.append_nil]
        rw [hb, ← collect_snoc] at hbuffer
        by_cases h7 : rest.length < 7
        · exact .inl ⟨rest ++ [din s], by rw [hps, List.append_assoc], by simp; omega, hbuffer⟩
        · obtain ⟨x, hx⟩ := exists_byte (show (rest ++ [din s]).length = 8 by simp; omega)
          rw [hx] at hbuffer
          refine .inr ⟨x, ?_, not_valid_step hl hvalid, putByte_of_full hbuffer⟩
          rw [hps, List.append_assoc, hx, List.flatMap_append, List.flatMap_singleton]
      · exact absurd (hvalid.symm.trans hnot) (by decide)
    case other =>
      rintro (hother | hshort)
      · rw [hpid] at hother
        obtain ⟨hb, rfl⟩ := h.other (.inl hother)
        obtain ⟨hput, hnone⟩ := not_put_sentinel hb
        rw [hnone, hbuffer, hother, hput, hb]
        simp
      · simp only [List.length_append, List.length_singleton] at hshort
        omega

theorem next (h : Delivers s us got) (hh : Holds s us) (hl : i.linkReset = false)
    (hv : s.packetValid = true) :
    Delivers (step s i) (us ++ if dvalid s then [din s] else []) (got ++ (putByte s).toList) := by
  cases hd : dvalid s with
  | false =>
      rw [if_neg (by decide), List.append_nil]
      exact h.hold hl hv hd
  | true => exact h.push hh hl hv hd

end Delivers

end UsbDev.FsRx
