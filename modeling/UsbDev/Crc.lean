import UsbDev.LineCode

/-!
# Cyclic redundancy checks

The shift register of a CRC of any width, fed most significant bit first. The
register is linear in its contents, so a message followed by the complement of
its CRC always leaves the same residue.
-/
namespace UsbDev.Crc

variable {w : ℕ}

/-- One bit into the register with polynomial `poly`. -/
def step (poly crc : BitVec w) (b : Bool) : BitVec w :=
  (crc <<< 1) ^^^ (if b ^^ crc.msb then poly else 0)

/-- The register after a list of bits. -/
def run (poly crc : BitVec w) (bs : List Bool) : BitVec w := bs.foldl (step poly) crc

theorem run_append (poly crc : BitVec w) (as bs : List Bool) :
    run poly crc (as ++ bs) = run poly (run poly crc as) bs := List.foldl_append

/-- Adding `x` to the register and its top bit to the input shifts `x` out. -/
theorem step_xor (poly x y : BitVec w) (b : Bool) :
    step poly (x ^^^ y) (b ^^ x.msb) = (x <<< 1) ^^^ step poly y b := by
  have hbit : (b ^^ x.msb ^^ (x ^^^ y).msb) = (b ^^ y.msb) := by
    rw [BitVec.msb_xor]
    cases b <;> cases x.msb <;> cases y.msb <;> rfl
  simp only [step, hbit, BitVec.shiftLeft_xor_distrib, BitVec.xor_assoc]

/-- The complement of the top bits of `x` shifts `x` out of the register. -/
theorem run_complement (poly x y : BitVec w) (n : ℕ) :
    run poly (x ^^^ y) ((List.range n).map fun k => !x.getMsbD k) =
      (x <<< n) ^^^ run poly y (List.replicate n true) := by
  induction n generalizing x y with
  | zero => simp [run]
  | succ n ih =>
      have hfirst : step poly (x ^^^ y) (!x.getMsbD 0) = (x <<< 1) ^^^ step poly y true := by
        rw [← step_xor, BitVec.msb, Bool.true_xor]
      have hrest : (List.range n).map (fun k => !x.getMsbD (k + 1)) =
          (List.range n).map fun k => !(x <<< 1).getMsbD k := by
        simp [BitVec.getMsbD_shiftLeft]
      rw [List.range_succ_eq_map, List.map_cons, List.map_map, List.replicate_succ]
      change run poly (step poly (x ^^^ y) (!x.getMsbD 0))
        ((List.range n).map fun k => !x.getMsbD (k + 1)) = _
      rw [hfirst, hrest, ih, ← BitVec.shiftLeft_add, Nat.add_comm 1 n]
      rfl

/-- What a message followed by its complemented CRC leaves in the register. -/
def residue (poly : BitVec w) : BitVec w := run poly 0#w (List.replicate w true)

theorem run_bitsMsb_not (poly crc : BitVec w) :
    run poly crc (LineCode.bitsMsb (~~~crc)) = residue poly := by
  have hbits : LineCode.bitsMsb (~~~crc) = (List.range w).map fun k => !crc.getMsbD k := by
    refine List.map_congr_left fun k hk => ?_
    have := List.mem_range.1 hk
    simp [this]
  have hrun := run_complement poly crc 0#w w
  rw [BitVec.xor_zero] at hrun
  rw [hbits, hrun, BitVec.shiftLeft_eq_zero (Nat.le_refl w), BitVec.zero_xor, residue]

/-! ### The last bits are determined -/

/-- Two registers equal in all but their top `k` bits after a step fed the same bit back, and were
equal in all but their top `k + 1` bits. -/
theorem step_shiftLeft_inj {poly x y : BitVec w} (hlsb : poly.getLsbD 0 = true) {b c : Bool} {k : ℕ}
    (hk : k < w) (h : step poly x b <<< k = step poly y c <<< k) :
    (b ^^ x.msb) = (c ^^ y.msb) ∧ x <<< (k + 1) = y <<< (k + 1) := by
  have hfeed : ∀ (z : BitVec w) (d : Bool), (step poly z d <<< k).getLsbD k = (d ^^ z.msb) := by
    intro z d
    have hw : 0 < w := by omega
    simp only [step, BitVec.getLsbD_shiftLeft, BitVec.getLsbD_xor, hk]
    cases d ^^ z.msb <;> simp [hlsb, hw]
  have heq : (b ^^ x.msb) = (c ^^ y.msb) := by rw [← hfeed x b, ← hfeed y c, h]
  refine ⟨heq, ?_⟩
  simp only [step, heq, BitVec.shiftLeft_xor_distrib, ← BitVec.shiftLeft_add] at h
  rw [Nat.add_comm k 1]
  exact (BitVec.xor_left_inj _).1 h

/-- From one register, two lists of bits no longer than it that leave the same contents are
equal. -/
theorem run_inj {poly x : BitVec w} (hlsb : poly.getLsbD 0 = true) {bs cs : List Bool}
    (hlen : bs.length = cs.length) (hw : bs.length ≤ w) (h : run poly x bs = run poly x cs) :
    bs = cs := by
  have hshift : ∀ k, k + bs.length ≤ w → run poly x bs <<< k = run poly x cs <<< k → bs = cs := by
    clear h hw
    induction bs using List.reverseRecOn generalizing cs with
    | nil =>
        intro _ _ _
        exact (List.length_eq_zero_iff.1 hlen.symm).symm
    | append_singleton bs b ih =>
        intro k hk h
        obtain rfl | ⟨cs, c, rfl⟩ := List.eq_nil_or_concat' cs
        · simp at hlen
        · simp only [List.length_append, List.length_singleton, Nat.add_right_cancel_iff] at hlen hk
          rw [run_append, run_append] at h
          obtain ⟨hfeed, hrest⟩ := step_shiftLeft_inj hlsb (by omega) h
          obtain rfl := ih hlen (k + 1) (by omega) hrest
          rw [Bool.xor_left_inj] at hfeed
          rw [hfeed]
  exact hshift 0 (by omega) (by rw [h])

/-- The residue is left by the complement of the CRC and by nothing else of its length. -/
theorem run_eq_residue_iff {poly : BitVec w} (hlsb : poly.getLsbD 0 = true) (crc : BitVec w)
    {cs : List Bool} (hlen : cs.length = w) :
    run poly crc cs = residue poly ↔ cs = LineCode.bitsMsb (~~~crc) := by
  rw [← run_bitsMsb_not poly crc]
  constructor
  · exact run_inj hlsb (by simp [hlen]) (Nat.le_of_eq hlen)
  · rintro rfl
    rfl

end UsbDev.Crc
