import ArmRx.A64.Decode

/-!
# Arithmetic of the bit-field operations

What the mask, insert, extract and sign-extension operations compute, as
numbers or bit by bit.
-/

namespace ArmRx.A64

/-! ## Bits -/

theorem getLsbD_ones {w k : Nat} (hk : k < w) (i : Nat) :
    ((1#w <<< k) - 1#w).getLsbD i = decide (i < k) := by
  have hPow : 2 ^ k < 2 ^ w := Nat.pow_lt_pow_right (by omega) hk
  have hPos := Nat.two_pow_pos k
  have hShift : (1#w <<< k).toNat = 2 ^ k := by
    rw [BitVec.toNat_shiftLeft, BitVec.toNat_ofNat,
      Nat.mod_eq_of_lt (Nat.lt_of_le_of_lt hPos hPow), Nat.one_shiftLeft, Nat.mod_eq_of_lt hPow]
  have hOne : (1#w).toNat = 1 := by rw [BitVec.toNat_ofNat, Nat.mod_eq_of_lt (by omega)]
  rw [← BitVec.testBit_toNat, BitVec.toNat_sub_of_le (by rw [BitVec.le_def, hShift, hOne]; omega),
    hShift, hOne, Nat.testBit_two_pow_sub_one]

theorem getLsbD_insertField (d n : BitVec 64) {lsb width i : Nat} (hWidth : width < 64)
    (hi : i < 64) :
    (insertField d n lsb width).getLsbD i =
      if lsb ≤ i ∧ i < lsb + width then n.getLsbD (i - lsb) else d.getLsbD i := by
  have hMask : (((1#64 <<< width) - 1) <<< lsb).getLsbD i =
      decide (lsb ≤ i ∧ i < lsb + width) := by
    rw [BitVec.getLsbD_shiftLeft, BitVec.ofNat_eq_ofNat, getLsbD_ones hWidth]
    simp only [hi, decide_true, Bool.true_and, ← decide_not, ← Bool.decide_and]
    congr 1
    exact propext ⟨fun h => by omega, fun h => by omega⟩
  rw [insertField, BitVec.getLsbD_or, BitVec.getLsbD_and, BitVec.getLsbD_and, BitVec.getLsbD_not,
    hMask, BitVec.getLsbD_shiftLeft]
  by_cases h : lsb ≤ i ∧ i < lsb + width
  · simp [h, hi, Nat.not_lt.mpr h.1]
  · simp [h, hi]

/-- `movk` of the low half. -/
theorem insertField_low_toNat (d n : BitVec 64) :
    (insertField d n 0 16).toNat = d.toNat / 2 ^ 16 * 2 ^ 16 + n.toNat % 2 ^ 16 := by
  apply Nat.eq_of_testBit_eq
  intro i
  rw [BitVec.testBit_toNat, Nat.mul_comm, Nat.testBit_two_pow_mul_add _ (Nat.mod_lt _ (by omega))]
  by_cases hi : i < 64
  · rw [getLsbD_insertField _ _ (by omega) hi]
    by_cases h : i < 16
    · rw [if_pos ⟨Nat.zero_le i, by omega⟩, if_pos h, Nat.testBit_mod_two_pow,
        BitVec.testBit_toNat]
      simp [h]
    · rw [if_neg (by omega), if_neg h, Nat.testBit_div_two_pow, show i - 16 + 16 = i by omega,
        BitVec.testBit_toNat]
  · rw [BitVec.getLsbD_of_ge _ _ (by omega), if_neg (by omega), Nat.testBit_div_two_pow,
      show i - 16 + 16 = i by omega, BitVec.testBit_toNat, BitVec.getLsbD_of_ge _ _ (by omega)]

/-! ## Sign extension -/

theorem signExtend_toNat (x : BitVec 32) :
    (x.signExtend 64).toNat =
      if 2 ^ 31 ≤ x.toNat then x.toNat + (2 ^ 64 - 2 ^ 32) else x.toNat := by
  rw [BitVec.toNat_signExtend, BitVec.toNat_setWidth, BitVec.msb_eq_decide]
  have := x.isLt
  simp only [decide_eq_true_eq]
  split <;> omega

theorem toNat_lt_of_not_msb {x : BitVec 32} (h : ¬ x.msb = true) : x.toNat < 2 ^ 31 := by
  rw [BitVec.msb_eq_decide] at h
  simpa using h

theorem le_toNat_of_msb {x : BitVec 32} (h : x.msb = true) : 2 ^ 31 ≤ x.toNat := by
  rw [BitVec.msb_eq_decide] at h
  simpa using h

theorem setWidth_eq_signExtend {x : BitVec 32} (h : x.toNat < 2 ^ 31) :
    x.setWidth 64 = x.signExtend 64 := by
  apply BitVec.eq_of_toNat_eq
  rw [signExtend_toNat, if_neg (by omega), BitVec.toNat_setWidth]
  omega

/-- Negation commutes with sign extension but for the smallest integer. -/
theorem signExtend_neg {x : BitVec 32} (h : x ≠ 0x80000000) :
    (-x).signExtend 64 = -x.signExtend 64 := by
  have hNe : x.toNat ≠ 2 ^ 31 := fun hEq => h (BitVec.eq_of_toNat_eq hEq)
  have hLt := x.isLt
  apply BitVec.eq_of_toNat_eq
  rw [signExtend_toNat, BitVec.toNat_neg, BitVec.toNat_neg, signExtend_toNat]
  split <;> split <;> omega

/-- `movn` of the complemented high half, then `movk` of the low half. -/
theorem halves_signExtend_neg {x : BitVec 32} (h : x.msb = true) :
    insertField (~~~(((~~~x >>> 16).setWidth 16).setWidth 64 <<< 16))
      (((x &&& 0xFFFF).setWidth 16).setWidth 64) 0 16 = x.signExtend 64 := by
  have hMsb := le_toNat_of_msb h
  have hLt := x.isLt
  have hLow : (x &&& 0xFFFF).toNat = x.toNat % 2 ^ 16 := by
    rw [BitVec.toNat_and]
    exact Nat.and_two_pow_sub_one_eq_mod _ 16
  apply BitVec.eq_of_toNat_eq
  rw [insertField_low_toNat, signExtend_toNat, if_pos hMsb, BitVec.toNat_not,
    BitVec.toNat_shiftLeft, BitVec.toNat_setWidth, BitVec.toNat_setWidth, BitVec.toNat_setWidth,
    BitVec.toNat_setWidth, BitVec.toNat_ushiftRight, BitVec.toNat_not, hLow,
    Nat.shiftRight_eq_div_pow, Nat.shiftLeft_eq]
  omega

/-- `movz` of the high half, then `movk` of the low half. -/
theorem halves_signExtend_nonneg {x : BitVec 32} (h : ¬ x.msb = true) :
    insertField (((x >>> 16).setWidth 16).setWidth 64 <<< 16)
      (((x &&& 0xFFFF).setWidth 16).setWidth 64) 0 16 = x.signExtend 64 := by
  have hMsb := toNat_lt_of_not_msb h
  have hLow : (x &&& 0xFFFF).toNat = x.toNat % 2 ^ 16 := by
    rw [BitVec.toNat_and]
    exact Nat.and_two_pow_sub_one_eq_mod _ 16
  apply BitVec.eq_of_toNat_eq
  rw [insertField_low_toNat, signExtend_toNat, if_neg (by omega), BitVec.toNat_shiftLeft,
    BitVec.toNat_setWidth, BitVec.toNat_setWidth, BitVec.toNat_setWidth, BitVec.toNat_setWidth,
    BitVec.toNat_ushiftRight, hLow, Nat.shiftRight_eq_div_pow, Nat.shiftLeft_eq]
  omega

/-- The two immediates of an `add` pair. -/
theorem addends_signExtend {x : BitVec 32} (h : x.toNat < 2 ^ 24) :
    x.signExtend 64 = (x &&& 0xFFF).setWidth 64 + (x >>> 12).setWidth 64 <<< 12 := by
  have hLow : (x &&& 0xFFF).toNat = x.toNat % 2 ^ 12 := by
    rw [BitVec.toNat_and]
    exact Nat.and_two_pow_sub_one_eq_mod _ 12
  apply BitVec.eq_of_toNat_eq
  rw [signExtend_toNat, if_neg (by omega), BitVec.toNat_add, BitVec.toNat_shiftLeft,
    BitVec.toNat_setWidth, BitVec.toNat_setWidth, hLow, BitVec.toNat_ushiftRight,
    Nat.shiftRight_eq_div_pow, Nat.shiftLeft_eq]
  omega

/-! ## Masks -/

theorem and_lowMask_toNat (x : BitVec 32) {n : Nat} (hn : n ≤ 31) :
    (x &&& u32 (2 ^ n - 1)).toNat = x.toNat % 2 ^ n := by
  have hPow : 2 ^ n ≤ 2 ^ 31 := Nat.pow_le_pow_right (by omega) hn
  rw [BitVec.toNat_and, u32_toNat (by omega), Nat.and_two_pow_sub_one_eq_mod]

/-- The mask of an address: `n` ones above three zeros. -/
theorem and_alignedMask_toNat {w : Nat} (x : BitVec w) (n : Nat) (hn : n + 3 < w) :
    (x &&& BitVec.ofNat w ((2 ^ n - 1) * 8)).toNat = x.toNat % 2 ^ (n + 3) / 8 * 8 := by
  have hLt : (2 ^ n - 1) * 8 < 2 ^ w := by
    have : 2 ^ (n + 3) < 2 ^ w := Nat.pow_lt_pow_right (by omega) hn
    rw [Nat.pow_add] at this
    omega
  rw [BitVec.toNat_and, BitVec.toNat_ofNat, Nat.mod_eq_of_lt hLt]
  apply Nat.eq_of_testBit_eq
  intro i
  rw [show (8 : Nat) = 2 ^ 3 from rfl, Nat.testBit_and, Nat.testBit_mul_two_pow,
    Nat.testBit_mul_two_pow, Nat.testBit_div_two_pow, Nat.testBit_mod_two_pow,
    Nat.testBit_two_pow_sub_one]
  by_cases h3 : 3 ≤ i
  · simp only [h3, decide_true, Bool.true_and, show i - 3 + 3 = i by omega]
    by_cases hIn : i < n + 3
    · simp [hIn, show i - 3 < n by omega]
    · simp [hIn, show ¬ i - 3 < n by omega]
  · simp [h3]

/-! ## Register operations -/

namespace RegOp

/-- The operations on general-purpose registers. -/
def isInteger : RegOp → Bool
  | add | sub | eor | orr | mul | umulh | smulh | ror => true
  | _ => false

/-- What an operation on general-purpose registers computes. -/
def value (o : RegOp) (a b : BitVec 64) : BitVec 64 :=
  match o with
  | add => a + b
  | sub => a - b
  | eor => a ^^^ b
  | orr => a ||| b
  | mul => a * b
  | umulh => umulhi a b
  | smulh => smulhi a b
  | ror => a.rotateRight (b.toNat % 64)
  | _ => 0

theorem exec_insn {o : RegOp} (h : o.isInteger = true) (fu : FloatUnit) (code : Code)
    (d n m : Nat) (s : State) :
    exec fu code (o.insn d n m) s = (s.setX d (o.value (s.getX n) (s.getX m))).next := by
  cases o <;> simp only [isInteger, Bool.false_eq_true] at h
  case mul => simp [insn, exec, value, State.getX]
  case add | sub => simp [insn, exec, value]
  all_goals rfl

theorem insn_straight (o : RegOp) (d n m : Nat) : (o.insn d n m).straight = true := by
  cases o <;> rfl

end RegOp

/-! ## Lanes -/

/-- The 32-bit lanes of a vector loaded from four words. -/
theorem laneS_pack (w : Nat → BitVec 32) {k : Nat} (hk : k < 4) :
    laneS (packD (w 1 ++ w 0) (w 3 ++ w 2)) k = w k := by
  apply BitVec.eq_of_getLsbD_eq
  intro i hi
  rw [laneS, packD, BitVec.getLsbD_extractLsb', BitVec.getLsbD_append, BitVec.getLsbD_append,
    BitVec.getLsbD_append]
  obtain rfl | rfl | rfl | rfl : k = 0 ∨ k = 1 ∨ k = 2 ∨ k = 3 := by omega
  · simp [hi, show i < 64 by omega]
  · simp [hi, show 32 + i < 64 by omega]
  · simp [hi]
  · simp [hi, show ¬ 96 + i < 64 by omega, show 96 + i - 64 = 32 + i by omega]

/-! ## Rotation -/

/-- `ror` by an immediate is an `extr` of a register with itself. -/
theorem extract_self (x : BitVec 64) {lsb : Nat} (h : lsb < 64) :
    extract x x lsb = x.rotateRight lsb := by
  apply BitVec.eq_of_getLsbD_eq
  intro i hi
  rw [extract, BitVec.getLsbD_extractLsb', BitVec.getLsbD_append, BitVec.getLsbD_rotateRight,
    Nat.mod_eq_of_lt h]
  simp only [hi, decide_true, Bool.true_and]
  by_cases hIn : lsb + i < 64
  · simp [hIn, show i < 64 - lsb by omega]
  · simp [hIn, show ¬ i < 64 - lsb by omega, show lsb + i - 64 = i - (64 - lsb) by omega]

theorem and_63_toNat {w : Nat} (x : BitVec w) (hw : 6 < w) :
    (x &&& BitVec.ofNat w 63).toNat = x.toNat % 64 := by
  have hPow : 2 ^ 6 < 2 ^ w := Nat.pow_lt_pow_right (by omega) hw
  rw [BitVec.toNat_and, BitVec.toNat_ofNat, Nat.mod_eq_of_lt (by omega)]
  exact Nat.and_two_pow_sub_one_eq_mod _ 6

/-- A rotation to the left is one to the right by the complement. -/
theorem rotateRight_neg (x : BitVec 64) {k l : Nat} (h : (k + l) % 64 = 0) :
    x.rotateRight (k % 64) = x.rotateLeft (l % 64) := by
  apply BitVec.eq_of_getLsbD_eq
  intro i hi
  rw [BitVec.getLsbD_rotateRight, BitVec.getLsbD_rotateLeft, Nat.mod_mod, Nat.mod_mod]
  simp only [hi, decide_true, Bool.true_and, Bool.cond_decide]
  by_cases hZero : k % 64 = 0
  · have hZero' : l % 64 = 0 := by omega
    simp [hZero, hZero', hi]
  · have hSum : k % 64 + l % 64 = 64 := by omega
    by_cases hIn : i < l % 64
    · rw [if_pos (by omega), if_pos hIn]
      congr 1
      omega
    · rw [if_neg (by omega), if_neg hIn]
      congr 1
      omega

end ArmRx.A64
