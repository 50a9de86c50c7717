import ArmRx.Lib.Literals

/-!
# Binary64 numbers

The fields of a 64-bit floating-point number and the rational number a finite
one stands for, and the pattern of an integer that needs no rounding.

* `Binary64.value_pack` — the pattern of a sign, an exponent and a significand.
* `Binary64.pack_low_zero` — a short significand leaves the low bits clear.
-/

namespace ArmRx.Lib.Binary64

def sign (b : BitVec 64) : Bool := b.msb

/-- The biased exponent. -/
def exponent (b : BitVec 64) : Nat := b.toNat / 2 ^ 52 % 2 ^ 11

def fraction (b : BitVec 64) : Nat := b.toNat % 2 ^ 52

/-- Neither zero nor subnormal, and neither infinite nor a NaN. -/
def IsNormal (b : BitVec 64) : Prop := 0 < exponent b ∧ exponent b < 2 ^ 11 - 1

/-- The number a finite pattern stands for. -/
def value (b : BitVec 64) : ℚ :=
  let magnitude : ℚ :=
    if exponent b = 0 then fraction b * 2 ^ (-1074 : Int)
    else (2 ^ 52 + fraction b) * 2 ^ ((exponent b : Int) - 1075)
  if sign b then -magnitude else magnitude

theorem value_zero : value 0 = 0 := by
  have hSign : sign 0 = false := rfl
  have hExponent : exponent 0 = 0 := rfl
  have hFraction : fraction 0 = 0 := rfl
  rw [value, hSign, hExponent, hFraction]
  simp

/-- The pattern of `± m`, where `m` has its leading one at position `e`: the one is
dropped and the rest is aligned to the left of the fraction. -/
def pack (negative : Bool) (e m : Nat) : BitVec 64 :=
  BitVec.ofBool negative ++ BitVec.ofNat 11 (1023 + e) ++
    BitVec.ofNat 52 ((m - 2 ^ e) * 2 ^ (52 - e))

section Pack

variable {negative : Bool} {e m : Nat}

/-- A significand below `2 ^ 53` fits the fraction. -/
theorem fraction_fits (he : e ≤ 52) (hHigh : m < 2 ^ (e + 1)) :
    (m - 2 ^ e) * 2 ^ (52 - e) < 2 ^ 52 := by
  have hRest : m - 2 ^ e < 2 ^ e := by
    rw [Nat.pow_succ] at hHigh
    have := Nat.two_pow_pos e
    omega
  calc (m - 2 ^ e) * 2 ^ (52 - e) < 2 ^ e * 2 ^ (52 - e) :=
        Nat.mul_lt_mul_of_pos_right hRest (Nat.two_pow_pos _)
    _ = 2 ^ 52 := by rw [← Nat.pow_add, Nat.add_sub_cancel' he]

theorem pack_toNat (he : e ≤ 52) (hHigh : m < 2 ^ (e + 1)) :
    (pack negative e m).toNat =
      (negative.toNat * 2 ^ 11 + (1023 + e)) * 2 ^ 52 + (m - 2 ^ e) * 2 ^ (52 - e) := by
  have hFits := fraction_fits he hHigh
  have hExponent : 1023 + e < 2 ^ 11 := by omega
  unfold pack
  rw [BitVec.toNat_append, BitVec.toNat_append, BitVec.toNat_ofNat, BitVec.toNat_ofNat,
    BitVec.toNat_ofBool, Nat.mod_eq_of_lt hFits, Nat.mod_eq_of_lt hExponent,
    ← Nat.shiftLeft_add_eq_or_of_lt hExponent, ← Nat.shiftLeft_add_eq_or_of_lt hFits,
    Nat.shiftLeft_eq, Nat.shiftLeft_eq]

theorem fraction_pack (he : e ≤ 52) (hHigh : m < 2 ^ (e + 1)) :
    fraction (pack negative e m) = (m - 2 ^ e) * 2 ^ (52 - e) := by
  have hFits := fraction_fits he hHigh
  rw [fraction, pack_toNat he hHigh]
  omega

theorem exponent_pack (he : e ≤ 52) (hHigh : m < 2 ^ (e + 1)) :
    exponent (pack negative e m) = 1023 + e := by
  have hFits := fraction_fits he hHigh
  rw [exponent, pack_toNat he hHigh]
  omega

theorem sign_pack (he : e ≤ 52) (hHigh : m < 2 ^ (e + 1)) :
    sign (pack negative e m) = negative := by
  have hFits := fraction_fits he hHigh
  rw [sign, BitVec.msb_eq_decide, pack_toNat he hHigh]
  cases negative
  · rw [decide_eq_false_iff_not]
    simp only [Bool.toNat_false]
    omega
  · rw [decide_eq_true_iff]
    simp only [Bool.toNat_true]
    omega

/-- **The pattern stands for the integer.** -/
theorem value_pack (he : e ≤ 52) (hLow : 2 ^ e ≤ m) (hHigh : m < 2 ^ (e + 1)) :
    value (pack negative e m) = if negative then -(m : ℚ) else m := by
  have hMagnitude : ((2 : ℚ) ^ 52 + ((m - 2 ^ e) * 2 ^ (52 - e) : Nat)) *
      2 ^ (((1023 + e : Nat) : Int) - 1075) = m := by
    have hSum : (2 : Nat) ^ 52 + (m - 2 ^ e) * 2 ^ (52 - e) = m * 2 ^ (52 - e) := by
      rw [Nat.sub_mul, ← Nat.pow_add, Nat.add_sub_cancel' he]
      have := Nat.mul_le_mul_right (2 ^ (52 - e)) hLow
      rw [← Nat.pow_add, Nat.add_sub_cancel' he] at this
      omega
    have hExponent : ((1023 + e : Nat) : Int) - 1075 = -((52 - e : Nat) : Int) := by omega
    have hCast : (2 : ℚ) ^ 52 + ((m - 2 ^ e) * 2 ^ (52 - e) : Nat) = m * 2 ^ (52 - e) := by
      exact_mod_cast hSum
    rw [hCast, hExponent, zpow_neg, zpow_natCast, mul_assoc,
      mul_inv_cancel₀ (pow_ne_zero _ two_ne_zero), mul_one]
  unfold value
  rw [sign_pack he hHigh, exponent_pack he hHigh, fraction_pack he hHigh,
    if_neg (show ¬1023 + e = 0 by omega), hMagnitude]

/-- **A significand of few bits leaves the low bits of the fraction clear**; a power
of two has none behind its leading one. -/
theorem pack_low_zero {k : Nat} (he : e ≤ 52) (hk : k ≤ 52) (hHigh : m < 2 ^ (e + 1))
    (hShort : e + k ≤ 52 ∨ m = 2 ^ e) : (pack negative e m).toNat % 2 ^ k = 0 := by
  have hFraction : 2 ^ k ∣ (m - 2 ^ e) * 2 ^ (52 - e) := by
    rcases hShort with hShort | rfl
    · exact Dvd.dvd.mul_left (Nat.pow_dvd_pow 2 (by omega)) _
    · rw [Nat.sub_self, Nat.zero_mul]
      exact Nat.dvd_zero _
  rw [pack_toNat he hHigh]
  refine Nat.mod_eq_zero_of_dvd (Nat.dvd_add ?_ hFraction)
  exact Dvd.dvd.mul_left (Nat.pow_dvd_pow 2 hk) _

end Pack

end ArmRx.Lib.Binary64
