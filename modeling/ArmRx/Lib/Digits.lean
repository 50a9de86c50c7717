import ArmRx.Lib.Literals

/-!
# Byte strings as numbers

The number a little-endian byte string spells, on top of Mathlib's digits:
bounds, the string of a number, and what the leading bytes decide about an
order comparison.
-/

namespace ArmRx.Lib

/-- The number a little-endian byte string spells. -/
def byteValue (bytes : List (BitVec 8)) : Nat := Nat.ofDigits 256 (bytes.map BitVec.toNat)

@[simp] theorem byteValue_nil : byteValue [] = 0 := rfl

@[simp] theorem byteValue_cons (b : BitVec 8) (bytes : List (BitVec 8)) :
    byteValue (b :: bytes) = b.toNat + 256 * byteValue bytes := by
  simp [byteValue, Nat.ofDigits_cons]

theorem byteValue_append (xs ys : List (BitVec 8)) :
    byteValue (xs ++ ys) = byteValue xs + 256 ^ xs.length * byteValue ys := by
  simp [byteValue, Nat.ofDigits_append]

theorem byteValue_lt (bytes : List (BitVec 8)) : byteValue bytes < 256 ^ bytes.length := by
  induction bytes with
  | nil => simp
  | cons b bytes ih =>
    have hb := b.isLt
    rw [byteValue_cons, List.length_cons, Nat.pow_succ]
    omega

/-- The `n` little-endian bytes of a number. -/
def bytesOfNat : Nat → Nat → List (BitVec 8)
  | 0, _ => []
  | n + 1, v => BitVec.ofNat 8 v :: bytesOfNat n (v / 256)

theorem bytesOfNat_length (n v : Nat) : (bytesOfNat n v).length = n := by
  induction n generalizing v with
  | zero => rfl
  | succ n ih => rw [bytesOfNat, List.length_cons, ih]

theorem byteValue_bytesOfNat {n v : Nat} (h : v < 256 ^ n) : byteValue (bytesOfNat n v) = v := by
  induction n generalizing v with
  | zero =>
    rw [bytesOfNat, byteValue_nil]
    omega
  | succ n ih =>
    have hRest : v / 256 < 256 ^ n := by
      rw [Nat.pow_succ] at h
      omega
    rw [bytesOfNat, byteValue_cons, ih hRest, BitVec.toNat_ofNat]
    omega

/-- A larger leading byte decides. -/
theorem byteValue_concat_lt {xs ys : List (BitVec 8)} {x y : BitVec 8}
    (hLen : xs.length = ys.length) (h : x < y) :
    byteValue (xs ++ [x]) < byteValue (ys ++ [y]) := by
  have hx : x.toNat + 1 ≤ y.toNat := BitVec.lt_def.mp h
  have hLow := byteValue_lt xs
  have hScale : 256 ^ ys.length * (x.toNat + 1) ≤ 256 ^ ys.length * y.toNat :=
    Nat.mul_le_mul_left _ hx
  rw [hLen] at hLow
  simp only [byteValue_append, byteValue_cons, byteValue_nil, hLen, Nat.mul_zero, Nat.add_zero]
  rw [Nat.mul_add, Nat.mul_one] at hScale
  omega

end ArmRx.Lib
