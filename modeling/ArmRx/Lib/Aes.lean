import ArmRx.Lib.Literals

/-!
# AES

The field `GF(2^8)` and the transformations of a round, as FIPS 197 states them, on
a state of sixteen bytes: byte `r + 4 c` is row `r` of column `c`.

* `xtime_xor` — multiplication by `x` is additive, which is all that the column
  transformations rest on.
* `mul_inverse` — the table of inverses.
* `invSBox_sBox` — the two substitutions undo each other.
-/

namespace ArmRx.Lib.Aes

/-! ## The field -/

/-- Multiplication by `x`, modulo `x^8 + x^4 + x^3 + x + 1`. -/
def xtime (b : BitVec 8) : BitVec 8 := b <<< 1 ^^^ (if b.msb then 0x1b else 0)

/-- The product by the lowest `n` bits of the first factor. -/
def mulLow : Nat → BitVec 8 → BitVec 8 → BitVec 8
  | 0, _, _ => 0
  | n + 1, a, b => (if a.getLsbD 0 then b else 0) ^^^ mulLow n (a >>> 1) (xtime b)

/-- The product in the field. -/
def mul (a b : BitVec 8) : BitVec 8 := mulLow 8 a b

theorem xtime_xor (a b : BitVec 8) : xtime (a ^^^ b) = xtime a ^^^ xtime b := by
  have hCancel : (0 : BitVec 8) = 0x1b ^^^ 0x1b := by decide
  rw [xtime, xtime, xtime, BitVec.shiftLeft_xor_distrib, BitVec.msb_xor]
  cases a.msb <;> cases b.msb
  · simp
  · simp [BitVec.xor_assoc]
  · simp only [Bool.bne_false, if_true, Bool.false_eq_true, if_false]
    ac_rfl
  · -- both reductions cancel
    simp only [bne_self_eq_false, Bool.false_eq_true, if_false, if_true]
    rw [hCancel]
    ac_rfl

theorem xor_cancel_left (a b : BitVec 8) : a ^^^ (a ^^^ b) = b := by
  rw [← BitVec.xor_assoc, BitVec.xor_self, BitVec.zero_xor]

theorem xor_left_comm (a b c : BitVec 8) : a ^^^ (b ^^^ c) = b ^^^ (a ^^^ c) := by
  rw [← BitVec.xor_assoc, BitVec.xor_comm a, BitVec.xor_assoc]

/-! Products by the coefficients of the column transformations. -/

section Coefficients

variable (b : BitVec 8)

theorem mul_01 : mul 0x01 b = b := by simp [mul, mulLow]

theorem mul_02 : mul 0x02 b = xtime b := by simp [mul, mulLow]

theorem mul_03 : mul 0x03 b = b ^^^ xtime b := by simp [mul, mulLow]

theorem mul_09 : mul 0x09 b = b ^^^ xtime (xtime (xtime b)) := by simp [mul, mulLow]

theorem mul_0b : mul 0x0b b = b ^^^ (xtime b ^^^ xtime (xtime (xtime b))) := by simp [mul, mulLow]

theorem mul_0d : mul 0x0d b = b ^^^ (xtime (xtime b) ^^^ xtime (xtime (xtime b))) := by
  simp [mul, mulLow]

theorem mul_0e : mul 0x0e b = xtime b ^^^ (xtime (xtime b) ^^^ xtime (xtime (xtime b))) := by
  simp [mul, mulLow]

end Coefficients

/-- A column of `MixColumns` with one multiplication by `x` for each byte. -/
theorem mix_column (a b c d : BitVec 8) :
    a ^^^ (a ^^^ b ^^^ (c ^^^ d)) ^^^ xtime (a ^^^ b) =
      mul 0x02 a ^^^ mul 0x03 b ^^^ mul 0x01 c ^^^ mul 0x01 d := by
  simp only [mul_01, mul_02, mul_03, xtime_xor, BitVec.xor_assoc, BitVec.xor_comm,
    xor_left_comm, xor_cancel_left]

/-- A column of `InvMixColumns` is a column of `MixColumns` on adjusted bytes. -/
theorem invMix_column (a b c d : BitVec 8) :
    mul 0x02 (a ^^^ xtime (xtime (a ^^^ c))) ^^^ mul 0x03 (b ^^^ xtime (xtime (b ^^^ d))) ^^^
        mul 0x01 (c ^^^ xtime (xtime (c ^^^ a))) ^^^ mul 0x01 (d ^^^ xtime (xtime (d ^^^ b))) =
      mul 0x0e a ^^^ mul 0x0b b ^^^ mul 0x0d c ^^^ mul 0x09 d := by
  simp only [mul_01, mul_02, mul_03, mul_09, mul_0b, mul_0d, mul_0e, xtime_xor, BitVec.xor_assoc,
    BitVec.xor_comm, xor_left_comm, xor_cancel_left]

/-- The multiplicative inverses, with zero for zero. -/
def inverses : List Nat :=
  [0x00, 0x01, 0x8d, 0xf6, 0xcb, 0x52, 0x7b, 0xd1, 0xe8, 0x4f, 0x29, 0xc0, 0xb0, 0xe1, 0xe5, 0xc7,
   0x74, 0xb4, 0xaa, 0x4b, 0x99, 0x2b, 0x60, 0x5f, 0x58, 0x3f, 0xfd, 0xcc, 0xff, 0x40, 0xee, 0xb2,
   0x3a, 0x6e, 0x5a, 0xf1, 0x55, 0x4d, 0xa8, 0xc9, 0xc1, 0x0a, 0x98, 0x15, 0x30, 0x44, 0xa2, 0xc2,
   0x2c, 0x45, 0x92, 0x6c, 0xf3, 0x39, 0x66, 0x42, 0xf2, 0x35, 0x20, 0x6f, 0x77, 0xbb, 0x59, 0x19,
   0x1d, 0xfe, 0x37, 0x67, 0x2d, 0x31, 0xf5, 0x69, 0xa7, 0x64, 0xab, 0x13, 0x54, 0x25, 0xe9, 0x09,
   0xed, 0x5c, 0x05, 0xca, 0x4c, 0x24, 0x87, 0xbf, 0x18, 0x3e, 0x22, 0xf0, 0x51, 0xec, 0x61, 0x17,
   0x16, 0x5e, 0xaf, 0xd3, 0x49, 0xa6, 0x36, 0x43, 0xf4, 0x47, 0x91, 0xdf, 0x33, 0x93, 0x21, 0x3b,
   0x79, 0xb7, 0x97, 0x85, 0x10, 0xb5, 0xba, 0x3c, 0xb6, 0x70, 0xd0, 0x06, 0xa1, 0xfa, 0x81, 0x82,
   0x83, 0x7e, 0x7f, 0x80, 0x96, 0x73, 0xbe, 0x56, 0x9b, 0x9e, 0x95, 0xd9, 0xf7, 0x02, 0xb9, 0xa4,
   0xde, 0x6a, 0x32, 0x6d, 0xd8, 0x8a, 0x84, 0x72, 0x2a, 0x14, 0x9f, 0x88, 0xf9, 0xdc, 0x89, 0x9a,
   0xfb, 0x7c, 0x2e, 0xc3, 0x8f, 0xb8, 0x65, 0x48, 0x26, 0xc8, 0x12, 0x4a, 0xce, 0xe7, 0xd2, 0x62,
   0x0c, 0xe0, 0x1f, 0xef, 0x11, 0x75, 0x78, 0x71, 0xa5, 0x8e, 0x76, 0x3d, 0xbd, 0xbc, 0x86, 0x57,
   0x0b, 0x28, 0x2f, 0xa3, 0xda, 0xd4, 0xe4, 0x0f, 0xa9, 0x27, 0x53, 0x04, 0x1b, 0xfc, 0xac, 0xe6,
   0x7a, 0x07, 0xae, 0x63, 0xc5, 0xdb, 0xe2, 0xea, 0x94, 0x8b, 0xc4, 0xd5, 0x9d, 0xf8, 0x90, 0x6b,
   0xb1, 0x0d, 0xd6, 0xeb, 0xc6, 0x0e, 0xcf, 0xad, 0x08, 0x4e, 0xd7, 0xe3, 0x5d, 0x50, 0x1e, 0xb3,
   0x5b, 0x23, 0x38, 0x34, 0x68, 0x46, 0x03, 0x8c, 0xdd, 0x9c, 0x7d, 0xa0, 0xcd, 0x1a, 0x41, 0x1c]

def inverse (b : BitVec 8) : BitVec 8 := BitVec.ofNat 8 (inverses.getD b.toNat 0)

/-- The table as one number, an entry a byte. -/
def packedInverses : Nat := inverses.foldr (fun d n => d + 256 * n) 0

theorem getD_eq_shiftRight (l : List Nat) (h : ∀ d ∈ l, d < 256) (i : Nat) :
    l.getD i 0 = l.foldr (fun d n => d + 256 * n) 0 >>> (8 * i) % 256 := by
  induction l generalizing i with
  | nil => simp
  | cons d l ih =>
    have hd : d < 256 := h d List.mem_cons_self
    have hl : ∀ d ∈ l, d < 256 := fun d hd => h d (List.mem_cons_of_mem _ hd)
    cases i with
    | zero =>
      rw [List.getD_cons_zero, List.foldr_cons, Nat.mul_zero, Nat.shiftRight_zero]
      omega
    | succ i =>
      rw [List.getD_cons_succ, ih hl, List.foldr_cons, show 8 * (i + 1) = 8 + 8 * i by omega,
        Nat.shiftRight_add, Nat.shiftRight_eq_div_pow (_ + _) 8]
      congr 2
      omega

-- shifting one number is what keeps the checks over all bytes cheap
theorem inverse_eq (b : BitVec 8) :
    inverse b = BitVec.ofNat 8 (packedInverses >>> (8 * b.toNat)) := by
  have hLt : ∀ d ∈ inverses, d < 256 := by decide +kernel
  rw [inverse, getD_eq_shiftRight inverses hLt, packedInverses]
  exact BitVec.eq_of_toNat_eq (Nat.mod_mod _ _)

theorem mul_inverse : ∀ b : BitVec 8, b = 0 ∨ mul b (inverse b) = 1 := by
  simp only [inverse_eq]
  decide +kernel

/-! ## The substitutions -/

/-- Section 5.1.1: the inverse in the field, then the affine transformation. -/
def sBox (b : BitVec 8) : BitVec 8 :=
  let x := inverse b
  x ^^^ x.rotateLeft 1 ^^^ x.rotateLeft 2 ^^^ x.rotateLeft 3 ^^^ x.rotateLeft 4 ^^^ 0x63

/-- Section 5.3.2: the inverse of the affine transformation, then the inverse in the
field. -/
def invSBox (b : BitVec 8) : BitVec 8 :=
  inverse (b.rotateLeft 1 ^^^ b.rotateLeft 3 ^^^ b.rotateLeft 6 ^^^ 0x05)

theorem invSBox_sBox : ∀ b : BitVec 8, invSBox (sBox b) = b := by
  simp only [invSBox, sBox, inverse_eq]
  decide +kernel

/-! ## The round transformations -/

/-- The state: byte `r + 4 c` is row `r` of column `c`. -/
abbrev State : Type := Fin 16 → BitVec 8

/-- The byte `k` rows below byte `i`, in the same column. -/
def below (i : Fin 16) (k : Nat) : Fin 16 := ⟨4 * (i / 4) + (i + k) % 4, by omega⟩

def subBytes (s : State) : State := fun i => sBox (s i)

def invSubBytes (s : State) : State := fun i => invSBox (s i)

/-- Row `r` moves `r` columns to the left. -/
def shiftRows (s : State) : State := fun i => s ⟨(i + 4 * (i % 4)) % 16, by omega⟩

/-- Row `r` moves `r` columns to the right. -/
def invShiftRows (s : State) : State := fun i => s ⟨(i + 16 - 4 * (i % 4)) % 16, by omega⟩

/-- A circulant matrix on each column, from its first row. -/
def mixWith (c : Fin 4 → BitVec 8) (s : State) : State := fun i =>
  mul (c 0) (s (below i 0)) ^^^ mul (c 1) (s (below i 1)) ^^^ mul (c 2) (s (below i 2)) ^^^
    mul (c 3) (s (below i 3))

def mixColumns : State → State := mixWith ![0x02, 0x03, 0x01, 0x01]

def invMixColumns : State → State := mixWith ![0x0e, 0x0b, 0x0d, 0x09]

theorem mixColumns_apply (s : State) (i : Fin 16) :
    mixColumns s i = mul 0x02 (s (below i 0)) ^^^ mul 0x03 (s (below i 1)) ^^^
      mul 0x01 (s (below i 2)) ^^^ mul 0x01 (s (below i 3)) := rfl

theorem invMixColumns_apply (s : State) (i : Fin 16) :
    invMixColumns s i = mul 0x0e (s (below i 0)) ^^^ mul 0x0b (s (below i 1)) ^^^
      mul 0x0d (s (below i 2)) ^^^ mul 0x09 (s (below i 3)) := rfl

end ArmRx.Lib.Aes
