import ArmRx.Lib.Literals

/-!
# Vector registers

The 128-bit vector types and the intrinsics on them that the programs use, each
lane by lane. A lane-wise operation is a function of the lanes, so most facts about
it hold by definition; what is left are the rotations that are composed of shifts.
-/

namespace ArmRx.Lib

/-! ## Two 64-bit lanes -/

/-- `uint64x2_t`: the value of each lane. -/
abbrev U64x2 : Type := Fin 2 → BitVec 64

/-- `vcombine_u64(vcreate_u64(a), vcreate_u64(b))`. -/
def vcombineU64 (a b : BitVec 64) : U64x2
  | 0 => a
  | 1 => b

def vsubqU64 (a b : U64x2) : U64x2 := fun i => a i - b i

def vaddqU64 (a b : U64x2) : U64x2 := fun i => a i + b i

def veorqU64 (a b : U64x2) : U64x2 := fun i => a i ^^^ b i

def vshlqNU64 (a : U64x2) (n : Nat) : U64x2 := fun i => a i <<< n

def vmovqNU64 (x : BitVec 64) : U64x2 := fun _ => x

/-- `vsriq_n_u64`: `b` shifted right, inserted below the upper `n` bits of `a`. -/
def vsriqNU64 (a b : U64x2) (n : Nat) : U64x2 :=
  fun i => (a i &&& ~~~(BitVec.allOnes 64 >>> n)) ||| b i >>> n

theorem vcombineU64_congr {v : U64x2} {a b : BitVec 64} (h0 : v 0 = a) (h1 : v 1 = b) :
    v = vcombineU64 a b := by
  funext i
  match i with
  | 0 => exact h0
  | 1 => exact h1

/-- A left shift and an inserted right shift are a rotation. -/
theorem vsriqNU64_vshlqNU64 (x : U64x2) {k n : Nat} (hSum : k + n = 64) (hn : 0 < n) (hk : 0 < k)
    (i : Fin 2) : vsriqNU64 (vshlqNU64 x k) x n i = (x i).rotateRight n := by
  have hUpper : x i <<< k &&& ~~~(BitVec.allOnes 64 >>> n) = x i <<< k := by
    apply BitVec.eq_of_getLsbD_eq
    intro j hj
    by_cases hLow : j < k
    · simp [hLow]
    · have hOut : (BitVec.allOnes 64 >>> n).getLsbD j = false := by
        rw [BitVec.getLsbD_ushiftRight, BitVec.getLsbD_of_ge _ _ (by omega)]
      rw [BitVec.getLsbD_and, BitVec.getLsbD_not, hOut]
      simp [hj]
  rw [vsriqNU64, vshlqNU64, hUpper, BitVec.rotateRight_def, Nat.mod_eq_of_lt (by omega),
    show 64 - n = k by omega, BitVec.or_comm]

/-! ## Two and four 32-bit lanes -/

/-- `uint32x2_t`. -/
abbrev U32x2 : Type := Fin 2 → BitVec 32

/-- `uint32x4_t`. -/
abbrev U32x4 : Type := Fin 4 → BitVec 32

/-- `vmovn_u64`: the low halves. -/
def vmovnU64 (a : U64x2) : U32x2 := fun i => (a i).setWidth 32

/-- `vmull_u32`: the full products. -/
def vmullU32 (a b : U32x2) : U64x2 := fun i => (a i).setWidth 64 * (b i).setWidth 64

/-- `vreinterpretq_u32_u64`: lane `2 i` is the low half of lane `i`. -/
def vreinterpretqU32U64 (a : U64x2) : U32x4
  | 0 => (a 0).extractLsb' 0 32
  | 1 => (a 0).extractLsb' 32 32
  | 2 => (a 1).extractLsb' 0 32
  | 3 => (a 1).extractLsb' 32 32

/-- `vreinterpretq_u64_u32`. -/
def vreinterpretqU64U32 (a : U32x4) : U64x2
  | 0 => a 1 ++ a 0
  | 1 => a 3 ++ a 2

/-- `vrev64q_u32`: the two words of each doubleword change places. -/
def vrev64qU32 (a : U32x4) : U32x4
  | 0 => a 1
  | 1 => a 0
  | 2 => a 3
  | 3 => a 2

/-- Exchanging the halves is a rotation by 32. -/
theorem halves_swapped (x : BitVec 64) :
    x.extractLsb' 0 32 ++ x.extractLsb' 32 32 = x.rotateRight 32 := by
  apply BitVec.eq_of_getLsbD_eq
  intro j hj
  rw [BitVec.getLsbD_append, BitVec.getLsbD_rotateRight]
  by_cases hLow : j < 32
  · simp [hLow]
  · have hHigh : j - 32 < 32 := by omega
    simp [hLow, hj, hHigh]

theorem vrev64qU32_eq (x : U64x2) (i : Fin 2) :
    vreinterpretqU64U32 (vrev64qU32 (vreinterpretqU32U64 x)) i = (x i).rotateRight 32 := by
  match i with
  | 0 => exact halves_swapped (x 0)
  | 1 => exact halves_swapped (x 1)

/-! ## Sixteen bytes -/

/-- `uint8x16_t`. -/
abbrev U8x16 : Type := Fin 16 → BitVec 8

/-- `vld1q_u8` of a table of sixteen constants. -/
def vld1qU8 (table : List Nat) : U8x16 := fun i => BitVec.ofNat 8 (table.getD i 0)

/-- A byte of a table; an index outside of it gives zero. -/
def tableByte (t : U8x16) (x : BitVec 8) : BitVec 8 :=
  if h : x.toNat < 16 then t ⟨x.toNat, h⟩ else 0

/-- `vqtbl1q_u8`. -/
def vqtbl1qU8 (t idx : U8x16) : U8x16 := fun i => tableByte t (idx i)

def vaddqU8 (a b : U8x16) : U8x16 := fun i => a i + b i

def vsubqU8 (a b : U8x16) : U8x16 := fun i => a i - b i

def vandqU8 (a b : U8x16) : U8x16 := fun i => a i &&& b i

def vorrqU8 (a b : U8x16) : U8x16 := fun i => a i ||| b i

def veorqU8 (a b : U8x16) : U8x16 := fun i => a i ^^^ b i

def vshlqNU8 (a : U8x16) (n : Nat) : U8x16 := fun i => a i <<< n

def vshrqNU8 (a : U8x16) (n : Nat) : U8x16 := fun i => a i >>> n

def vdupqNU8 (x : BitVec 8) : U8x16 := fun _ => x

/-- All ones if `a` is at least `b`. -/
def maskGe (a b : BitVec 8) : BitVec 8 := if b ≤ a then 0xff else 0

/-- `vcgeq_u8`. -/
def vcgeqU8 (a b : U8x16) : U8x16 := fun i => maskGe (a i) (b i)

end ArmRx.Lib
