import ArmRx.Hash.AesTables
import ArmRx.Lib.Aes
import ArmRx.Lib.Neon

/-!
# The AES round of RandomX

Embeds `include/armrx/aes.hpp`: the round transformations by table, on vector lanes
through the tower field `GF(2^4)^2`, and with the AES instructions, which are given
by their definition.

The tower-field substitution is a function of one byte, so it is compared with the
S-box byte by byte; the column transformations are compared by algebra, over all
blocks at once.

* `lutEnc_mul`, `lutDec_mul` — the tables are the standard round tables.
* `transforms_correct` — both software transformations are those of FIPS 197.
-/

namespace ArmRx.Hash

open ArmRx.Lib

/-- `AesBlock`. -/
abbrev AesBlock : Type := Fin 16 → BitVec 8

/-! ## By table -/

/-- The word that `memcpy` takes from four bytes of a block. -/
def blockWord (input : AesBlock) (c : Fin 4) : BitVec 32 :=
  leBytes 4 fun k => input ⟨(4 * c + k) % 16, by omega⟩

/-- `lut[t][(s >> shift) & 0xff]`. -/
def lookUp (lut : Fin 4 → List Nat) (t : Fin 4) (s : BitVec 32) (shift : Nat) : BitVec 32 :=
  BitVec.ofNat 32 ((lut t).getD ((s >>> shift) &&& 0xff).toNat 0)

/-- The block whose words are `t`. -/
def ofWords (t : Fin 4 → BitVec 32) : AesBlock := fun i => byteOf (t ⟨i / 4, by omega⟩) (i % 4)

/-- `encrypt_transform_ttable`. -/
def encryptTransformTtable (input : AesBlock) : AesBlock :=
  let s := blockWord input
  let lut := lookUp randomxAesLutEnc
  ofWords ![
    lut 0 (s 0) 0 ^^^ lut 1 (s 1) 8 ^^^ lut 2 (s 2) 16 ^^^ lut 3 (s 3) 24,
    lut 0 (s 1) 0 ^^^ lut 1 (s 2) 8 ^^^ lut 2 (s 3) 16 ^^^ lut 3 (s 0) 24,
    lut 0 (s 2) 0 ^^^ lut 1 (s 3) 8 ^^^ lut 2 (s 0) 16 ^^^ lut 3 (s 1) 24,
    lut 0 (s 3) 0 ^^^ lut 1 (s 0) 8 ^^^ lut 2 (s 1) 16 ^^^ lut 3 (s 2) 24]

/-- `decrypt_transform_ttable`. -/
def decryptTransformTtable (input : AesBlock) : AesBlock :=
  let s := blockWord input
  let lut := lookUp randomxAesLutDec
  ofWords ![
    lut 0 (s 0) 0 ^^^ lut 1 (s 3) 8 ^^^ lut 2 (s 2) 16 ^^^ lut 3 (s 1) 24,
    lut 0 (s 1) 0 ^^^ lut 1 (s 0) 8 ^^^ lut 2 (s 3) 16 ^^^ lut 3 (s 2) 24,
    lut 0 (s 2) 0 ^^^ lut 1 (s 1) 8 ^^^ lut 2 (s 0) 16 ^^^ lut 3 (s 3) 24,
    lut 0 (s 3) 0 ^^^ lut 1 (s 2) 8 ^^^ lut 2 (s 1) 16 ^^^ lut 3 (s 0) 24]

/-! ## On vector lanes -/

/-- `aes_gf4_mul_neon`. -/
def aesGf4MulNeon (a c : U8x16) : U8x16 :=
  let logTbl := vld1qU8 [240, 0, 1, 4, 2, 8, 5, 10, 3, 14, 9, 7, 6, 13, 11, 12]
  let antilogTbl := vld1qU8 [1, 2, 4, 8, 3, 6, 12, 11, 5, 10, 7, 14, 15, 13, 9, 0]
  let la := vqtbl1qU8 logTbl a
  let lc := vqtbl1qU8 logTbl c
  let s := vaddqU8 la lc
  let ge15 := vcgeqU8 s (vdupqNU8 15)
  let s := vsubqU8 s (vandqU8 ge15 (vdupqNU8 15))
  vqtbl1qU8 antilogTbl s

/-- `aes_tower_invert_neon`. -/
def aesTowerInvertNeon (byteVec : U8x16) : U8x16 :=
  let kFwdHi := [0, 60, 213, 233, 52, 8, 225, 221, 229, 217, 48, 12, 209, 237, 4, 56]
  let kFwdLo := [0, 1, 32, 33, 70, 71, 102, 103, 76, 77, 108, 109, 10, 11, 42, 43]
  let kBackHi := [0, 162, 2, 160, 184, 26, 186, 24, 219, 121, 217, 123, 99, 193, 97, 195]
  let kBackLo := [0, 1, 92, 93, 224, 225, 188, 189, 80, 81, 12, 13, 176, 177, 236, 237]
  let kGsq4 := [0, 1, 4, 5, 3, 2, 7, 6, 12, 13, 8, 9, 15, 14, 11, 10]
  let kGinv4 := [0, 1, 9, 14, 13, 11, 7, 6, 15, 2, 12, 5, 10, 4, 3, 8]
  let lowMask := vdupqNU8 0x0f
  let lambda := vdupqNU8 0x8
  let gsq4Tbl := vld1qU8 kGsq4
  let hi := vshrqNU8 byteVec 4
  let lo := vandqU8 byteVec lowMask
  let packed := veorqU8 (vqtbl1qU8 (vld1qU8 kFwdHi) hi) (vqtbl1qU8 (vld1qU8 kFwdLo) lo)
  let a := vshrqNU8 packed 4
  let c := vandqU8 packed lowMask
  let gsqA := vqtbl1qU8 gsq4Tbl a
  let gsqALambda := aesGf4MulNeon gsqA lambda
  let ac := aesGf4MulNeon a c
  let gsqC := vqtbl1qU8 gsq4Tbl c
  let d := veorqU8 (veorqU8 gsqALambda ac) gsqC
  let dinv := vqtbl1qU8 (vld1qU8 kGinv4) d
  let ainv := aesGf4MulNeon a dinv
  let cinv := aesGf4MulNeon (veorqU8 a c) dinv
  veorqU8 (vqtbl1qU8 (vld1qU8 kBackHi) ainv) (vqtbl1qU8 (vld1qU8 kBackLo) cinv)

/-- `aes_sub_bytes_neon`. -/
def aesSubBytesNeon (s : U8x16) : U8x16 :=
  let invStd := aesTowerInvertNeon s
  let r1 := vorrqU8 (vshlqNU8 invStd 1) (vshrqNU8 invStd 7)
  let r2 := vorrqU8 (vshlqNU8 invStd 2) (vshrqNU8 invStd 6)
  let r3 := vorrqU8 (vshlqNU8 invStd 3) (vshrqNU8 invStd 5)
  let r4 := vorrqU8 (vshlqNU8 invStd 4) (vshrqNU8 invStd 4)
  let out := veorqU8 invStd r1
  let out := veorqU8 out r2
  let out := veorqU8 out r3
  let out := veorqU8 out r4
  veorqU8 out (vdupqNU8 0x63)

/-- `aes_inv_sub_bytes_neon`. -/
def aesInvSubBytesNeon (s : U8x16) : U8x16 :=
  let kAffineInvHi := [0, 164, 73, 237, 146, 54, 219, 127, 37, 129, 108, 200, 183, 19, 254, 90]
  let kAffineInvLo := [0, 74, 148, 222, 41, 99, 189, 247, 82, 24, 198, 140, 123, 49, 239, 165]
  let lowMask := vdupqNU8 0x0f
  let cXor := veorqU8 s (vdupqNU8 0x63)
  let hi := vshrqNU8 cXor 4
  let lo := vandqU8 cXor lowMask
  let d0 := veorqU8 (vqtbl1qU8 (vld1qU8 kAffineInvHi) hi) (vqtbl1qU8 (vld1qU8 kAffineInvLo) lo)
  aesTowerInvertNeon d0

/-- `aes_shift_rows_neon`. -/
def aesShiftRowsNeon (s : U8x16) : U8x16 :=
  vqtbl1qU8 s (vld1qU8 [0, 5, 10, 15, 4, 9, 14, 3, 8, 13, 2, 7, 12, 1, 6, 11])

/-- `aes_inv_shift_rows_neon`. -/
def aesInvShiftRowsNeon (s : U8x16) : U8x16 :=
  vqtbl1qU8 s (vld1qU8 [0, 13, 10, 7, 4, 1, 14, 11, 8, 5, 2, 15, 12, 9, 6, 3])

/-- `aes_xtime_neon`. -/
def aesXtimeNeon (v : U8x16) : U8x16 :=
  let hiMask := vcgeqU8 v (vdupqNU8 0x80)
  let shifted := vshlqNU8 v 1
  let reduction := vandqU8 hiMask (vdupqNU8 0x1b)
  veorqU8 shifted reduction

def kRot1 : List Nat := [1, 2, 3, 0, 5, 6, 7, 4, 9, 10, 11, 8, 13, 14, 15, 12]
def kRot2 : List Nat := [2, 3, 0, 1, 6, 7, 4, 5, 10, 11, 8, 9, 14, 15, 12, 13]
def kRot3 : List Nat := [3, 0, 1, 2, 7, 4, 5, 6, 11, 8, 9, 10, 15, 12, 13, 14]

/-- `aes_mix_columns_neon`. -/
def aesMixColumnsNeon (s : U8x16) : U8x16 :=
  let rot1 := vqtbl1qU8 s (vld1qU8 kRot1)
  let rot2 := vqtbl1qU8 s (vld1qU8 kRot2)
  let rot3 := vqtbl1qU8 s (vld1qU8 kRot3)
  let d := veorqU8 (veorqU8 s rot1) (veorqU8 rot2 rot3)
  let t := aesXtimeNeon (veorqU8 s rot1)
  veorqU8 (veorqU8 s d) t

/-- `aes_inv_mix_columns_neon`. -/
def aesInvMixColumnsNeon (s : U8x16) : U8x16 :=
  let rot2 := vqtbl1qU8 s (vld1qU8 kRot2)
  let xor02_13 := veorqU8 s rot2
  let uv := aesXtimeNeon (aesXtimeNeon xor02_13)
  let adjusted := veorqU8 s uv
  aesMixColumnsNeon adjusted

/-- `encrypt_transform_neon`. -/
def encryptTransformNeon (input : AesBlock) : AesBlock :=
  aesMixColumnsNeon (aesShiftRowsNeon (aesSubBytesNeon input))

/-- `decrypt_transform_neon`. -/
def decryptTransformNeon (input : AesBlock) : AesBlock :=
  aesInvMixColumnsNeon (aesInvSubBytesNeon (aesInvShiftRowsNeon input))

/-! ## One byte at a time -/

/-! Every step of the substitutions is made lane by lane: a lane of the result is the
result on sixteen copies of that lane. -/

/-- `aes_gf4_mul_neon` in one lane. -/
def gf4Mul (a c : BitVec 8) : BitVec 8 := aesGf4MulNeon (vdupqNU8 a) (vdupqNU8 c) 0

/-- `aes_tower_invert_neon` in one lane. -/
def towerInvert (b : BitVec 8) : BitVec 8 := aesTowerInvertNeon (vdupqNU8 b) 0

theorem aesGf4MulNeon_apply (a c : U8x16) (i : Fin 16) :
    aesGf4MulNeon a c i = gf4Mul (a i) (c i) := by
  simp only [gf4Mul, aesGf4MulNeon, vqtbl1qU8, vsubqU8, vaddqU8, vandqU8, vcgeqU8, vdupqNU8]

theorem aesTowerInvertNeon_apply (s : U8x16) (i : Fin 16) :
    aesTowerInvertNeon s i = towerInvert (s i) := by
  simp only [towerInvert, aesTowerInvertNeon, veorqU8, vqtbl1qU8, aesGf4MulNeon_apply, vshrqNU8,
    vandqU8, vdupqNU8]

/-- The tower field gives the inverse. -/
theorem towerInvert_eq : ∀ b : BitVec 8, towerInvert b = Aes.inverse b := by
  simp only [Aes.inverse_eq]
  decide +kernel

/-- `x ^ rotl(x, 1) ^ ...`, with the rotations composed of shifts. -/
theorem rotl_eq (x : BitVec 8) {k n : Nat} (hSum : k + n = 8) (hk : k < 8) :
    x <<< k ||| x >>> n = x.rotateLeft k := by
  rw [BitVec.rotateLeft_def, Nat.mod_eq_of_lt hk, show 8 - k = n by omega]

theorem aesSubBytesNeon_eq (s : U8x16) : aesSubBytesNeon s = Aes.subBytes s := by
  funext i
  simp only [aesSubBytesNeon, veorqU8, vorrqU8, vshlqNU8, vshrqNU8, vdupqNU8,
    aesTowerInvertNeon_apply, towerInvert_eq, rotl_eq _ (rfl : 1 + 7 = 8) (by decide),
    rotl_eq _ (rfl : 2 + 6 = 8) (by decide), rotl_eq _ (rfl : 3 + 5 = 8) (by decide),
    rotl_eq _ (rfl : 4 + 4 = 8) (by decide)]
  rfl

/-- `d = L^-1(s ^ 0x63)`, by its two nibbles. -/
theorem affineInv_eq : ∀ b : BitVec 8,
    tableByte (vld1qU8 [0, 164, 73, 237, 146, 54, 219, 127, 37, 129, 108, 200, 183, 19, 254, 90])
        ((b ^^^ 0x63) >>> 4) ^^^
      tableByte (vld1qU8 [0, 74, 148, 222, 41, 99, 189, 247, 82, 24, 198, 140, 123, 49, 239, 165])
        ((b ^^^ 0x63) &&& 0x0f) =
      b.rotateLeft 1 ^^^ b.rotateLeft 3 ^^^ b.rotateLeft 6 ^^^ 0x05 := by decide +kernel

theorem aesInvSubBytesNeon_eq (s : U8x16) : aesInvSubBytesNeon s = Aes.invSubBytes s := by
  funext i
  simp only [aesInvSubBytesNeon, aesTowerInvertNeon_apply, towerInvert_eq, veorqU8, vqtbl1qU8,
    vshrqNU8, vandqU8, vdupqNU8, affineInv_eq]
  rfl

/-! ## Rows and columns -/

/-- A permutation of the bytes. -/
theorem vqtbl1qU8_eq {table : List Nat} {place : Fin 16 → Fin 16}
    (h : ∀ i : Fin 16, table.getD i 0 = (place i).val) (s : U8x16) (i : Fin 16) :
    vqtbl1qU8 s (vld1qU8 table) i = s (place i) := by
  have hLt := (place i).isLt
  have hByte : (vld1qU8 table i).toNat = (place i).val := by
    rw [vld1qU8, h, BitVec.toNat_ofNat, Nat.mod_eq_of_lt (by omega)]
  rw [vqtbl1qU8, tableByte, dif_pos (by omega)]
  exact congrArg s (Fin.ext hByte)

theorem aesShiftRowsNeon_eq (s : U8x16) : aesShiftRowsNeon s = Aes.shiftRows s :=
  funext fun i =>
    @vqtbl1qU8_eq _ (fun i => ⟨(i + 4 * (i % 4)) % 16, by omega⟩) (by decide) s i

theorem aesInvShiftRowsNeon_eq (s : U8x16) : aesInvShiftRowsNeon s = Aes.invShiftRows s :=
  funext fun i =>
    @vqtbl1qU8_eq _ (fun i => ⟨(i + 16 - 4 * (i % 4)) % 16, by omega⟩) (by decide) s i

theorem xtime_mask : ∀ b : BitVec 8, b <<< 1 ^^^ (maskGe b 0x80 &&& 0x1b) = Aes.xtime b := by
  decide +kernel

theorem aesXtimeNeon_apply (v : U8x16) (i : Fin 16) : aesXtimeNeon v i = Aes.xtime (v i) :=
  xtime_mask (v i)

theorem below_zero (i : Fin 16) : Aes.below i 0 = i := by
  revert i
  decide

theorem below_below {k l m : Nat} (h : (k + l) % 4 = m % 4) (i : Fin 16) :
    Aes.below (Aes.below i k) l = Aes.below i m := by
  simp only [Aes.below, Fin.mk.injEq]
  omega

theorem aesMixColumnsNeon_eq (s : U8x16) : aesMixColumnsNeon s = Aes.mixColumns s := by
  funext i
  have h1 := @vqtbl1qU8_eq kRot1 (fun i => Aes.below i 1) (by decide) s i
  have h2 := @vqtbl1qU8_eq kRot2 (fun i => Aes.below i 2) (by decide) s i
  have h3 := @vqtbl1qU8_eq kRot3 (fun i => Aes.below i 3) (by decide) s i
  simp only [aesMixColumnsNeon, veorqU8, aesXtimeNeon_apply, h1, h2, h3]
  rw [Aes.mix_column, Aes.mixColumns_apply, below_zero]

theorem aesInvMixColumnsNeon_eq (s : U8x16) : aesInvMixColumnsNeon s = Aes.invMixColumns s := by
  have hRot (i : Fin 16) := @vqtbl1qU8_eq kRot2 (fun i => Aes.below i 2) (by decide) s i
  funext i
  simp only [aesInvMixColumnsNeon, aesMixColumnsNeon_eq, Aes.mixColumns_apply,
    Aes.invMixColumns_apply, veorqU8, aesXtimeNeon_apply, hRot,
    @below_below 0 2 2 rfl, @below_below 1 2 3 rfl, @below_below 2 2 0 rfl, @below_below 3 2 1 rfl]
  exact Aes.invMix_column _ _ _ _

theorem encryptTransformNeon_eq (input : AesBlock) :
    encryptTransformNeon input = Aes.mixColumns (Aes.shiftRows (Aes.subBytes input)) := by
  rw [encryptTransformNeon, aesSubBytesNeon_eq, aesShiftRowsNeon_eq, aesMixColumnsNeon_eq]

theorem decryptTransformNeon_eq (input : AesBlock) :
    decryptTransformNeon input =
      Aes.invMixColumns (Aes.invSubBytes (Aes.invShiftRows input)) := by
  rw [decryptTransformNeon, aesInvShiftRowsNeon_eq, aesInvSubBytesNeon_eq, aesInvMixColumnsNeon_eq]

/-! ## The tables -/

/-- A column as a word. -/
def columnWord (b : Fin 4 → BitVec 8) : BitVec 32 := leBytes 4 fun k => b (Fin.ofNat 4 k)

theorem byteOf_columnWord (b : Fin 4 → BitVec 8) {r : Nat} (hr : r < 4) :
    byteOf (columnWord b) r = b (Fin.ofNat 4 r) := byteOf_leBytes hr

/-- The products of the coefficients of `MixColumns` with a byte. -/
def mixProducts (y : BitVec 8) : Fin 4 → BitVec 8
  | 0 => Aes.xtime y
  | 1 => y ^^^ Aes.xtime y
  | 2 => y
  | 3 => y

/-- The products of the coefficients of `InvMixColumns` with a byte. -/
def invMixProducts (y : BitVec 8) : Fin 4 → BitVec 8
  | 0 => Aes.xtime y ^^^ (Aes.xtime (Aes.xtime y) ^^^ Aes.xtime (Aes.xtime (Aes.xtime y)))
  | 1 => y ^^^ (Aes.xtime y ^^^ Aes.xtime (Aes.xtime (Aes.xtime y)))
  | 2 => y ^^^ (Aes.xtime (Aes.xtime y) ^^^ Aes.xtime (Aes.xtime (Aes.xtime y)))
  | 3 => y ^^^ Aes.xtime (Aes.xtime (Aes.xtime y))

/-- Table `t` holds column `t` of the matrix times the substituted byte. -/
theorem lutEnc_eq : ∀ t : Fin 4, randomxAesLutEnc t = (List.finRange 256).map fun x =>
    (columnWord fun r => mixProducts (Aes.sBox (BitVec.ofFin x)) (t - r)).toNat := by
  simp only [Aes.sBox, Aes.inverse_eq]
  decide +kernel

theorem lutDec_eq : ∀ t : Fin 4, randomxAesLutDec t = (List.finRange 256).map fun x =>
    (columnWord fun r => invMixProducts (Aes.invSBox (BitVec.ofFin x)) (t - r)).toNat := by
  simp only [Aes.invSBox, Aes.inverse_eq]
  decide +kernel

theorem byteOf_xor (a b : BitVec 32) (k : Nat) : byteOf (a ^^^ b) k = byteOf a k ^^^ byteOf b k :=
  BitVec.extractLsb'_xor

/-- The index of a lookup is a byte of the block. -/
theorem index_eq (input : AesBlock) (c : Fin 4) {k : Nat} (hk : k < 4) :
    ((blockWord input c >>> (8 * k)) &&& 0xff).toNat =
      (input ⟨(4 * c + k) % 16, by omega⟩).toNat := by
  have hByte : byteOf (blockWord input c) k = input ⟨(4 * c + k) % 16, by omega⟩ :=
    byteOf_leBytes hk
  rw [← hByte, byteOf, BitVec.extractLsb'_toNat, BitVec.toNat_and, BitVec.toNat_ushiftRight]
  exact Nat.and_two_pow_sub_one_eq_mod _ 8

/-- A lookup in a table whose entries are columns. -/
theorem byteOf_lookUp {lut : Fin 4 → List Nat} {column : BitVec 8 → Fin 4 → Fin 4 → BitVec 8}
    (hLut : ∀ t, lut t = (List.finRange 256).map fun x =>
      (columnWord (column (BitVec.ofFin x) t)).toNat)
    (input : AesBlock) (t c : Fin 4) {shift k r : Nat} (hShift : shift = 8 * k) (hk : k < 4)
    (hr : r < 4) :
    byteOf (lookUp lut t (blockWord input c) shift) r =
      column (input ⟨(4 * c + k) % 16, by omega⟩) t (Fin.ofNat 4 r) := by
  have hLt := (input ⟨(4 * c + k) % 16, by omega⟩).isLt
  rw [hShift, lookUp, index_eq input c hk, hLut, List.getD_eq_getElem _ _ (by simpa using hLt),
    List.getElem_map, List.getElem_finRange, BitVec.ofNat_toNat, BitVec.setWidth_eq,
    byteOf_columnWord _ hr]
  rfl

/-- Four terms, from any one of them on. -/
theorem xor_cyclic (f : Fin 4 → BitVec 8) (r : Fin 4) :
    f 0 ^^^ f 1 ^^^ f 2 ^^^ f 3 = f r ^^^ f (r + 1) ^^^ f (r + 2) ^^^ f (r + 3) := by
  match r with
  | 0 => rfl
  | 1 =>
    change _ = f 1 ^^^ f 2 ^^^ f 3 ^^^ f 0
    ac_rfl
  | 2 =>
    change _ = f 2 ^^^ f 3 ^^^ f 0 ^^^ f 1
    ac_rfl
  | 3 =>
    change _ = f 3 ^^^ f 0 ^^^ f 1 ^^^ f 2
    ac_rfl

/-- The byte that word `word c t` has in row `t`, for byte `t + 4 c`. -/
def sourceByte (word : Fin 4 → Fin 4 → Fin 4) (j : Fin 16) : Fin 16 :=
  ⟨(4 * word ⟨j / 4, by omega⟩ ⟨j % 4, by omega⟩ + j % 4) % 16, by omega⟩

/-- The lookups of one round: a circulant matrix on substituted and moved bytes. -/
theorem byTable_eq {lut : Fin 4 → List Nat} {coef : Fin 4 → BitVec 8} {S : BitVec 8 → BitVec 8}
    (hLut : ∀ t, lut t = (List.finRange 256).map fun x =>
      (columnWord fun r => Aes.mul (coef (t - r)) (S (BitVec.ofFin x))).toNat)
    (word : Fin 4 → Fin 4 → Fin 4) (input : AesBlock) :
    ofWords (fun c => lookUp lut 0 (blockWord input (word c 0)) 0 ^^^
        lookUp lut 1 (blockWord input (word c 1)) 8 ^^^
        lookUp lut 2 (blockWord input (word c 2)) 16 ^^^
        lookUp lut 3 (blockWord input (word c 3)) 24) =
      Aes.mixWith coef fun j => S (input (sourceByte word j)) := by
  funext i
  have hr : i.val % 4 < 4 := Nat.mod_lt _ (by decide)
  have hc : i.val / 4 < 4 := by omega
  -- the term of table `t`
  let f : Fin 4 → BitVec 8 := fun t => Aes.mul (coef (t - Fin.ofNat 4 (i % 4)))
    (S (input ⟨(4 * word ⟨i / 4, hc⟩ t + t) % 16, by omega⟩))
  have hTerm (k : Fin 4) : f (Fin.ofNat 4 (i % 4) + k) =
      Aes.mul (coef k) (S (input (sourceByte word (Aes.below i k)))) := by
    have hRow : Fin.ofNat 4 (i % 4) + k = ⟨(4 * (i / 4) + (i + k) % 4) % 4, by omega⟩ := by
      apply Fin.ext
      simp only [Fin.val_add, Fin.val_ofNat]
      omega
    have hColumn : (4 * (i.val / 4) + (i + k) % 4) / 4 = i / 4 := by omega
    simp only [f, add_sub_cancel_left]
    rw [hRow]
    simp only [sourceByte, Aes.below, hColumn]
  have hByte (t : Fin 4) {shift : Nat} (hShift : shift = 8 * t) :
      byteOf (lookUp lut t (blockWord input (word ⟨i / 4, hc⟩ t)) shift) (i % 4) = f t :=
    @byteOf_lookUp lut (fun x t r => Aes.mul (coef (t - r)) (S x)) hLut input t
      (word ⟨i / 4, hc⟩ t) shift t _ hShift t.isLt hr
  calc ofWords _ i = f 0 ^^^ f 1 ^^^ f 2 ^^^ f 3 := by
        rw [ofWords, byteOf_xor, byteOf_xor, byteOf_xor, @hByte 0 0 rfl, @hByte 1 8 rfl,
          @hByte 2 16 rfl, @hByte 3 24 rfl]
    _ = f (Fin.ofNat 4 (i % 4) + 0) ^^^ f (Fin.ofNat 4 (i % 4) + 1) ^^^
          f (Fin.ofNat 4 (i % 4) + 2) ^^^ f (Fin.ofNat 4 (i % 4) + 3) := by
        rw [xor_cyclic f (Fin.ofNat 4 (i % 4)), add_zero]
    _ = _ := by rw [hTerm, hTerm, hTerm, hTerm]; rfl

theorem mixProducts_eq (y : BitVec 8) (k : Fin 4) :
    mixProducts y k = Aes.mul (![0x02, 0x03, 0x01, 0x01] k) y := by
  match k with
  | 0 => exact (Aes.mul_02 y).symm
  | 1 => exact (Aes.mul_03 y).symm
  | 2 => exact (Aes.mul_01 y).symm
  | 3 => exact (Aes.mul_01 y).symm

theorem invMixProducts_eq (y : BitVec 8) (k : Fin 4) :
    invMixProducts y k = Aes.mul (![0x0e, 0x0b, 0x0d, 0x09] k) y := by
  match k with
  | 0 => exact (Aes.mul_0e y).symm
  | 1 => exact (Aes.mul_0b y).symm
  | 2 => exact (Aes.mul_0d y).symm
  | 3 => exact (Aes.mul_09 y).symm

theorem lutEnc_mul (t : Fin 4) : randomxAesLutEnc t = (List.finRange 256).map fun x =>
    (columnWord fun r => Aes.mul (![0x02, 0x03, 0x01, 0x01] (t - r))
      (Aes.sBox (BitVec.ofFin x))).toNat := by
  simp only [lutEnc_eq, mixProducts_eq]

theorem lutDec_mul (t : Fin 4) : randomxAesLutDec t = (List.finRange 256).map fun x =>
    (columnWord fun r => Aes.mul (![0x0e, 0x0b, 0x0d, 0x09] (t - r))
      (Aes.invSBox (BitVec.ofFin x))).toNat := by
  simp only [lutDec_eq, invMixProducts_eq]

theorem encryptTransformTtable_eq (input : AesBlock) :
    encryptTransformTtable input = Aes.mixColumns (Aes.shiftRows (Aes.subBytes input)) := by
  have hWords : encryptTransformTtable input = ofWords fun c =>
      lookUp randomxAesLutEnc 0 (blockWord input (c + 0)) 0 ^^^
        lookUp randomxAesLutEnc 1 (blockWord input (c + 1)) 8 ^^^
        lookUp randomxAesLutEnc 2 (blockWord input (c + 2)) 16 ^^^
        lookUp randomxAesLutEnc 3 (blockWord input (c + 3)) 24 := by
    rw [encryptTransformTtable]
    congr 1
    funext c
    match c with
    | 0 => rfl
    | 1 => rfl
    | 2 => rfl
    | 3 => rfl
  have hPlace : ∀ j : Fin 16, sourceByte (fun c t => c + t) j =
      ⟨(j + 4 * (j % 4)) % 16, by omega⟩ := by decide
  rw [hWords, byTable_eq lutEnc_mul fun c t => c + t]
  simp only [hPlace]
  rfl

theorem decryptTransformTtable_eq (input : AesBlock) :
    decryptTransformTtable input =
      Aes.invMixColumns (Aes.invSubBytes (Aes.invShiftRows input)) := by
  have hWords : decryptTransformTtable input = ofWords fun c =>
      lookUp randomxAesLutDec 0 (blockWord input (c - 0)) 0 ^^^
        lookUp randomxAesLutDec 1 (blockWord input (c - 1)) 8 ^^^
        lookUp randomxAesLutDec 2 (blockWord input (c - 2)) 16 ^^^
        lookUp randomxAesLutDec 3 (blockWord input (c - 3)) 24 := by
    rw [decryptTransformTtable]
    congr 1
    funext c
    match c with
    | 0 => rfl
    | 1 => rfl
    | 2 => rfl
    | 3 => rfl
  have hPlace : ∀ j : Fin 16, sourceByte (fun c t => c - t) j =
      ⟨(j + 16 - 4 * (j % 4)) % 16, by omega⟩ := by decide
  rw [hWords, byTable_eq lutDec_mul fun c t => c - t]
  simp only [hPlace]
  rfl

/-- **The AES round.** On every block, the tower-field transformations are those by
table, and both are the transformations of FIPS 197: `SubBytes`, `ShiftRows` and
`MixColumns`, and their inverses. The tables are the standard ones: entry `x` of
table `t` is column `t` of the matrix times the substituted byte. -/
theorem transforms_correct :
    (∀ block : AesBlock, encryptTransformNeon block = encryptTransformTtable block ∧
        decryptTransformNeon block = decryptTransformTtable block) ∧
      (∀ block : AesBlock, encryptTransformTtable block =
          Aes.mixColumns (Aes.shiftRows (Aes.subBytes block)) ∧
        decryptTransformTtable block =
          Aes.invMixColumns (Aes.invSubBytes (Aes.invShiftRows block))) ∧
      (∀ t : Fin 4, randomxAesLutEnc t = (List.finRange 256).map fun x =>
        (columnWord fun r => Aes.mul (![0x02, 0x03, 0x01, 0x01] (t - r))
          (Aes.sBox (BitVec.ofFin x))).toNat) ∧
      (∀ t : Fin 4, randomxAesLutDec t = (List.finRange 256).map fun x =>
        (columnWord fun r => Aes.mul (![0x0e, 0x0b, 0x0d, 0x09] (t - r))
          (Aes.invSBox (BitVec.ofFin x))).toNat) ∧
      (∀ b : BitVec 8, b = 0 ∨ Aes.mul b (Aes.inverse b) = 1) ∧
      ∀ b : BitVec 8, Aes.invSBox (Aes.sBox b) = b := by
  refine ⟨fun block => ⟨?_, ?_⟩, fun block => ⟨?_, ?_⟩, lutEnc_mul, lutDec_mul, Aes.mul_inverse,
    Aes.invSBox_sBox⟩
  · rw [encryptTransformNeon_eq, encryptTransformTtable_eq]
  · rw [decryptTransformNeon_eq, decryptTransformTtable_eq]
  · exact encryptTransformTtable_eq block
  · exact decryptTransformTtable_eq block

end ArmRx.Hash
