import ArmRx.Lib.Bytes
import ArmRx.Lib.Mix
import ArmRx.Lib.Neon

/-!
# BLAKE2b

Embeds `src/blake2b.cpp`: the compression function on two vector lanes, which is
what an AArch64 build runs, the scalar one of the other builds, and the two
overloads of `blake2b` over it. RFC 7693 is stated beside them.

* `compress_eq_compressScalar` — the two compression functions agree.
* `blake2b_eq` — the loop over the blocks, against the RFC.
* `blake2b_correct` — both together.
-/

namespace ArmRx.Hash

open ArmRx.Lib

/-! ## Tables and words -/

/-- `iv`. -/
def iv : Fin 8 → BitVec 64 :=
  ![0x6a09e667f3bcc908, 0xbb67ae8584caa73b, 0x3c6ef372fe94f82b, 0xa54ff53a5f1d36f1,
    0x510e527fade682d1, 0x9b05688c2b3e6c1f, 0x1f83d9abfb41bd6b, 0x5be0cd19137e2179]

/-- `sigma`, with its twelve rows. -/
def sigma : List (Fin 16 → Fin 16) :=
  [![0, 1, 2, 3, 4, 5, 6, 7, 8, 9, 10, 11, 12, 13, 14, 15],
   ![14, 10, 4, 8, 9, 15, 13, 6, 1, 12, 0, 2, 11, 7, 5, 3],
   ![11, 8, 12, 0, 5, 2, 15, 13, 10, 14, 3, 6, 7, 1, 9, 4],
   ![7, 9, 3, 1, 13, 12, 11, 14, 2, 6, 5, 10, 4, 0, 15, 8],
   ![9, 0, 5, 7, 2, 4, 10, 15, 14, 1, 11, 12, 6, 8, 3, 13],
   ![2, 12, 6, 10, 0, 11, 8, 3, 4, 13, 7, 5, 15, 14, 1, 9],
   ![12, 5, 1, 15, 14, 13, 4, 10, 0, 7, 6, 3, 9, 2, 8, 11],
   ![13, 11, 7, 14, 12, 1, 3, 9, 5, 0, 15, 4, 8, 6, 2, 10],
   ![6, 15, 14, 9, 11, 3, 0, 8, 12, 2, 13, 7, 1, 4, 10, 5],
   ![10, 2, 8, 4, 7, 6, 1, 5, 15, 11, 9, 14, 3, 12, 13, 0],
   ![0, 1, 2, 3, 4, 5, 6, 7, 8, 9, 10, 11, 12, 13, 14, 15],
   ![14, 10, 4, 8, 9, 15, 13, 6, 1, 12, 0, 2, 11, 7, 5, 3]]

/-- `load64` on a little-endian machine. -/
def load64 (input : List (BitVec 8)) (k : Nat) : BitVec 64 :=
  leBytes 8 fun i => input.getD (k + i) 0

/-- The chaining state. -/
abbrev ChainingState : Type := Fin 8 → BitVec 64

/-- The working vector `v`, and the message words `m`. -/
abbrev Words16 : Type := Fin 16 → BitVec 64

/-! ## `compress` -/

/-- The message words of a block. -/
def messageWords (block : List (BitVec 8)) : Words16 := fun i => load64 block (8 * i)

/-- `v` before the rounds. -/
def initialV (h : ChainingState) (bytes : BitVec 64) (last : Bool) : Words16 :=
  let v : Words16 := fun i => if hi : i.val < 8 then h ⟨i, hi⟩ else iv ⟨i - 8, by omega⟩
  let v := Function.update v 12 (v 12 ^^^ bytes)
  if last then Function.update v 14 (~~~v 14) else v

/-- `h[i] ^= v[i] ^ v[i + 8]`. -/
def feedForward (h : ChainingState) (v : Words16) : ChainingState :=
  fun i => h i ^^^ (v ⟨i, by omega⟩ ^^^ v ⟨i + 8, by omega⟩)

/-- The lambda `g` of the scalar path. -/
def g (m : Words16) (a b c d x y : Fin 16) (v : Words16) : Words16 :=
  let v := Function.update v a (v a + v b + m x)
  let v := Function.update v d ((v d ^^^ v a).rotateRight 32)
  let v := Function.update v c (v c + v d)
  let v := Function.update v b ((v b ^^^ v c).rotateRight 24)
  let v := Function.update v a (v a + v b + m y)
  let v := Function.update v d ((v d ^^^ v a).rotateRight 16)
  let v := Function.update v c (v c + v d)
  Function.update v b ((v b ^^^ v c).rotateRight 63)

/-- A round of the scalar path. -/
def roundScalar (m : Words16) (v : Words16) (s : Fin 16 → Fin 16) : Words16 :=
  let v := g m 0 4 8 12 (s 0) (s 1) v
  let v := g m 1 5 9 13 (s 2) (s 3) v
  let v := g m 2 6 10 14 (s 4) (s 5) v
  let v := g m 3 7 11 15 (s 6) (s 7) v
  let v := g m 0 5 10 15 (s 8) (s 9) v
  let v := g m 1 6 11 12 (s 10) (s 11) v
  let v := g m 2 7 8 13 (s 12) (s 13) v
  g m 3 4 9 14 (s 14) (s 15) v

/-- The scalar path of `compress`. -/
def compressScalar (h : ChainingState) (block : List (BitVec 8)) (bytes : BitVec 64)
    (last : Bool) : ChainingState :=
  feedForward h (sigma.foldl (roundScalar (messageWords block)) (initialV h bytes last))

/-- The block of vector code that each row of a round repeats. -/
def gNeon (mx my va vb vc vd : U64x2) : U64x2 × U64x2 × U64x2 × U64x2 :=
  let va := vaddqU64 va (vaddqU64 vb mx)
  let vd := vsriqNU64 (vshlqNU64 (veorqU64 vd va) 32) (veorqU64 vd va) 32
  let vc := vaddqU64 vc vd
  let vb := vsriqNU64 (vshlqNU64 (veorqU64 vb vc) 40) (veorqU64 vb vc) 24
  let va := vaddqU64 va (vaddqU64 vb my)
  let vd := vsriqNU64 (vshlqNU64 (veorqU64 vd va) 48) (veorqU64 vd va) 16
  let vc := vaddqU64 vc vd
  let vb := vsriqNU64 (vshlqNU64 (veorqU64 vb vc) 1) (veorqU64 vb vc) 63
  (va, vb, vc, vd)

/-- A row: the lanes come from pairs of places, and go back to them. A pair of
neighbours is stored with `vst1q_u64`, another one lane by lane. -/
def rowNeon (m : Words16) (a b c d : Fin 16 × Fin 16) (x y : Fin 16 × Fin 16) (v : Words16) :
    Words16 :=
  mixPair (gNeon (vcombineU64 (m x.1) (m x.2)) (vcombineU64 (m y.1) (m y.2))) a b c d v

/-- A round of the vector path. -/
def roundNeon (m : Words16) (v : Words16) (s : Fin 16 → Fin 16) : Words16 :=
  let v := rowNeon m (0, 1) (4, 5) (8, 9) (12, 13) (s 0, s 2) (s 1, s 3) v
  let v := rowNeon m (2, 3) (6, 7) (10, 11) (14, 15) (s 4, s 6) (s 5, s 7) v
  let v := rowNeon m (0, 1) (5, 6) (10, 11) (15, 12) (s 8, s 10) (s 9, s 11) v
  rowNeon m (2, 3) (7, 4) (8, 9) (13, 14) (s 12, s 14) (s 13, s 15) v

/-- `compress`, as an AArch64 build has it. -/
def compress (h : ChainingState) (block : List (BitVec 8)) (bytes : BitVec 64) (last : Bool) :
    ChainingState :=
  feedForward h (sigma.foldl (roundNeon (messageWords block)) (initialV h bytes last))

/-! ## The two compression functions -/

/-- `g` as a function of the four words. -/
def gWords (mx my a b c d : BitVec 64) : BitVec 64 × BitVec 64 × BitVec 64 × BitVec 64 :=
  let a := a + b + mx
  let d := (d ^^^ a).rotateRight 32
  let c := c + d
  let b := (b ^^^ c).rotateRight 24
  let a := a + b + my
  let d := (d ^^^ a).rotateRight 16
  let c := c + d
  let b := (b ^^^ c).rotateRight 63
  (a, b, c, d)

theorem g_eq_mixAt {a b c d : Fin 16} (hNodup : [a, b, c, d].Nodup) (m : Words16) (x y : Fin 16)
    (v : Words16) : g m a b c d x y v = mixAt (gWords (m x) (m y)) a b c d v := by
  simp only [List.nodup_cons, List.mem_cons, List.not_mem_nil, or_false, not_or, List.nodup_nil,
    not_false_eq_true, and_true] at hNodup
  obtain ⟨⟨hab, hac, had⟩, ⟨hbc, hbd⟩, hcd⟩ := hNodup
  funext i
  simp only [g, mixAt, gWords, Function.update_apply, hab, hac, had, hbc, hbd, hcd, Ne.symm hab,
    Ne.symm hac, Ne.symm had, Ne.symm hbc, Ne.symm hbd, Ne.symm hcd, if_true, if_false]
  grind

theorem gNeon_laneWise (mx my : U64x2) :
    LaneWise (gNeon mx my) fun l => gWords (mx l) (my l) := by
  intro a b c d l
  simp only [gNeon, gWords, vsriqNU64_vshlqNU64 _ (rfl : 32 + 32 = 64) (by decide) (by decide),
    vsriqNU64_vshlqNU64 _ (rfl : 40 + 24 = 64) (by decide) (by decide),
    vsriqNU64_vshlqNU64 _ (rfl : 48 + 16 = 64) (by decide) (by decide),
    vsriqNU64_vshlqNU64 _ (rfl : 1 + 63 = 64) (by decide) (by decide), vaddqU64, veorqU64,
    BitVec.add_assoc]

/-- A row is two applications of `g`. -/
theorem rowNeon_eq {a b c d : Fin 16 × Fin 16}
    (hNodup : [a.1, b.1, c.1, d.1, a.2, b.2, c.2, d.2].Nodup) (m : Words16)
    (x y : Fin 16 × Fin 16) (v : Words16) :
    rowNeon m a b c d x y v =
      g m a.2 b.2 c.2 d.2 x.2 y.2 (g m a.1 b.1 c.1 d.1 x.1 y.1 v) := by
  have hFirst : [a.1, b.1, c.1, d.1].Nodup :=
    hNodup.sublist (List.sublist_append_left _ [a.2, b.2, c.2, d.2])
  have hSecond : [a.2, b.2, c.2, d.2].Nodup :=
    hNodup.sublist (List.sublist_append_right [a.1, b.1, c.1, d.1] _)
  rw [rowNeon, mixPair_eq (gNeon_laneWise _ _) hNodup, g_eq_mixAt hFirst, g_eq_mixAt hSecond]
  rfl

theorem roundNeon_eq (m : Words16) (v : Words16) (s : Fin 16 → Fin 16) :
    roundNeon m v s = roundScalar m v s := by
  rw [roundNeon, rowNeon_eq (by decide), rowNeon_eq (by decide), rowNeon_eq (by decide),
    rowNeon_eq (by decide)]
  rfl

/-- The vector compression function is the scalar one. -/
theorem compress_eq_compressScalar (h : ChainingState) (block : List (BitVec 8))
    (bytes : BitVec 64) (last : Bool) :
    compress h block bytes last = compressScalar h block bytes last := by
  have hRound : roundNeon (messageWords block) = roundScalar (messageWords block) :=
    funext₂ (roundNeon_eq _)
  rw [compress, compressScalar, hRound]

/-! ## `blake2b` -/

def outputLengthError : String := "BLAKE2b output length must be between 1 and 64 bytes"

/-- The state before the first block. -/
def initialState (outputBytes : Nat) : ChainingState :=
  Function.update iv 0 (iv 0 ^^^ (0x01010000 ^^^ BitVec.ofNat 64 outputBytes))

/-- `while (input.size() > 128U)`: the state, the byte counter and the rest of the
input behind the loop. -/
def absorb (state : ChainingState) (bytes : BitVec 64) (input : List (BitVec 8)) :
    ChainingState × BitVec 64 × List (BitVec 8) :=
  if 128 < input.length then
    absorb (compress state input (bytes + 128) false) (bytes + 128) (input.drop 128)
  else (state, bytes, input)
termination_by input.length
decreasing_by
  rw [List.length_drop]
  omega

/-- The 64 bytes of the state. -/
def digestBytes (state : ChainingState) : List (BitVec 8) :=
  (List.finRange 8).flatMap fun i => (List.range 8).map (byteOf (state i))

/-- The state behind the last block, in the `last` array padded with zeros. -/
def finalState (input : List (BitVec 8)) (outputBytes : Nat) : ChainingState :=
  let (state, bytes, input) := absorb (initialState outputBytes) 0 input
  let last := input ++ List.replicate (128 - input.length) 0
  compress state last (bytes + BitVec.ofNat 64 input.length) true

/-- The overload of `blake2b` that returns a vector. -/
def blake2b (input : List (BitVec 8)) (outputBytes : Nat) : Except String (List (BitVec 8)) :=
  if outputBytes = 0 ∨ 64 < outputBytes then .error outputLengthError
  else .ok ((digestBytes (finalState input outputBytes)).take outputBytes)

/-- The overload of `blake2b` that writes to `output`: the memory it leaves. -/
def blake2bInto (memory : ByteStore) (input : List (BitVec 8)) (output outputBytes : Nat) :
    Except String ByteStore :=
  if outputBytes = 0 ∨ 64 < outputBytes then .error outputLengthError
  else .ok fun x =>
    if output ≤ x ∧ x < output + outputBytes then
      (digestBytes (finalState input outputBytes)).getD (x - output) 0
    else memory x

/-! ## RFC 7693 -/

namespace Rfc7693

/-- Section 2.7: ten message schedules, the round number taken modulo ten. -/
def SIGMA : List (Fin 16 → Fin 16) :=
  [![0, 1, 2, 3, 4, 5, 6, 7, 8, 9, 10, 11, 12, 13, 14, 15],
   ![14, 10, 4, 8, 9, 15, 13, 6, 1, 12, 0, 2, 11, 7, 5, 3],
   ![11, 8, 12, 0, 5, 2, 15, 13, 10, 14, 3, 6, 7, 1, 9, 4],
   ![7, 9, 3, 1, 13, 12, 11, 14, 2, 6, 5, 10, 4, 0, 15, 8],
   ![9, 0, 5, 7, 2, 4, 10, 15, 14, 1, 11, 12, 6, 8, 3, 13],
   ![2, 12, 6, 10, 0, 11, 8, 3, 4, 13, 7, 5, 15, 14, 1, 9],
   ![12, 5, 1, 15, 14, 13, 4, 10, 0, 7, 6, 3, 9, 2, 8, 11],
   ![13, 11, 7, 14, 12, 1, 3, 9, 5, 0, 15, 4, 8, 6, 2, 10],
   ![6, 15, 14, 9, 11, 3, 0, 8, 12, 2, 13, 7, 1, 4, 10, 5],
   ![10, 2, 8, 4, 7, 6, 1, 5, 15, 11, 9, 14, 3, 12, 13, 0]]

/-- Section 2.6: the initialization vector, the fractional parts of the square roots
of the first eight primes. -/
def IV : Fin 8 → BitVec 64 := fun i =>
  BitVec.ofNat 64 (Nat.sqrt (![2, 3, 5, 7, 11, 13, 17, 19] i * 2 ^ 128))

/-- Section 3.1: the mixing function. -/
def G (v : Words16) (a b c d : Fin 16) (x y : BitVec 64) : Words16 :=
  let v := Function.update v a (v a + v b + x)
  let v := Function.update v d ((v d ^^^ v a).rotateRight 32)
  let v := Function.update v c (v c + v d)
  let v := Function.update v b ((v b ^^^ v c).rotateRight 24)
  let v := Function.update v a (v a + v b + y)
  let v := Function.update v d ((v d ^^^ v a).rotateRight 16)
  let v := Function.update v c (v c + v d)
  Function.update v b ((v b ^^^ v c).rotateRight 63)

/-- Section 3.2: a round, with its message schedule. -/
def round (m : Words16) (v : Words16) (i : Nat) : Words16 :=
  let s := SIGMA.getD (i % 10) id
  let v := G v 0 4 8 12 (m (s 0)) (m (s 1))
  let v := G v 1 5 9 13 (m (s 2)) (m (s 3))
  let v := G v 2 6 10 14 (m (s 4)) (m (s 5))
  let v := G v 3 7 11 15 (m (s 6)) (m (s 7))
  let v := G v 0 5 10 15 (m (s 8)) (m (s 9))
  let v := G v 1 6 11 12 (m (s 10)) (m (s 11))
  let v := G v 2 7 8 13 (m (s 12)) (m (s 13))
  G v 3 4 9 14 (m (s 14)) (m (s 15))

/-- Section 3.2: the local work vector, with the 128-bit offset counter `t` and the
final-block flag `f`. -/
def work (h : ChainingState) (t : Nat) (f : Bool) : Words16 :=
  let v : Words16 := fun i => if hi : i.val < 8 then h ⟨i, hi⟩ else IV ⟨i - 8, by omega⟩
  let v := Function.update v 12 (v 12 ^^^ BitVec.ofNat 64 t)
  let v := Function.update v 13 (v 13 ^^^ BitVec.ofNat 64 (t / 2 ^ 64))
  if f then Function.update v 14 (~~~v 14) else v

/-- Section 3.2: the compression function. -/
def F (h : ChainingState) (m : Words16) (t : Nat) (f : Bool) : ChainingState :=
  let v := (List.range 12).foldl (round m) (work h t f)
  fun i => h i ^^^ v ⟨i, by omega⟩ ^^^ v ⟨i + 8, by omega⟩

/-- Word `j` of block `i` of the message, padded with zeros. -/
def d (message : List (BitVec 8)) (i : Nat) : Words16 := fun j =>
  leBytes 8 fun k => message.getD (128 * i + 8 * j + k) 0

/-- Section 3.3: the number of blocks; the empty message has one. -/
def dd (message : List (BitVec 8)) : Nat := max 1 ((message.length + 127) / 128)

/-- Section 3.3: the chaining state before block `i`. -/
def stateBefore (message : List (BitVec 8)) (nn i : Nat) : ChainingState :=
  (List.range i).foldl (fun h j => F h (d message j) ((j + 1) * 128) false)
    (Function.update IV 0 (IV 0 ^^^ 0x01010000 ^^^ BitVec.ofNat 64 nn))

/-- Section 3.3: BLAKE2b without a key, with `nn` bytes of digest. -/
def blake2b (message : List (BitVec 8)) (nn : Nat) : List (BitVec 8) :=
  let h := F (stateBefore message nn (dd message - 1)) (d message (dd message - 1))
    message.length true
  ((List.finRange 8).flatMap fun i => (List.range 8).map (byteOf (h i))).take nn

theorem IV_eq : IV = iv := by
  funext i
  have hRoot : ∀ i : Fin 8, Nat.sqrt (![2, 3, 5, 7, 11, 13, 17, 19] i * 2 ^ 128) =
      (iv i).toNat + ![1, 1, 2, 2, 3, 3, 4, 4] i * 2 ^ 64 :=
    fun i => (Nat.eq_sqrt.mpr (by revert i; decide)).symm
  rw [IV, hRoot]
  apply BitVec.eq_of_toNat_eq
  rw [BitVec.toNat_ofNat, Nat.add_mul_mod_self_right, Nat.mod_eq_of_lt (iv i).isLt]

theorem sigma_eq : sigma = (List.range 12).map fun i => SIGMA.getD (i % 10) id := rfl

theorem G_eq (m : Words16) (a b c d x y : Fin 16) (v : Words16) :
    G v a b c d (m x) (m y) = g m a b c d x y v := rfl

theorem round_eq (m v : Words16) (i : Nat) :
    round m v i = roundScalar m v (SIGMA.getD (i % 10) id) := by
  simp only [round, roundScalar, G_eq]

/-- The twelve rounds follow the twelve rows of `sigma`. -/
theorem rounds_eq (m v : Words16) :
    (List.range 12).foldl (round m) v = sigma.foldl (roundScalar m) v := by
  have hRound : round m = fun v i => roundScalar m v (SIGMA.getD (i % 10) id) :=
    funext₂ (round_eq m)
  rw [hRound, sigma_eq, List.foldl_map]

theorem work_eq (h : ChainingState) {t : Nat} (ht : t < 2 ^ 64) (f : Bool) :
    work h t f = initialV h (BitVec.ofNat 64 t) f := by
  rw [work, initialV, IV_eq, Nat.div_eq_of_lt ht]
  dsimp only
  rw [BitVec.xor_zero, Function.update_eq_self]

/-- For a counter of 64 bits, `F` is the scalar compression function. -/
theorem F_eq (h : ChainingState) (block : List (BitVec 8)) {t : Nat} (ht : t < 2 ^ 64) (f : Bool) :
    F h (messageWords block) t f = compressScalar h block (BitVec.ofNat 64 t) f := by
  funext i
  rw [F, compressScalar, feedForward, work_eq h ht, rounds_eq]
  exact BitVec.xor_assoc _ _ _

/-- The words of a block are those of the message from the block on. -/
theorem d_eq (message : List (BitVec 8)) (i : Nat) :
    d message i = messageWords (message.drop (128 * i)) := by
  funext j
  simp only [d, messageWords, load64, List.getD_eq_getElem?_getD, List.getElem?_drop, Nat.add_assoc]

end Rfc7693

/-! ## The loop over the blocks -/

variable {message : List (BitVec 8)} {outputBytes : Nat}

open Rfc7693 in
/-- One more block. -/
theorem stateBefore_succ (hLength : message.length < 2 ^ 64) {i : Nat}
    (hi : 128 * (i + 1) < message.length) :
    stateBefore message outputBytes (i + 1) =
      compress (stateBefore message outputBytes i) (message.drop (128 * i))
        (BitVec.ofNat 64 (128 * i) + 128) false := by
  have hCounter : BitVec.ofNat 64 (128 * i) + 128 = BitVec.ofNat 64 ((i + 1) * 128) := by
    rw [show (i + 1) * 128 = 128 * i + 128 by ring, BitVec.ofNat_add]
    rfl
  rw [stateBefore, List.range_succ, List.foldl_append, List.foldl_cons, List.foldl_nil,
    ← stateBefore, d_eq, F_eq _ _ (by omega), compress_eq_compressScalar, hCounter]

open Rfc7693 in
/-- The loop comes out before the last block, from wherever it stands. -/
theorem absorb_eq (hLength : message.length < 2 ^ 64) {i : Nat} (hi : i ≤ dd message - 1) :
    absorb (stateBefore message outputBytes i) (BitVec.ofNat 64 (128 * i))
        (message.drop (128 * i)) =
      (stateBefore message outputBytes (dd message - 1),
        BitVec.ofNat 64 (128 * (dd message - 1)), message.drop (128 * (dd message - 1))) := by
  have hBlocks : dd message - 1 = (message.length - 1) / 128 := by
    rw [dd]
    omega
  generalize hn : dd message - 1 - i = n
  induction n generalizing i with
  | zero =>
    obtain rfl : i = dd message - 1 := by omega
    rw [absorb, if_neg (by rw [List.length_drop]; omega)]
  | succ n ih =>
    rw [absorb, if_pos (by rw [List.length_drop]; omega), ← stateBefore_succ hLength (by omega),
      List.drop_drop]
    have hCounter : BitVec.ofNat 64 (128 * i) + 128 = BitVec.ofNat 64 (128 * (i + 1)) := by
      rw [Nat.mul_add, BitVec.ofNat_add]
      rfl
    rw [hCounter, show 128 * i + 128 = 128 * (i + 1) by ring]
    exact ih (by omega) (by omega)

/-- Zeros behind the end do not change the words. -/
theorem messageWords_padded (input : List (BitVec 8)) (n : Nat) :
    messageWords (input ++ List.replicate n 0) = messageWords input := by
  funext i
  rw [messageWords, messageWords, load64, load64]
  refine leBytes_congr fun k _ => ?_
  rw [List.getD_eq_getElem?_getD, List.getD_eq_getElem?_getD, List.getElem?_append]
  split
  · rfl
  · next hEnd =>
    rw [List.getElem?_eq_none (Nat.le_of_not_lt hEnd), List.getElem?_replicate]
    split <;> rfl

theorem stateBefore_zero :
    Rfc7693.stateBefore message outputBytes 0 = initialState outputBytes := by
  rw [initialState, ← BitVec.xor_assoc, ← Rfc7693.IV_eq]
  rfl

open Rfc7693 in
theorem finalState_eq (hLength : message.length < 2 ^ 64) :
    finalState message outputBytes = F (stateBefore message outputBytes (dd message - 1))
      (d message (dd message - 1)) message.length true := by
  have hLoop := @absorb_eq message outputBytes hLength 0 (Nat.zero_le _)
  rw [stateBefore_zero, Nat.mul_zero, List.drop_zero] at hLoop
  have hBlocks : dd message - 1 = (message.length - 1) / 128 := by
    rw [dd]
    omega
  have hCounter : BitVec.ofNat 64 (128 * (dd message - 1)) +
      BitVec.ofNat 64 (message.drop (128 * (dd message - 1))).length =
      BitVec.ofNat 64 message.length := by
    rw [← BitVec.ofNat_add, List.length_drop]
    congr 1
    omega
  rw [d_eq, F_eq _ _ hLength, finalState, show (0 : BitVec 64) = BitVec.ofNat 64 0 from rfl, hLoop]
  dsimp only
  rw [hCounter, compress_eq_compressScalar, compressScalar, messageWords_padded, ← compressScalar]

/-- The loop over the blocks and the digest. -/
theorem digest_eq (hLength : message.length < 2 ^ 64) :
    (digestBytes (finalState message outputBytes)).take outputBytes =
      Rfc7693.blake2b message outputBytes := by
  rw [finalState_eq hLength]
  rfl

theorem blake2b_eq (hLength : message.length < 2 ^ 64) (hPos : 1 ≤ outputBytes)
    (hLe : outputBytes ≤ 64) :
    blake2b message outputBytes = .ok (Rfc7693.blake2b message outputBytes) := by
  rw [blake2b, if_neg (by omega), digest_eq hLength]

theorem digestBytes_length (state : ChainingState) : (digestBytes state).length = 64 := by
  simp [digestBytes]

theorem blake2b_length (hLe : outputBytes ≤ 64) :
    (Rfc7693.blake2b message outputBytes).length = outputBytes := by
  rw [Rfc7693.blake2b, List.length_take]
  exact Nat.min_eq_left ((digestBytes_length _).symm ▸ hLe)

/-- The memory with `digest` at `output`. -/
def written (memory : ByteStore) (output : Nat) (digest : List (BitVec 8)) : ByteStore := fun x =>
  if output ≤ x ∧ x < output + digest.length then digest.getD (x - output) 0 else memory x

theorem blake2bInto_eq (hLength : message.length < 2 ^ 64) (hPos : 1 ≤ outputBytes)
    (hLe : outputBytes ≤ 64) (memory : ByteStore) (output : Nat) :
    blake2bInto memory message output outputBytes =
      .ok (written memory output (Rfc7693.blake2b message outputBytes)) := by
  rw [blake2bInto, if_neg (by omega)]
  congr 1
  funext x
  rw [written, blake2b_length hLe, ← digest_eq hLength]
  split
  · next hIn =>
    rw [List.getD_eq_getElem?_getD, List.getD_eq_getElem?_getD, List.getElem?_take,
      if_pos (by omega)]
  · rfl

/-- **BLAKE2b.** The vector compression function is the scalar one on every state,
block, counter and flag; and for every message that a `span` can hold, and every
output length from 1 to 64, both overloads give the digest of RFC 7693. -/
theorem blake2b_correct :
    (∀ (h : ChainingState) (block : List (BitVec 8)) (bytes : BitVec 64) (last : Bool),
        compress h block bytes last = compressScalar h block bytes last) ∧
      ∀ (input : List (BitVec 8)) (outputBytes : Nat), input.length < 2 ^ 64 → 1 ≤ outputBytes →
        outputBytes ≤ 64 →
        blake2b input outputBytes = .ok (Rfc7693.blake2b input outputBytes) ∧
          ∀ (memory : ByteStore) (output : Nat),
            blake2bInto memory input output outputBytes =
              .ok (written memory output (Rfc7693.blake2b input outputBytes)) := by
  refine ⟨compress_eq_compressScalar, fun input outputBytes hLength hPos hLe => ?_⟩
  exact ⟨blake2b_eq hLength hPos hLe, blake2bInto_eq hLength hPos hLe⟩

/-- A message of two blocks, with the longest digest. -/
theorem blake2b_correct_twoBlocks :
    blake2b (List.replicate 129 0x61) 64 = .ok (Rfc7693.blake2b (List.replicate 129 0x61) 64) := by
  have hLength : (List.replicate 129 (0x61 : BitVec 8)).length < 2 ^ 64 := by
    rw [List.length_replicate]
    decide
  exact (blake2b_correct.2 _ 64 hLength (by decide) (by decide)).1

end ArmRx.Hash
