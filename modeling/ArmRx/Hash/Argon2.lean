import ArmRx.Hash.Blake2b

/-!
# Argon2: the variable-length hash and the permutation

Embeds `argon2_hprime`, the two versions of `permute_16` and `permute_block`, and
`argon2_compress` (`src/argon2.cpp`).

* `argon2Hprime_correct` — the variable-length hash is the `H'` of RFC 9106, and
  each BLAKE2b call it makes has a legal output length.
* `permuteBlockWith_spec` — the loops permute each row and then each column.
* `permuteBlockNeon_eq` — the permutation on vector lanes is the scalar one.
-/

namespace ArmRx.Hash

open ArmRx.Lib

/-! ## `argon2_hprime` -/

/-- `append_le32`: the four bytes it appends. -/
def le32 (value : BitVec 32) : List (BitVec 8) := (List.range 4).map (byteOf value)

def hprimeLengthError : String := "Argon2 H' output length is invalid"

/-- A hash function that may refuse an output length. -/
abbrev HashCall : Type := List (BitVec 8) → Nat → Except String (List (BitVec 8))

/-- The loop that collects the halves: iteration `i` of `rounds`, with `value` and
`output`. -/
def hprimeLoop (hash : HashCall) (rounds i : Nat) (value output : List (BitVec 8)) :
    Except String (List (BitVec 8) × List (BitVec 8)) :=
  if i < rounds then do
    let output := output ++ value.take 32
    let value ← if i + 1 < rounds then hash value 64 else pure value
    hprimeLoop hash rounds (i + 1) value output
  else pure (value, output)
termination_by rounds - i

/-- `argon2_hprime` over the hash function it calls. -/
def argon2HprimeWith (hash : HashCall) (input : List (BitVec 8)) (outputBytes : Nat) :
    Except String (List (BitVec 8)) :=
  if outputBytes = 0 ∨ 2 ^ 32 - 1 < outputBytes then .error hprimeLengthError
  else
    let initial := le32 (BitVec.ofNat 32 outputBytes) ++ input
    if outputBytes ≤ 64 then hash initial outputBytes
    else do
      let rounds := (outputBytes + 31) / 32 - 2
      let value ← hash initial 64
      let (value, output) ← hprimeLoop hash rounds 0 value []
      let final ← hash value (outputBytes - rounds * 32)
      pure (output ++ final)

/-- `argon2_hprime`. -/
def argon2Hprime : List (BitVec 8) → Nat → Except String (List (BitVec 8)) :=
  argon2HprimeWith blake2b

namespace Rfc9106

/-- Section 2: `LE32(a)`, the four base-256 digits of `a`, lowest first. -/
def LE32 (a : Nat) : List (BitVec 8) := (List.range 4).map fun k => BitVec.ofNat 8 (a / 256 ^ k)

/-- Section 3.3: `V_(i+1)`, the chained 64-byte digests, over the hash `H^64`. -/
def V (H : List (BitVec 8) → Nat → List (BitVec 8)) (first : List (BitVec 8)) :
    Nat → List (BitVec 8)
  | 0 => H first 64
  | i + 1 => H (V H first i) 64

/-- Section 3.3: the variable-length hash `H'^T`. -/
def hPrime (H : List (BitVec 8) → Nat → List (BitVec 8)) (T : Nat) (A : List (BitVec 8)) :
    List (BitVec 8) :=
  let first := LE32 T ++ A
  if T ≤ 64 then H first T
  else
    let r := (T + 31) / 32 - 2
    (List.range r).flatMap (fun i => (V H first i).take 32) ++ H (V H first (r - 1)) (T - 32 * r)

end Rfc9106

theorem LE32_length (a : Nat) : (Rfc9106.LE32 a).length = 4 := by
  rw [Rfc9106.LE32, List.length_map, List.length_range]

/-- The bytes that `append_le32` shifts out are the base-256 digits. -/
theorem le32_ofNat (a : Nat) : le32 (BitVec.ofNat 32 a) = Rfc9106.LE32 a := by
  refine List.map_congr_left fun k hk => BitVec.eq_of_toNat_eq ?_
  have hPower : 2 ^ (8 * k) = 256 ^ k := by rw [Nat.pow_mul]
  rw [byteOf, BitVec.extractLsb'_toNat, Nat.shiftRight_eq_div_pow, hPower, BitVec.toNat_ofNat,
    BitVec.toNat_ofNat]
  have hLt : k < 4 := List.mem_range.mp hk
  interval_cases k <;> omega

section Hprime

variable {hash : HashCall} {H : List (BitVec 8) → Nat → List (BitVec 8)}

/-- The hash function answers every legal output length, with that many bytes. On
other lengths it may do what it likes. -/
structure Answers (hash : HashCall) (H : List (BitVec 8) → Nat → List (BitVec 8)) (bound : Nat) :
    Prop where
  call : ∀ input n, input.length < bound → 1 ≤ n → n ≤ 64 → hash input n = .ok (H input n)
  length : ∀ input n, n ≤ 64 → (H input n).length = n

variable {bound : Nat}

theorem V_length (h : Answers hash H bound) (first : List (BitVec 8)) (i : Nat) :
    (Rfc9106.V H first i).length = 64 := by
  cases i with
  | zero => exact h.length _ _ le_rfl
  | succ i => exact h.length _ _ le_rfl

theorem hprimeLoop_done {rounds i : Nat} (hi : ¬ i < rounds) (value output : List (BitVec 8)) :
    hprimeLoop hash rounds i value output = .ok (value, output) := by
  rw [hprimeLoop, if_neg hi]
  rfl

/-- The loop, from iteration `i` on: it holds the digest of its iteration and leaves
the last one. -/
theorem hprimeLoop_eq (h : Answers hash H bound) (hBound : 64 < bound) (first : List (BitVec 8))
    {rounds i : Nat} (hi : i < rounds) (output : List (BitVec 8)) :
    hprimeLoop hash rounds i (Rfc9106.V H first i) output =
      .ok (Rfc9106.V H first (rounds - 1), output ++
        (List.range' i (rounds - i)).flatMap fun j => (Rfc9106.V H first j).take 32) := by
  generalize hn : rounds - i = n
  induction n generalizing i output with
  | zero => omega
  | succ n ih =>
    rw [hprimeLoop, if_pos hi, List.range'_succ, List.flatMap_cons, ← List.append_assoc]
    by_cases hLast : i + 1 < rounds
    · have hCall : hash (Rfc9106.V H first i) 64 = .ok (Rfc9106.V H first (i + 1)) :=
        h.call _ _ (by rw [V_length h]; exact hBound) (by decide) le_rfl
      rw [if_pos hLast, hCall]
      exact ih hLast _ (by omega)
    · -- the digest of the last iteration is not hashed again
      obtain rfl : i = rounds - 1 := by omega
      obtain rfl : n = 0 := by omega
      rw [if_neg hLast, List.range'_zero, List.flatMap_nil, List.append_nil]
      exact hprimeLoop_done hLast _ _

/-- Whatever the hash function does on other lengths, `argon2_hprime` returns the
bytes of `H'`: it calls it with legal output lengths only. -/
theorem argon2HprimeWith_eq (h : Answers hash H bound) (hBound : 64 < bound)
    {input : List (BitVec 8)} (hInput : input.length + 4 < bound) {outputBytes : Nat}
    (hPos : 1 ≤ outputBytes) (hMax : outputBytes ≤ 2 ^ 32 - 1) :
    argon2HprimeWith hash input outputBytes = .ok (Rfc9106.hPrime H outputBytes input) := by
  have hInitial : (Rfc9106.LE32 outputBytes ++ input).length < bound := by
    rw [List.length_append, LE32_length]
    omega
  rw [argon2HprimeWith, if_neg (by omega), le32_ofNat, Rfc9106.hPrime]
  by_cases hShort : outputBytes ≤ 64
  · simp only [hShort, if_true]
    exact h.call _ _ hInitial hPos hShort
  · simp only [hShort, if_false]
    have hRounds : 0 < (outputBytes + 31) / 32 - 2 := by omega
    have hFinal : 1 ≤ outputBytes - ((outputBytes + 31) / 32 - 2) * 32 ∧
        outputBytes - ((outputBytes + 31) / 32 - 2) * 32 ≤ 64 := by omega
    have hFirst := h.call _ 64 hInitial (by decide) le_rfl
    have hLoop := hprimeLoop_eq h hBound (Rfc9106.LE32 outputBytes ++ input) hRounds []
    have hLastCall := h.call (Rfc9106.V H (Rfc9106.LE32 outputBytes ++ input)
      ((outputBytes + 31) / 32 - 2 - 1)) _ (by rw [V_length h]; exact hBound) hFinal.1 hFinal.2
    rw [Rfc9106.V, Nat.sub_zero, List.nil_append, ← List.range_eq_range'] at hLoop
    rw [hFirst]
    change (hprimeLoop hash _ 0 _ [] >>= fun r =>
      hash r.1 (outputBytes - ((outputBytes + 31) / 32 - 2) * 32) >>= fun final =>
        pure (r.2 ++ final)) = _
    rw [hLoop]
    change (hash _ (outputBytes - ((outputBytes + 31) / 32 - 2) * 32) >>= fun final =>
      pure (_ ++ final)) = _
    rw [hLastCall, Nat.mul_comm 32]
    rfl

theorem hPrime_length (h : Answers hash H bound) {outputBytes : Nat} (input : List (BitVec 8)) :
    (Rfc9106.hPrime H outputBytes input).length = outputBytes := by
  rw [Rfc9106.hPrime]
  by_cases hShort : outputBytes ≤ 64
  · simp only [hShort, if_true]
    exact h.length _ _ hShort
  · simp only [hShort, if_false]
    have hHalf (i : Nat) : ((Rfc9106.V H (Rfc9106.LE32 outputBytes ++ input) i).take
        32).length = 32 := by rw [List.length_take, V_length h]; rfl
    rw [List.length_append, List.length_flatMap, h.length _ _ (by omega)]
    simp only [hHalf, List.map_const', List.length_range, List.sum_replicate, smul_eq_mul]
    omega

end Hprime

theorem blake2b_answers : Answers blake2b Rfc7693.blake2b (2 ^ 64) where
  call _ _ hLength hPos hLe := blake2b_eq hLength hPos hLe
  length _ _ hLe := blake2b_length hLe

/-- **The variable-length hash.** For every input and every output length from 1 to
`2 ^ 32 - 1`, `argon2_hprime` returns that many bytes, those of `H'` over BLAKE2b.
It does so with any hash function in place of `blake2b` that agrees with it on the
output lengths from 1 to 64: it makes no call with another one. -/
theorem argon2Hprime_correct {input : List (BitVec 8)} (hInput : input.length + 4 < 2 ^ 64)
    {outputBytes : Nat} (hPos : 1 ≤ outputBytes) (hMax : outputBytes ≤ 2 ^ 32 - 1) :
    argon2Hprime input outputBytes = .ok (Rfc9106.hPrime Rfc7693.blake2b outputBytes input) ∧
      (Rfc9106.hPrime Rfc7693.blake2b outputBytes input).length = outputBytes ∧
      ∀ hash : HashCall,
        (∀ input n, 1 ≤ n → n ≤ 64 → hash input n = blake2b input n) →
        argon2HprimeWith hash input outputBytes = argon2Hprime input outputBytes := by
  have hBlake := argon2HprimeWith_eq blake2b_answers (by decide) hInput hPos hMax
  refine ⟨hBlake, hPrime_length blake2b_answers input, fun hash hAgrees => ?_⟩
  have hAnswers : Answers hash Rfc7693.blake2b (2 ^ 64) :=
    ⟨fun input n hLength hPos hLe => (hAgrees input n hPos hLe).trans (blake2b_eq hLength hPos hLe),
      fun input n hLe => blake2b_length hLe⟩
  exact (argon2HprimeWith_eq hAnswers (by decide) hInput hPos hMax).trans hBlake.symm

/-- The length of the two starting blocks, over an empty input. -/
theorem argon2Hprime_correct_block :
    argon2Hprime [] 1024 = .ok (Rfc9106.hPrime Rfc7693.blake2b 1024 []) :=
  (argon2Hprime_correct (by decide) (by decide) (by decide)).1

/-! ## The permutation -/

/-- `blamka_add`. -/
def blamkaAdd (left right : BitVec 64) : BitVec 64 :=
  let product := (left.setWidth 32).setWidth 64 * (right.setWidth 32).setWidth 64
  left + right + 2 * product

/-- `gb`, on the four words it is given references to. -/
def gb (a b c d : BitVec 64) : BitVec 64 × BitVec 64 × BitVec 64 × BitVec 64 :=
  let a := blamkaAdd a b
  let d := (d ^^^ a).rotateRight 32
  let c := blamkaAdd c d
  let b := (b ^^^ c).rotateRight 24
  let a := blamkaAdd a b
  let d := (d ^^^ a).rotateRight 16
  let c := blamkaAdd c d
  let b := (b ^^^ c).rotateRight 63
  (a, b, c, d)

/-- `permute_16`. -/
def permute16 (words : Words16) : Words16 :=
  let words := mixAt gb 0 4 8 12 words
  let words := mixAt gb 1 5 9 13 words
  let words := mixAt gb 2 6 10 14 words
  let words := mixAt gb 3 7 11 15 words
  let words := mixAt gb 0 5 10 15 words
  let words := mixAt gb 1 6 11 12 words
  let words := mixAt gb 2 7 8 13 words
  mixAt gb 3 4 9 14 words

/-- `blamka_add_neon`. -/
def blamkaAddNeon (a b : U64x2) : U64x2 :=
  let prod := vmullU32 (vmovnU64 a) (vmovnU64 b)
  vaddqU64 (vaddqU64 a b) (vshlqNU64 prod 1)

/-- `rotr32_neon`. -/
def rotr32Neon (x : U64x2) : U64x2 := vreinterpretqU64U32 (vrev64qU32 (vreinterpretqU32U64 x))

/-- `rotr24_neon`. -/
def rotr24Neon (x : U64x2) : U64x2 := vsriqNU64 (vshlqNU64 x 40) x 24

/-- `rotr16_neon`. -/
def rotr16Neon (x : U64x2) : U64x2 := vsriqNU64 (vshlqNU64 x 48) x 16

/-- `rotr63_neon`. -/
def rotr63Neon (x : U64x2) : U64x2 := vsriqNU64 (vshlqNU64 x 1) x 63

/-- `gb_neon`. -/
def gbNeon (va vb vc vd : U64x2) : U64x2 × U64x2 × U64x2 × U64x2 :=
  let va := blamkaAddNeon va vb
  let vd := rotr32Neon (veorqU64 vd va)
  let vc := blamkaAddNeon vc vd
  let vb := rotr24Neon (veorqU64 vb vc)
  let va := blamkaAddNeon va vb
  let vd := rotr16Neon (veorqU64 vd va)
  let vc := blamkaAddNeon vc vd
  let vb := rotr63Neon (veorqU64 vb vc)
  (va, vb, vc, vd)

/-- `permute_16_neon`. Neighbours are loaded and stored with `vld1q_u64` and
`vst1q_u64`; the pairs (15, 12) and (7, 4) are combined from two loads and stored
half by half. -/
def permute16Neon (words : Words16) : Words16 :=
  let words := mixPair gbNeon (0, 1) (4, 5) (8, 9) (12, 13) words
  let words := mixPair gbNeon (2, 3) (6, 7) (10, 11) (14, 15) words
  let words := mixPair gbNeon (0, 1) (5, 6) (10, 11) (15, 12) words
  mixPair gbNeon (2, 3) (7, 4) (8, 9) (13, 14) words

/-- `Argon2Block`. -/
abbrev Argon2Block : Type := Fin 128 → BitVec 64

/-- `p(block.data() + 16 * row)`. -/
def permuteRow (p : Words16 → Words16) (block : Argon2Block) (row : Fin 8) : Argon2Block :=
  let words := p fun i => block ⟨16 * row + i, by omega⟩
  fun i => if i.val / 16 = row then words ⟨i % 16, by omega⟩ else block i

/-- The words of a column, in the order they are copied out. -/
def columnPlace (column : Fin 8) (i : Fin 16) : Fin 128 :=
  ⟨16 * (i / 2) + 2 * column + i % 2, by omega⟩

/-- The body of the loop over the columns: copy out, permute, copy back. -/
def permuteColumn (p : Words16 → Words16) (block : Argon2Block) (column : Fin 8) : Argon2Block :=
  let words := p fun i => block (columnPlace column i)
  (List.finRange 8).foldl (fun block (row : Fin 8) =>
    let block := Function.update block (columnPlace column ⟨2 * row, by omega⟩)
      (words ⟨2 * row, by omega⟩)
    Function.update block (columnPlace column ⟨2 * row + 1, by omega⟩)
      (words ⟨2 * row + 1, by omega⟩)) block

/-- The two loops that `permute_block` and `permute_block_neon` share. -/
def permuteBlockWith (p : Words16 → Words16) (block : Argon2Block) : Argon2Block :=
  let block := (List.finRange 8).foldl (permuteRow p) block
  (List.finRange 8).foldl (permuteColumn p) block

/-- `permute_block_neon`, which is `permute_block` of an AArch64 build. -/
def permuteBlockNeon : Argon2Block → Argon2Block := permuteBlockWith permute16Neon

/-- `permute_block` of the other builds. -/
def permuteBlockScalar : Argon2Block → Argon2Block := permuteBlockWith permute16

theorem blamkaAddNeon_apply (a b : U64x2) (l : Fin 2) :
    blamkaAddNeon a b l = blamkaAdd (a l) (b l) := by
  rw [blamkaAddNeon, blamkaAdd]
  simp only [vaddqU64, vshlqNU64, vmullU32, vmovnU64]
  rw [BitVec.shiftLeft_eq_mul_twoPow, BitVec.mul_comm]
  rfl

/-- Each lane of `gb_neon` is `gb`. -/
theorem gbNeon_laneWise : LaneWise gbNeon fun _ => gb := by
  intro a b c d l
  simp only [gbNeon, gb, rotr32Neon, rotr24Neon, rotr16Neon, rotr63Neon, vrev64qU32_eq,
    vsriqNU64_vshlqNU64 _ (rfl : 40 + 24 = 64) (by decide) (by decide),
    vsriqNU64_vshlqNU64 _ (rfl : 48 + 16 = 64) (by decide) (by decide),
    vsriqNU64_vshlqNU64 _ (rfl : 1 + 63 = 64) (by decide) (by decide), veorqU64,
    blamkaAddNeon_apply]

theorem permute16Neon_eq (words : Words16) : permute16Neon words = permute16 words := by
  rw [permute16Neon, mixPair_eq gbNeon_laneWise (by decide), mixPair_eq gbNeon_laneWise (by decide),
    mixPair_eq gbNeon_laneWise (by decide), mixPair_eq gbNeon_laneWise (by decide)]
  rfl

/-- The words of a row, in their order. -/
def rowPlace (row : Fin 8) (i : Fin 16) : Fin 128 := ⟨16 * row + i, by omega⟩

theorem permuteRow_apply (p : Words16 → Words16) (block : Argon2Block) (row r : Fin 8)
    (i : Fin 16) : permuteRow p block row (rowPlace r i) =
      if r = row then p (fun j => block (rowPlace row j)) i else block (rowPlace r i) := by
  have hRow : (rowPlace r i).val / 16 = r := by
    simp only [rowPlace]
    omega
  have hWord : (⟨(rowPlace r i).val % 16, by omega⟩ : Fin 16) = i := by
    apply Fin.ext
    simp only [rowPlace]
    omega
  simp only [permuteRow, hRow, hWord, ← Fin.ext_iff]
  rfl

/-- The loop over the rows applies `p` to each of them. -/
theorem foldl_permuteRow (p : Words16 → Words16) (rows : List (Fin 8)) (hNodup : rows.Nodup)
    (block : Argon2Block) (r : Fin 8) (i : Fin 16) :
    rows.foldl (permuteRow p) block (rowPlace r i) =
      if r ∈ rows then p (fun j => block (rowPlace r j)) i else block (rowPlace r i) := by
  induction rows generalizing block with
  | nil => rfl
  | cons row rows ih =>
    rw [List.nodup_cons] at hNodup
    rw [List.foldl_cons, ih hNodup.2]
    simp only [permuteRow_apply, List.mem_cons]
    by_cases hEq : r = row
    · subst hEq
      simp [hNodup.1]
    · simp [hEq]

theorem columnPlace_inj {c c' : Fin 8} {i i' : Fin 16} :
    columnPlace c i = columnPlace c' i' ↔ c = c' ∧ i = i' := by
  simp only [columnPlace, Fin.ext_iff]
  omega

/-- Two words of a column are copied back. -/
theorem copyBack_apply (words : Words16) (column row : Fin 8) (block : Argon2Block) (c : Fin 8)
    (i : Fin 16) :
    Function.update (Function.update block (columnPlace column ⟨2 * row, by omega⟩)
        (words ⟨2 * row, by omega⟩)) (columnPlace column ⟨2 * row + 1, by omega⟩)
        (words ⟨2 * row + 1, by omega⟩) (columnPlace c i) =
      if c = column ∧ (⟨i / 2, by omega⟩ : Fin 8) = row then words i
      else block (columnPlace c i) := by
  simp only [Function.update_apply, columnPlace_inj]
  have hHalf (h : i.val = 2 * row ∨ i.val = 2 * row + 1) : (⟨i / 2, by omega⟩ : Fin 8) = row :=
    Fin.ext (by simp only; omega)
  by_cases hColumn : c = column
  · by_cases hOdd : i = ⟨2 * row + 1, by omega⟩
    · have hRow := hHalf (.inr (congrArg Fin.val hOdd))
      rw [if_pos ⟨hColumn, hOdd⟩, if_pos ⟨hColumn, hRow⟩, ← hOdd]
    rw [if_neg (fun h => hOdd h.2)]
    by_cases hEven : i = ⟨2 * row, by omega⟩
    · have hRow := hHalf (.inl (congrArg Fin.val hEven))
      rw [if_pos ⟨hColumn, hEven⟩, if_pos ⟨hColumn, hRow⟩, ← hEven]
    rw [if_neg (fun h => hEven h.2), if_neg]
    rintro ⟨-, hRow⟩
    simp only [Fin.ext_iff] at hRow hOdd hEven
    omega
  · simp [hColumn]

theorem permuteColumn_apply (p : Words16 → Words16) (block : Argon2Block) (column c : Fin 8)
    (i : Fin 16) : permuteColumn p block column (columnPlace c i) =
      if c = column then p (fun j => block (columnPlace column j)) i
      else block (columnPlace c i) := by
  unfold permuteColumn
  generalize p (fun j => block (columnPlace column j)) = words
  -- by induction over the rows whose two words are copied back
  have hRows (rows : List (Fin 8)) (block : Argon2Block) :
      rows.foldl (fun block (row : Fin 8) =>
        Function.update (Function.update block (columnPlace column ⟨2 * row, by omega⟩)
          (words ⟨2 * row, by omega⟩)) (columnPlace column ⟨2 * row + 1, by omega⟩)
          (words ⟨2 * row + 1, by omega⟩)) block (columnPlace c i) =
        if c = column ∧ (⟨i / 2, by omega⟩ : Fin 8) ∈ rows then words i
        else block (columnPlace c i) := by
    induction rows generalizing block with
    | nil => simp
    | cons row rows ih =>
      rw [List.foldl_cons, ih, copyBack_apply]
      by_cases hColumn : c = column
      · by_cases hRow : (⟨i / 2, by omega⟩ : Fin 8) = row <;> simp [hColumn, hRow]
      · simp [hColumn]
  refine (hRows (List.finRange 8) block).trans ?_
  simp

/-- The loop over the columns applies `p` to each of them. -/
theorem foldl_permuteColumn (p : Words16 → Words16) (columns : List (Fin 8))
    (hNodup : columns.Nodup) (block : Argon2Block) (c : Fin 8) (i : Fin 16) :
    columns.foldl (permuteColumn p) block (columnPlace c i) =
      if c ∈ columns then p (fun j => block (columnPlace c j)) i
      else block (columnPlace c i) := by
  induction columns generalizing block with
  | nil => rfl
  | cons column columns ih =>
    rw [List.nodup_cons] at hNodup
    rw [List.foldl_cons, ih hNodup.2]
    simp only [permuteColumn_apply, List.mem_cons]
    by_cases hEq : c = column
    · subst hEq
      simp [hNodup.1]
    · simp [hEq]

/-- What the rows and the columns of a block become: `p` of every row, and then `p` of
every column of the result. -/
theorem permuteBlockWith_spec (p : Words16 → Words16) (block : Argon2Block) :
    ∃ rows : Argon2Block, (∀ r i, rows (rowPlace r i) = p (fun j => block (rowPlace r j)) i) ∧
      ∀ c i, permuteBlockWith p block (columnPlace c i) =
        p (fun j => rows (columnPlace c j)) i := by
  refine ⟨(List.finRange 8).foldl (permuteRow p) block, fun r i => ?_, fun c i => ?_⟩
  · rw [foldl_permuteRow p _ (List.nodup_finRange 8), if_pos (List.mem_finRange r)]
  · rw [permuteBlockWith, foldl_permuteColumn p _ (List.nodup_finRange 8),
      if_pos (List.mem_finRange c)]

/-- **The permutation.** On every block, the vector version is eight row and eight
column applications of the scalar `permute_16`. -/
theorem permuteBlockNeon_eq (block : Argon2Block) :
    permuteBlockNeon block = permuteBlockScalar block := by
  have hWords : permute16Neon = permute16 := funext permute16Neon_eq
  rw [permuteBlockNeon, permuteBlockScalar, hWords]

/-- `argon2_compress`. -/
def argon2Compress (previous reference : Argon2Block) (destination : Option Argon2Block) :
    Argon2Block :=
  let result : Argon2Block := fun i => previous i ^^^ reference i
  let permuted := permuteBlockNeon result
  fun i =>
    let word := result i ^^^ permuted i
    match destination with
    | some destination => word ^^^ destination i
    | none => word

end ArmRx.Hash
