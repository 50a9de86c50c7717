import ArmRx.Hash.Argon2
import ArmRx.Hash.Argon2Reference

/-!
# The memory of the cache

Embeds what `Argon2dCache::initialize` (`src/argon2.cpp`) does to the memory: the
prehash, the two starting blocks, and the three loops. RFC 9106 fills its memory
with the block its reference set selects; since every iteration of the source
selects the same block, the whole fill leaves the same memory.

* `fillStep_eq` — one iteration.
* `initializeMemory_eq` — the whole of it, by induction over the iterations.
-/

namespace ArmRx.Hash

open ArmRx.Lib

/-- `blocks_`. -/
abbrev Memory : Type := Nat → Argon2Block

/-- `bytes_to_block`. -/
def bytesToBlock (input : List (BitVec 8)) : Argon2Block := fun word => load64 input (8 * word)

/-- `salt`. -/
def salt : List (BitVec 8) := [0x52, 0x61, 0x6e, 0x64, 0x6f, 0x6d, 0x58, 0x03]

/-- `prehash`. -/
def prehash (memoryBlocks : BitVec 64) (passes : Nat) (key : List (BitVec 8)) : List (BitVec 8) :=
  le32 1 ++ le32 0 ++ le32 (memoryBlocks.setWidth 32) ++ le32 (BitVec.ofNat 32 passes) ++
    le32 0x13 ++ le32 0 ++ le32 (BitVec.ofNat 32 key.length) ++ key ++
    le32 (BitVec.ofNat 32 salt.length) ++ salt ++ le32 0 ++ le32 0

/-- One iteration of the three loops. -/
def fillStep (memoryBlocks : BitVec 64) (blocks : Memory) (p : Position) : Memory :=
  let current := (p.current memoryBlocks).toNat
  let previous := (p.previous memoryBlocks).toNat
  let j1 := (blocks previous 0).setWidth 32
  let reference := (p.reference memoryBlocks j1).toNat
  Function.update blocks current (argon2Compress (blocks previous) (blocks reference)
    (if p.pass = 0 then none else some (blocks current)))

/-- The memory that `Argon2dCache::initialize` leaves. -/
def initializeMemory (memoryBlocks : BitVec 64) (passes : Nat) (key : List (BitVec 8))
    (blocks : Memory) : Except String Memory := do
  let h0 ← blake2b (prehash memoryBlocks passes key) 64
  let first ← argon2Hprime (h0 ++ le32 0 ++ le32 0) 1024
  let second ← argon2Hprime (h0 ++ le32 1 ++ le32 0) 1024
  let blocks := Function.update (Function.update blocks 0 (bytesToBlock first)) 1
    (bytesToBlock second)
  pure ((visited memoryBlocks passes).foldl (fillStep memoryBlocks) blocks)

namespace Rfc9106

/-- Section 3.5: the compression function, with the permutation `P` first on the rows
and then on the columns. -/
def G (X Y : Argon2Block) : Argon2Block :=
  let R : Argon2Block := fun i => X i ^^^ Y i
  fun i => R i ^^^ permuteBlockScalar R i

/-- Section 3.2, steps 5 and 6, for one lane of `q` blocks: block `j` of a pass, from
its predecessor and its reference block. -/
def fillBlock (q : Nat) (B : Memory) (p : Position) : Memory :=
  let j := p.slice * (q / 4) + p.index
  let previous := (j + q - 1) % q
  let J1 := (B previous 0).toNat % 2 ^ 32
  match referenceBlock q p.pass p.slice p.index J1 with
  | some z =>
    Function.update B j fun i =>
      if p.pass = 0 then G (B previous) (B z) i else G (B previous) (B z) i ^^^ B j i
  | none => B

/-- Section 3.2, step 1, of Argon2d version 0x13 with one lane and no tag, secret or
associated data. -/
def H0 (m t : Nat) (P S : List (BitVec 8)) : List (BitVec 8) :=
  Rfc7693.blake2b (LE32 1 ++ LE32 0 ++ LE32 m ++ LE32 t ++ LE32 0x13 ++ LE32 0 ++
    LE32 P.length ++ P ++ LE32 S.length ++ S ++ LE32 0 ++ LE32 0) 64

/-- Section 3.2, steps 3 to 6. -/
def memory (q passes : Nat) (P S : List (BitVec 8)) (positions : List Position) (B : Memory) :
    Memory :=
  let first := hPrime Rfc7693.blake2b 1024 (H0 q passes P S ++ LE32 0 ++ LE32 0)
  let second := hPrime Rfc7693.blake2b 1024 (H0 q passes P S ++ LE32 1 ++ LE32 0)
  positions.foldl (fillBlock q) (Function.update (Function.update B 0 (bytesToBlock first)) 1
    (bytesToBlock second))

end Rfc9106

variable {memoryBlocks : BitVec 64} {passes : Nat}

theorem argon2Compress_eq (previous reference : Argon2Block) (destination : Option Argon2Block) :
    argon2Compress previous reference destination = fun i =>
      match destination with
      | some destination => Rfc9106.G previous reference i ^^^ destination i
      | none => Rfc9106.G previous reference i := by
  funext i
  rw [argon2Compress, permuteBlockNeon_eq]
  rfl

/-- One iteration writes the block of the RFC. -/
theorem fillStep_eq (hSize : Size memoryBlocks.toNat) {p : Position}
    (hp : Inside memoryBlocks.toNat p) (blocks : Memory) :
    fillStep memoryBlocks blocks p = Rfc9106.fillBlock memoryBlocks.toNat blocks p := by
  have hCurrent := (current_spec hSize hp).2
  have hPrevious := (previous_spec hSize hp).2
  rw [fillStep, Rfc9106.fillBlock, hCurrent, hPrevious]
  generalize (p.slice * (memoryBlocks.toNat / 4) + p.index + memoryBlocks.toNat - 1) %
    memoryBlocks.toNat = previous
  have hRfc := referenceBlock_eq hSize hp ((blocks previous 0).setWidth 32)
  rw [BitVec.toNat_setWidth] at hRfc
  rw [hRfc, argon2Compress_eq]
  by_cases hPass : p.pass = 0 <;> simp only [hPass, if_true, if_false]

/-- The loops leave the memory of the RFC: by induction over the iterations, each of
which lies inside the memory. -/
theorem fill_eq (hSize : Size memoryBlocks.toNat) {positions : List Position}
    (hPositions : ∀ p ∈ positions, p ∈ visited memoryBlocks passes) (blocks : Memory) :
    positions.foldl (fillStep memoryBlocks) blocks =
      positions.foldl (Rfc9106.fillBlock memoryBlocks.toNat) blocks := by
  induction positions generalizing blocks with
  | nil => rfl
  | cons p rest ih =>
    have hp := inside_of_visited (hPositions p List.mem_cons_self)
    rw [List.foldl_cons, List.foldl_cons, fillStep_eq hSize hp]
    exact ih (fun p' hp' => hPositions p' (List.mem_cons_of_mem _ hp')) _

theorem ok_bind {α β : Type} (a : α) (f : α → Except String β) : (Except.ok a >>= f) = f a := rfl

/-- **The cache memory.** For every size the constructor accepts below `2 ^ 32`
blocks, every number of passes and every key, the memory is the one RFC 9106 fills. -/
theorem initializeMemory_eq (hSize : Size memoryBlocks.toNat) {key : List (BitVec 8)}
    (hKey : key.length + 64 < 2 ^ 64) (blocks : Memory) :
    initializeMemory memoryBlocks passes key blocks =
      .ok (Rfc9106.memory memoryBlocks.toNat passes key salt (visited memoryBlocks passes)
        blocks) := by
  have hPrehash : (prehash memoryBlocks passes key).length < 2 ^ 64 := by
    simp only [prehash, le32, salt, List.length_append, List.length_map, List.length_range,
      List.length_cons, List.length_nil]
    omega
  have hMemoryBlocks : memoryBlocks.setWidth 32 = BitVec.ofNat 32 memoryBlocks.toNat :=
    BitVec.eq_of_toNat_eq (by rw [BitVec.toNat_setWidth, BitVec.toNat_ofNat])
  have hConstants : le32 0 = Rfc9106.LE32 0 ∧ le32 1 = Rfc9106.LE32 1 ∧
      le32 0x13 = Rfc9106.LE32 0x13 := ⟨le32_ofNat 0, le32_ofNat 1, le32_ofNat 0x13⟩
  have hH0 : blake2b (prehash memoryBlocks passes key) 64 =
      .ok (Rfc9106.H0 memoryBlocks.toNat passes key salt) := by
    rw [blake2b_eq hPrehash (by decide) le_rfl, Rfc9106.H0, prehash, hMemoryBlocks]
    simp only [le32_ofNat, hConstants]
  have hStart (index : Nat) :
      argon2Hprime (Rfc9106.H0 memoryBlocks.toNat passes key salt ++ Rfc9106.LE32 index ++
          Rfc9106.LE32 0) 1024 =
        .ok (Rfc9106.hPrime Rfc7693.blake2b 1024 (Rfc9106.H0 memoryBlocks.toNat passes key salt ++
          Rfc9106.LE32 index ++ Rfc9106.LE32 0)) := by
    refine argon2HprimeWith_eq blake2b_answers (by decide) ?_ (by decide) (by decide)
    rw [List.length_append, List.length_append, Rfc9106.H0, blake2b_length le_rfl, LE32_length,
      LE32_length]
    decide
  rw [initializeMemory, hH0, ok_bind, hConstants.1, hConstants.2.1, hStart, ok_bind, hStart,
    ok_bind, Rfc9106.memory]
  exact congrArg Except.ok (fill_eq hSize (fun _ hp => hp) _)

end ArmRx.Hash
