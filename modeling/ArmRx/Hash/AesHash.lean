import ArmRx.Hash.Aes

/-!
# The fused AES passes

Embeds `src/aes_hash.cpp` and `src/aes_generator.cpp`, for every choice of the
compile-time switches. Buffers are spans of one byte-addressed memory, so that two
buffers may be the same one.

A fused pass hashes line `i` before it overwrites it, and what it has overwritten
are the lines before. So when it reads a line, the line still has its first
contents, and the pass is the hash of those contents beside the fill.

* `fused_eq` — the fused loop, by induction over the lines.
* `fusedPasses_correct` — all the passes against the sequential definition.
-/

namespace ArmRx.Hash

open ArmRx.Lib

/-! ## Rounds -/

/-- The switches: `__ARM_FEATURE_AES`, `ARMRX_ENABLE_NEON_AES` and
`ARMRX_ENABLE_NEON_TTABLE_AES`. -/
structure AesBuild where
  armFeatureAes : Bool
  neonAes : Bool
  neonTtableAes : Bool

/-- The instruction `AESE`. -/
def vaeseqU8 (data key : U8x16) : U8x16 := Aes.shiftRows (Aes.subBytes (veorqU8 data key))

/-- The instruction `AESMC`. -/
def vaesmcqU8 (data : U8x16) : U8x16 := Aes.mixColumns data

/-- The instruction `AESD`. -/
def vaesdqU8 (data key : U8x16) : U8x16 := Aes.invSubBytes (Aes.invShiftRows (veorqU8 data key))

/-- The instruction `AESIMC`. -/
def vaesimcqU8 (data : U8x16) : U8x16 := Aes.invMixColumns data

/-- `encrypt_transform`. -/
def encryptTransform (build : AesBuild) (input : AesBlock) : AesBlock :=
  if build.armFeatureAes then vaesmcqU8 (vaeseqU8 input (vdupqNU8 0))
  else encryptTransformTtable input

/-- `decrypt_transform`. -/
def decryptTransform (build : AesBuild) (input : AesBlock) : AesBlock :=
  if build.armFeatureAes then vaesimcqU8 (vaesdqU8 input (vdupqNU8 0))
  else decryptTransformTtable input

/-- `aes_encrypt_round`. -/
def aesEncryptRound (build : AesBuild) (state roundKey : AesBlock) : AesBlock :=
  let output := if build.neonAes then encryptTransformNeon state else encryptTransform build state
  fun i => output i ^^^ roundKey i

/-- `aes_decrypt_round`. -/
def aesDecryptRound (build : AesBuild) (state roundKey : AesBlock) : AesBlock :=
  let output := if build.neonAes then decryptTransformNeon state else decryptTransform build state
  fun i => output i ^^^ roundKey i

/-- An encryption round of one lane of the `x4` functions. -/
def x4EncryptRound (build : AesBuild) (state roundKey : AesBlock) : AesBlock :=
  if build.neonTtableAes then veorqU8 (encryptTransform build state) roundKey
  else aesEncryptRound build state roundKey

/-- A decryption round of one lane of the `x4` functions. -/
def x4DecryptRound (build : AesBuild) (state roundKey : AesBlock) : AesBlock :=
  if build.neonTtableAes then veorqU8 (decryptTransform build state) roundKey
  else aesDecryptRound build state roundKey

theorem veorqU8_zero (s : U8x16) : veorqU8 s (vdupqNU8 0) = s :=
  funext fun _ => BitVec.xor_zero

theorem encryptTransform_eq (build : AesBuild) (input : AesBlock) :
    encryptTransform build input = Aes.mixColumns (Aes.shiftRows (Aes.subBytes input)) := by
  rw [encryptTransform, vaesmcqU8, vaeseqU8, veorqU8_zero, encryptTransformTtable_eq, ite_self]

theorem decryptTransform_eq (build : AesBuild) (input : AesBlock) :
    decryptTransform build input =
      Aes.invMixColumns (Aes.invSubBytes (Aes.invShiftRows input)) := by
  rw [decryptTransform, vaesimcqU8, vaesdqU8, veorqU8_zero, decryptTransformTtable_eq, ite_self]

/-- The generators and the `x4` functions make the same round, however they are
compiled. -/
theorem aesEncryptRound_eq (build : AesBuild) (state roundKey : AesBlock) :
    aesEncryptRound build state roundKey = x4EncryptRound build state roundKey := by
  rw [x4EncryptRound, aesEncryptRound, encryptTransformNeon_eq, encryptTransform_eq, ite_self]
  exact (ite_self _).symm

theorem aesDecryptRound_eq (build : AesBuild) (state roundKey : AesBlock) :
    aesDecryptRound build state roundKey = x4DecryptRound build state roundKey := by
  rw [x4DecryptRound, aesDecryptRound, decryptTransformNeon_eq, decryptTransform_eq, ite_self]
  exact (ite_self _).symm

/-! ## Keys, states and lines -/

/-- `build_aes_key`. -/
def buildAesKey (i3 i2 i1 i0 : BitVec 32) : AesBlock := fun i =>
  byteOf (![i0, i1, i2, i3] ⟨i / 4, by omega⟩) (i % 4)

def kAesGen1RKey0 : AesBlock := buildAesKey 0xb4f44917 0xdbb5552b 0x62716609 0x6daca553
def kAesGen1RKey1 : AesBlock := buildAesKey 0x0da1dc4e 0x1725d378 0x846a710d 0x6d7caf07
def kAesGen1RKey2 : AesBlock := buildAesKey 0x3e20e345 0xf4c0794f 0x9f947ec6 0x3f1262f1
def kAesGen1RKey3 : AesBlock := buildAesKey 0x49169154 0x16314c88 0xb1ba317c 0x6aef8135

def kAesGen4RKey0 : AesBlock := buildAesKey 0x99e5d23f 0x2f546d2b 0xd1833ddb 0x6421aadd
def kAesGen4RKey1 : AesBlock := buildAesKey 0xa5dfcde5 0x06f79d53 0xb6913f55 0xb20e3450
def kAesGen4RKey2 : AesBlock := buildAesKey 0x171c02bf 0x0aa4679f 0x515e7baf 0x5c3ed904
def kAesGen4RKey3 : AesBlock := buildAesKey 0xd8ded291 0xcd673785 0xe78f5d08 0x85623763
def kAesGen4RKey4 : AesBlock := buildAesKey 0x229effb4 0x3d518b6d 0xe3d6a7a6 0xb5826f73
def kAesGen4RKey5 : AesBlock := buildAesKey 0xb272b7d2 0xe9024d4e 0x9c10b3d9 0xc7566bf3
def kAesGen4RKey6 : AesBlock := buildAesKey 0xf63befa7 0x2ba9660a 0xf765a38b 0xf273c9e7
def kAesGen4RKey7 : AesBlock := buildAesKey 0xc0b0762d 0x0c06d1fd 0x915839de 0x7a7cd609

def hashXkey0 : AesBlock := buildAesKey 0x06890201 0x90dc56bf 0x8b24949f 0xf6fa8389
def hashXkey1 : AesBlock := buildAesKey 0xed18f99b 0xee1043c6 0x51f4e03c 0x61b263d1

/-- The four lanes: the local variables `s0` to `s3`. -/
abbrev Lanes : Type := Fin 4 → AesBlock

/-- `hash_state_0` to `hash_state_3`. -/
def hashState : Lanes :=
  ![buildAesKey 0xd7983aad 0xcc82db47 0x9fa856de 0x92b52c0d,
    buildAesKey 0xace78057 0xf59e125a 0x15c7b798 0x338d996e,
    buildAesKey 0xe8a07ce4 0x5079506b 0xae62c7d0 0x6a770017,
    buildAesKey 0x7e994948 0x79a10005 0x07ad828d 0x630a240c]

/-- `AesState`. -/
abbrev AesState : Type := Fin 64 → BitVec 8

/-- `read_block`. -/
def readBlock (state : AesState) (index : Fin 4) : AesBlock := fun i =>
  state ⟨index * 16 + i, by omega⟩

/-- `write_block`. -/
def writeBlock (state : AesState) (index : Fin 4) (block : AesBlock) : AesState := fun k =>
  if k.val / 16 = index then block ⟨k % 16, by omega⟩ else state k

/-- The four calls of `read_block`. -/
def readLanes (state : AesState) : Lanes := fun j => readBlock state j

/-- The four calls of `write_block`. -/
def writeLanes (state : AesState) (s : Lanes) : AesState :=
  writeBlock (writeBlock (writeBlock (writeBlock state 0 (s 0)) 1 (s 1)) 2 (s 2)) 3 (s 3)

/-- `read_block_from_span`, at an address. -/
def readBlockFromSpan (m : ByteStore) (a : Nat) : AesBlock := fun i => m (a + i)

/-- `write_block_to_span`, at an address. -/
def writeBlockToSpan (m : ByteStore) (a : Nat) (block : AesBlock) : ByteStore := fun x =>
  if h : a ≤ x ∧ x < a + 16 then block ⟨x - a, by omega⟩ else m x

/-- The four blocks of a line, read. -/
def readLine (m : ByteStore) (a : Nat) : Lanes := fun j => readBlockFromSpan m (a + 16 * j)

/-- The four blocks of a line, written. -/
def writeLine (m : ByteStore) (a : Nat) (s : Lanes) : ByteStore :=
  writeBlockToSpan (writeBlockToSpan (writeBlockToSpan (writeBlockToSpan m a (s 0)) (a + 16) (s 1))
    (a + 32) (s 2)) (a + 48) (s 3)

/-- `for (offset = 0; offset < size; offset += 64)`, from `offset` on. -/
def lineLoop {σ : Type} (size : Nat) (body : Nat → σ → σ) (offset : Nat) (s : σ) : σ :=
  if offset < size then lineLoop size body (offset + 64) (body offset s) else s
termination_by size - offset

/-! ## The passes -/

/-- The fill rounds of a line. -/
def fillRounds (build : AesBuild) (s : Lanes) : Lanes :=
  ![x4DecryptRound build (s 0) kAesGen1RKey0, x4EncryptRound build (s 1) kAesGen1RKey1,
    x4DecryptRound build (s 2) kAesGen1RKey2, x4EncryptRound build (s 3) kAesGen1RKey3]

/-- The rounds of a line of `fill_aes_4r_x4`. -/
def fillRounds4R (build : AesBuild) (s : Lanes) : Lanes :=
  let front := [kAesGen4RKey0, kAesGen4RKey1, kAesGen4RKey2, kAesGen4RKey3].foldl
    (fun (p : AesBlock × AesBlock) key =>
      (x4DecryptRound build p.1 key, x4EncryptRound build p.2 key)) (s 0, s 1)
  let back := [kAesGen4RKey4, kAesGen4RKey5, kAesGen4RKey6, kAesGen4RKey7].foldl
    (fun (p : AesBlock × AesBlock) key =>
      (x4DecryptRound build p.1 key, x4EncryptRound build p.2 key)) (s 2, s 3)
  ![front.1, front.2, back.1, back.2]

/-- The hash rounds, with a line in place of the round keys. -/
def hashRounds (build : AesBuild) (s keys : Lanes) : Lanes :=
  ![x4EncryptRound build (s 0) (keys 0), x4DecryptRound build (s 1) (keys 1),
    x4EncryptRound build (s 2) (keys 2), x4DecryptRound build (s 3) (keys 3)]

/-- The two finalization rounds. -/
def finalRounds (build : AesBuild) (s : Lanes) : Lanes :=
  hashRounds build (hashRounds build s fun _ => hashXkey0) fun _ => hashXkey1

/-- The body of the loop of a fill. -/
def fillLine (rounds : Lanes → Lanes) (data offset : Nat) (r : Lanes × ByteStore) :
    Lanes × ByteStore :=
  (rounds r.1, writeLine r.2 (data + offset) (rounds r.1))

/-- A fill, given the rounds of a line: the state and the memory it leaves. -/
def fillWith (rounds : Lanes → Lanes) (state : AesState) (m : ByteStore) (data size : Nat) :
    AesState × ByteStore :=
  let r := lineLoop size (fillLine rounds data) 0 (readLanes state, m)
  (writeLanes state r.1, r.2)

/-- `fill_aes_1r_x4`. -/
def fillAes1Rx4 (build : AesBuild) : AesState → ByteStore → Nat → Nat → AesState × ByteStore :=
  fillWith (fillRounds build)

/-- `fill_aes_4r_x4`. -/
def fillAes4Rx4 (build : AesBuild) : AesState → ByteStore → Nat → Nat → AesState × ByteStore :=
  fillWith (fillRounds4R build)

/-- The body of the loop of `hash_aes_1r_x4`. -/
def hashLine (build : AesBuild) (m : ByteStore) (data offset : Nat) (s : Lanes) : Lanes :=
  hashRounds build s (readLine m (data + offset))

/-- `hash_aes_1r_x4`. -/
def hashAes1Rx4 (build : AesBuild) (m : ByteStore) (data size : Nat) (hash : AesState) : AesState :=
  writeLanes hash (finalRounds build (lineLoop size (hashLine build m data) 0 hashState))

/-- The body of the loop of `hash_and_fill_aes_interleaved_x4`. -/
def hashAndFillLine (build : AesBuild) (hashData fillData offset : Nat)
    (r : Lanes × Lanes × ByteStore) : Lanes × Lanes × ByteStore :=
  let sp := readLine r.2.2 (hashData + offset)
  let hs := hashRounds build r.1 sp
  let fs := fillRounds build r.2.1
  (hs, fs, writeLine r.2.2 (fillData + offset) fs)

/-- `hash_and_fill_aes_interleaved_x4`: the hash, the fill state and the memory. -/
def hashAndFillAesInterleavedX4 (build : AesBuild) (m : ByteStore)
    (hashData fillData size : Nat) (hash fillState : AesState) :
    AesState × AesState × ByteStore :=
  let r := lineLoop size (hashAndFillLine build hashData fillData) 0
    (hashState, readLanes fillState, m)
  (writeLanes hash (finalRounds build r.1), writeLanes fillState r.2.1, r.2.2)

/-- `hash_and_fill_aes_1r_x4`, which reads and writes the same buffer. -/
def hashAndFillAes1Rx4 (build : AesBuild) (m : ByteStore) (scratchpad size : Nat)
    (hash fillState : AesState) : AesState × AesState × ByteStore :=
  hashAndFillAesInterleavedX4 build m scratchpad scratchpad size hash fillState

/-- `AesGenerator1R::next`. -/
def next1R (build : AesBuild) (state : AesState) : AesState :=
  let state := writeBlock state 0 (aesDecryptRound build (readBlock state 0) kAesGen1RKey0)
  let state := writeBlock state 1 (aesEncryptRound build (readBlock state 1) kAesGen1RKey1)
  let state := writeBlock state 2 (aesDecryptRound build (readBlock state 2) kAesGen1RKey2)
  writeBlock state 3 (aesEncryptRound build (readBlock state 3) kAesGen1RKey3)

/-- `AesGenerator4R::next`. -/
def next4R (build : AesBuild) (state : AesState) : AesState :=
  let front := [kAesGen4RKey0, kAesGen4RKey1, kAesGen4RKey2, kAesGen4RKey3].foldl
    (fun (p : AesBlock × AesBlock) key =>
      (aesDecryptRound build p.1 key, aesEncryptRound build p.2 key))
    (readBlock state 0, readBlock state 1)
  let back := [kAesGen4RKey4, kAesGen4RKey5, kAesGen4RKey6, kAesGen4RKey7].foldl
    (fun (p : AesBlock × AesBlock) key =>
      (aesDecryptRound build p.1 key, aesEncryptRound build p.2 key))
    (readBlock state 2, readBlock state 3)
  writeLanes state ![front.1, front.2, back.1, back.2]

/-- `std::copy` of a state to an address. -/
def copyState (m : ByteStore) (a : Nat) (state : AesState) : ByteStore := fun x =>
  if h : a ≤ x ∧ x < a + 64 then state ⟨x - a, by omega⟩ else m x

/-- `fill` of a generator, given its `next` and the text of its exception. -/
def generatorFill (next : AesState → AesState) (error : String) (state : AesState) (m : ByteStore)
    (data size : Nat) : Except String (AesState × ByteStore) :=
  if size % 64 ≠ 0 then .error error
  else .ok (lineLoop size (fun offset (r : AesState × ByteStore) =>
    (next r.1, copyState r.2 (data + offset) (next r.1))) 0 (state, m))

/-- `AesGenerator1R::fill`. -/
def aesGenerator1RFill (build : AesBuild) :
    AesState → ByteStore → Nat → Nat → Except String (AesState × ByteStore) :=
  generatorFill (next1R build) "AesGenerator1R output must be a multiple of 64 bytes"

/-- `AesGenerator4R::fill`. -/
def aesGenerator4RFill (build : AesBuild) :
    AesState → ByteStore → Nat → Nat → Except String (AesState × ByteStore) :=
  generatorFill (next4R build) "AesGenerator4R output must be a multiple of 64 bytes"

/-! ## Loops over lines -/

/-- The loop over whole lines, from line `k` on. -/
theorem lineLoop_eq {σ : Type} {size n : Nat} (hSize : size = 64 * n) (body : Nat → σ → σ)
    {k offset : Nat} (hOffset : offset = 64 * k) (hk : k ≤ n) (s : σ) :
    lineLoop size body offset s =
      (List.range' k (n - k)).foldl (fun s i => body (64 * i) s) s := by
  generalize hm : n - k = m
  induction m generalizing k offset s with
  | zero => rw [lineLoop, if_neg (by omega), List.range'_zero, List.foldl_nil]
  | succ m ih =>
    rw [lineLoop, if_pos (by omega), List.range'_succ, List.foldl_cons, ← hOffset]
    exact ih (by omega) (by omega) _ (by omega)

/-- The loop over `n` lines. -/
theorem lineLoop_lines {σ : Type} {size n : Nat} (hSize : size = 64 * n) (body : Nat → σ → σ)
    (s : σ) : lineLoop size body 0 s = (List.range n).foldl (fun s i => body (64 * i) s) s := by
  rw [lineLoop_eq hSize body (rfl : 0 = 64 * 0) (Nat.zero_le n), Nat.sub_zero,
    List.range_eq_range']

theorem foldl_range_succ {σ : Type} (f : σ → Nat → σ) (s : σ) (n : Nat) :
    (List.range (n + 1)).foldl f s = f ((List.range n).foldl f s) n := by
  rw [List.range_succ, List.foldl_append]
  rfl

/-! ## States and lines, byte by byte -/

/-- `write_block` over all four blocks leaves nothing of the state before. -/
theorem writeLanes_apply (state : AesState) (s : Lanes) (k : Fin 64) :
    writeLanes state s k = s ⟨k / 16, by omega⟩ ⟨k % 16, by omega⟩ := by
  have hCases : k.val / 16 = 0 ∨ k.val / 16 = 1 ∨ k.val / 16 = 2 ∨ k.val / 16 = 3 := by omega
  rcases hCases with h | h | h | h <;> simp [writeLanes, writeBlock, h]

theorem readLanes_writeLanes (state : AesState) (s : Lanes) :
    readLanes (writeLanes state s) = s := by
  funext j i
  rw [readLanes, readBlock, writeLanes_apply]
  exact congrArg₂ s (Fin.ext (by dsimp only; omega)) (Fin.ext (by dsimp only; omega))

theorem writeLanes_readLanes (state state' : AesState) :
    writeLanes state (readLanes state') = state' := by
  funext k
  rw [writeLanes_apply]
  exact congrArg state' (Fin.ext (by dsimp only; omega))

theorem readBlock_writeBlock_ne (state : AesState) {j k : Fin 4} (hNe : j ≠ k) (block : AesBlock) :
    readBlock (writeBlock state k block) j = readBlock state j := by
  funext i
  rw [readBlock, writeBlock, if_neg (by dsimp only; omega), readBlock]

/-- A byte of block `j` of a line, by its place in the line. -/
theorem lane_at (s : Lanes) {x a j : Nat} (hj : j < 4) (hx : a + 16 * j ≤ x ∧ x < a + 16 * j + 16) :
    s ⟨j, hj⟩ ⟨x - (a + 16 * j), by omega⟩ =
      s ⟨(x - a) / 16, by omega⟩ ⟨(x - a) % 16, by omega⟩ :=
  congrArg₂ s (Fin.ext (by dsimp only; omega)) (Fin.ext (by dsimp only; omega))

/-- A line, byte by byte. -/
theorem writeLine_apply (m : ByteStore) (a : Nat) (s : Lanes) (x : Nat) :
    writeLine m a s x =
      if h : a ≤ x ∧ x < a + 64 then s ⟨(x - a) / 16, by omega⟩ ⟨(x - a) % 16, by omega⟩
      else m x := by
  unfold writeLine writeBlockToSpan
  by_cases hOut : a ≤ x ∧ x < a + 64
  · rw [dif_pos hOut]
    by_cases h3 : a + 48 ≤ x
    · rw [dif_pos ⟨h3, by omega⟩]
      exact lane_at s (by decide : 3 < 4) (by omega)
    rw [dif_neg (by omega)]
    by_cases h2 : a + 32 ≤ x
    · rw [dif_pos ⟨h2, by omega⟩]
      exact lane_at s (by decide : 2 < 4) (by omega)
    rw [dif_neg (by omega)]
    by_cases h1 : a + 16 ≤ x
    · rw [dif_pos ⟨h1, by omega⟩]
      exact lane_at s (by decide : 1 < 4) (by omega)
    rw [dif_neg (by omega), dif_pos (by omega)]
    exact lane_at s (by decide : 0 < 4) (by omega)
  · rw [dif_neg hOut, dif_neg (by omega), dif_neg (by omega), dif_neg (by omega),
      dif_neg (by omega)]

/-- A line is the four blocks of a state. -/
theorem copyState_eq (m : ByteStore) (a : Nat) (state : AesState) :
    copyState m a state = writeLine m a (readLanes state) := by
  funext x
  rw [writeLine_apply, copyState]
  split
  · exact congrArg state (Fin.ext (by dsimp only; omega))
  · rfl

/-! ## Fills -/

/-- The first `n` lines of a fill. -/
def fillLines (rounds : Lanes → Lanes) (data n : Nat) (r : Lanes × ByteStore) :
    Lanes × ByteStore :=
  (List.range n).foldl (fun r i => fillLine rounds data (64 * i) r) r

theorem fillLines_succ (rounds : Lanes → Lanes) (data n : Nat) (r : Lanes × ByteStore) :
    fillLines rounds data (n + 1) r =
      fillLine rounds data (64 * n) (fillLines rounds data n r) :=
  foldl_range_succ _ r n

/-- What `n` lines of a fill leave alone. -/
theorem fillLines_outside (rounds : Lanes → Lanes) (data n : Nat) (r : Lanes × ByteStore) {x : Nat}
    (hx : x < data ∨ data + 64 * n ≤ x) : (fillLines rounds data n r).2 x = r.2 x := by
  induction n with
  | zero => rfl
  | succ n ih =>
    rw [fillLines_succ, fillLine]
    dsimp only
    rw [writeLine_apply, dif_neg (by omega)]
    exact ih (by omega)

/-- A generator fills as the loop over lanes does, when its `next` is the rounds of a
line. -/
theorem generatorFill_eq {rounds : Lanes → Lanes} {next : AesState → AesState}
    (hNext : ∀ state, readLanes (next state) = rounds (readLanes state)) (error : String)
    {size : Nat} (hSize : size % 64 = 0) (state : AesState) (m : ByteStore) (data : Nat) :
    generatorFill next error state m data size = .ok (fillWith rounds state m data size) := by
  obtain ⟨n, hn⟩ : ∃ n, size = 64 * n := Nat.dvd_of_mod_eq_zero hSize
  rw [generatorFill, if_neg (by omega), fillWith, lineLoop_lines hn, lineLoop_lines hn]
  refine congrArg Except.ok ?_
  -- The generator's state is, line after line, the lanes written into any state.
  clear hn hSize
  induction n with
  | zero => exact Prod.ext (writeLanes_readLanes state state).symm rfl
  | succ n ih =>
    rw [foldl_range_succ, foldl_range_succ, ih]
    refine Prod.ext ?_ ?_
    · rw [← writeLanes_readLanes state (next _), hNext, readLanes_writeLanes]
      rfl
    · dsimp only
      rw [copyState_eq, hNext, readLanes_writeLanes]
      rfl

theorem readLanes_next1R (build : AesBuild) (state : AesState) :
    readLanes (next1R build state) = fillRounds build (readLanes state) := by
  -- a block is read before its own write, so the writes in between do not matter
  have hNext : next1R build state = writeLanes state (fillRounds build (readLanes state)) := by
    simp only [next1R, aesDecryptRound_eq, aesEncryptRound_eq, ne_eq, Fin.reduceEq,
      not_false_eq_true, readBlock_writeBlock_ne]
    rfl
  rw [hNext, readLanes_writeLanes]

theorem readLanes_next4R (build : AesBuild) (state : AesState) :
    readLanes (next4R build state) = fillRounds4R build (readLanes state) := by
  rw [next4R, readLanes_writeLanes]
  simp only [aesDecryptRound_eq, aesEncryptRound_eq]
  rfl

/-! ## Fused passes -/

/-- `hash_aes_1r_x4` on the contents there are, then `fill_aes_1r_x4`. -/
def hashThenFill (build : AesBuild) (m : ByteStore) (hashData fillData size : Nat)
    (hash fillState : AesState) : AesState × AesState × ByteStore :=
  let hash := hashAes1Rx4 build m hashData size hash
  let r := fillAes1Rx4 build fillState m fillData size
  (hash, r.1, r.2)

/-- The buffers of a fused pass: one buffer, or two that share no byte. -/
def SameOrDisjoint (hashData fillData size : Nat) : Prop :=
  hashData = fillData ∨ hashData + size ≤ fillData ∨ fillData + size ≤ hashData

/-- **The fused loop.** After `n` lines the hash is that of the first `n` lines of the
original memory, and the rest is the fill. -/
theorem fused_eq (build : AesBuild) (m : ByteStore) {hashData fillData size n : Nat}
    (hBuffers : SameOrDisjoint hashData fillData size) (hn : 64 * n ≤ size) (fs : Lanes) :
    (List.range n).foldl (fun r i => hashAndFillLine build hashData fillData (64 * i) r)
        (hashState, fs, m) =
      ((List.range n).foldl (fun s i => hashLine build m hashData (64 * i) s) hashState,
        fillLines (fillRounds build) fillData n (fs, m)) := by
  induction n with
  | zero => rfl
  | succ n ih =>
    rw [foldl_range_succ, foldl_range_succ, fillLines_succ, ih (by omega)]
    -- line `n` has not been written yet, in either case
    have hLine : readLine (fillLines (fillRounds build) fillData n (fs, m)).2
        (hashData + 64 * n) = readLine m (hashData + 64 * n) := by
      funext j i
      refine fillLines_outside _ _ _ _ ?_
      rcases hBuffers with hSame | hBefore | hAfter
      · omega
      · omega
      · omega
    rw [hashAndFillLine, hLine]
    rfl

theorem hashAndFillAesInterleavedX4_eq (build : AesBuild) (m : ByteStore)
    {hashData fillData size : Nat} (hSize : size % 64 = 0)
    (hBuffers : SameOrDisjoint hashData fillData size) (hash fillState : AesState) :
    hashAndFillAesInterleavedX4 build m hashData fillData size hash fillState =
      hashThenFill build m hashData fillData size hash fillState := by
  obtain ⟨n, hn⟩ : ∃ n, size = 64 * n := Nat.dvd_of_mod_eq_zero hSize
  rw [hashAndFillAesInterleavedX4, hashThenFill, hashAes1Rx4, fillAes1Rx4, fillWith,
    lineLoop_lines hn, lineLoop_lines hn, lineLoop_lines hn,
    fused_eq build m hBuffers (Nat.le_of_eq hn.symm)]
  rfl

/-- **The fused passes.** For a size of whole lines, each fused pass gives the hash, the
fill state and the memory of the two passes one after the other, and each generator
fills as its `x4` function does. -/
theorem fusedPasses_correct (build : AesBuild) {size : Nat} (hSize : size % 64 = 0)
    (m : ByteStore) (hash fillState : AesState) :
    (∀ scratchpad, hashAndFillAes1Rx4 build m scratchpad size hash fillState =
      hashThenFill build m scratchpad scratchpad size hash fillState) ∧
    (∀ hashData fillData, SameOrDisjoint hashData fillData size →
      hashAndFillAesInterleavedX4 build m hashData fillData size hash fillState =
        hashThenFill build m hashData fillData size hash fillState) ∧
    (∀ data, aesGenerator1RFill build fillState m data size =
      .ok (fillAes1Rx4 build fillState m data size)) ∧
    (∀ data, aesGenerator4RFill build fillState m data size =
      .ok (fillAes4Rx4 build fillState m data size)) := by
  refine ⟨fun scratchpad => ?_, fun hashData fillData hBuffers => ?_, fun data => ?_,
    fun data => ?_⟩
  · exact hashAndFillAesInterleavedX4_eq build m hSize (.inl rfl) hash fillState
  · exact hashAndFillAesInterleavedX4_eq build m hSize hBuffers hash fillState
  · exact generatorFill_eq (readLanes_next1R build) _ hSize fillState m data
  · exact generatorFill_eq (readLanes_next4R build) _ hSize fillState m data

/-- Two lines, hashed and filled in place. -/
theorem fusedPasses_correct_two_lines :
    hashAndFillAes1Rx4 ⟨true, false, true⟩ (fun _ => 0) 0 128 (fun _ => 0) (fun _ => 0) =
      hashThenFill ⟨true, false, true⟩ (fun _ => 0) 0 0 128 (fun _ => 0) (fun _ => 0) :=
  (fusedPasses_correct ⟨true, false, true⟩ (by decide : 128 % 64 = 0) (fun _ => 0) (fun _ => 0)
    (fun _ => 0)).1 0

end ArmRx.Hash
