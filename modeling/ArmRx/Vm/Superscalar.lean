import ArmRx.Vm.State

/-!
# Superscalar programs and dataset items

Embeds `execute_superscalar` (`src/superscalar.cpp`), `load_cache_line` and
`generate_dataset_item` (`src/dataset.cpp`). A throw, and an index outside the
reciprocal table, is `none`.
-/

namespace ArmRx.Vm

open ArmRx.Lib

/-! ## Programs -/

/-- `enum class SuperscalarInstructionType`, without its two sentinels. -/
inductive SuperscalarInstructionType where
  | isubR | ixorR | iaddRs | imulR | irorC | iaddC7 | ixorC7 | iaddC8 | ixorC8 | iaddC9 | ixorC9
  | imulhR | ismulhR | imulRcp
  deriving DecidableEq, Repr

/-- The enumeration in the order of its values. -/
def superscalarTypes : List SuperscalarInstructionType :=
  [.isubR, .ixorR, .iaddRs, .imulR, .irorC, .iaddC7, .ixorC7, .iaddC8, .ixorC8, .iaddC9, .ixorC9,
   .imulhR, .ismulhR, .imulRcp]

/-- `static_cast<SuperscalarInstructionType>(instr.opcode)`. -/
def Instruction.superscalarType (instr : Instruction) : Option SuperscalarInstructionType :=
  superscalarTypes[instr.opcode.toNat]?

def kSuperscalarLatency : Nat := 170
def kSuperscalarMaxSize : Nat := 3 * kSuperscalarLatency + 2

/-- `class SuperscalarProgram`: the first `size_` entries of `program_buffer_`
and `addr_reg_`. The array bounds the length, and every register number selects
one of `r[0]` to `r[7]`. -/
structure SuperscalarProgram where
  instructions : List Instruction
  addressRegister : Fin 8
  size_le : instructions.length ≤ kSuperscalarMaxSize
  registers : ∀ instr ∈ instructions, instr.dst < 8 ∧ instr.src < 8

/-- The register file of a superscalar program. -/
abbrev DatasetRegisters : Type := Fin 8 → BitVec 64

/-! ## Execution -/

/-- What an instruction makes of `r[dst]` and `r[src]`. -/
def superscalarOp (reciprocals : List (BitVec 64)) (instr : Instruction) :
    Option (BitVec 64 → BitVec 64 → BitVec 64) := do
  let type ← instr.superscalarType
  match type with
  | .isubR => some fun dst src => dst - src
  | .ixorR => some fun dst src => dst ^^^ src
  | .iaddRs => some fun dst src => dst + src <<< instr.getModShift
  | .imulR => some fun dst src => dst * src
  | .irorC => some fun dst _ => rotr dst (instr.imm32.toNat % 64)
  | .iaddC7 | .iaddC8 | .iaddC9 => some fun dst _ => dst + signExtend2sCompl instr.imm32
  | .ixorC7 | .ixorC8 | .ixorC9 => some fun dst _ => dst ^^^ signExtend2sCompl instr.imm32
  | .imulhR => some mulh
  | .ismulhR => some smulh
  | .imulRcp =>
    let reciprocal ← reciprocals[instr.imm32.toNat]?
    some fun dst _ => dst * reciprocal

/-- One iteration of `execute_superscalar`. -/
def superscalarStep (reciprocals : List (BitVec 64)) (r : DatasetRegisters)
    (instr : Instruction) : Option DatasetRegisters := do
  let op ← superscalarOp reciprocals instr
  some (Function.update r (regOf instr.dst) (op (r (regOf instr.dst)) (r (regOf instr.src))))

/-- `execute_superscalar`. -/
def executeSuperscalar (reciprocals : List (BitVec 64)) (instructions : List Instruction)
    (r : DatasetRegisters) : Option DatasetRegisters :=
  instructions.foldlM (superscalarStep reciprocals) r

/-! ## Dataset items -/

/-- `dataset_seed_registers` (`include/armrx/dataset.hpp`). -/
def datasetSeedRegisters (itemNumber : BitVec 64) : DatasetRegisters :=
  let seed := (itemNumber + 1) * 6364136223846793005
  fun
  | 0 => seed
  | 1 => seed ^^^ 9298411001130361340
  | 2 => seed ^^^ 12065312585734608966
  | 3 => seed ^^^ 9306329213124626780
  | 4 => seed ^^^ 5281919268842080866
  | 5 => seed ^^^ 10536153434571861004
  | 6 => seed ^^^ 3398623926847679864
  | 7 => seed ^^^ 9549104520008361294

def kRandomXCacheAccesses : Nat := 8
def kRandomXCacheBytes : Nat := 256 * 1024 * 1024

/-- `class Argon2dCache`: the memory of its 1 KiB blocks, the programs and the
reciprocal table. -/
structure Argon2dCache where
  bytes : ByteStore
  memoryBlocks : Nat
  programs : Fin kRandomXCacheAccesses → SuperscalarProgram
  reciprocalCache : List (BitVec 64)

/-- `cache_line_count`: sixteen lines a block. -/
def Argon2dCache.lineCount (cache : Argon2dCache) : Nat := cache.memoryBlocks * (1024 / 64)

/-- Word `q` of `load_cache_line`: blocks lie one behind the other, so the
block and the line in it add up to the line's own offset. -/
def Argon2dCache.loadCacheLine (cache : Argon2dCache) (lineIndex : Nat) : DatasetRegisters :=
  let lineIndex := lineIndex % cache.lineCount
  let block := lineIndex / 16
  let lineInBlock := lineIndex % 16
  fun q => cache.bytes.load64 (1024 * block + lineInBlock * 64 + 8 * q)

/-- A line's block and its place in the block add up to the line's offset. -/
theorem Argon2dCache.loadCacheLine_eq (cache : Argon2dCache) (lineIndex : Nat) (q : Fin 8) :
    cache.loadCacheLine lineIndex q =
      cache.bytes.load64 (64 * (lineIndex % cache.lineCount) + 8 * q) := by
  unfold loadCacheLine
  congr 1
  omega

/-- The default cache of 256 MiB. -/
def Argon2dCache.Default (cache : Argon2dCache) : Prop :=
  1024 * cache.memoryBlocks = kRandomXCacheBytes

theorem Argon2dCache.lineCount_of_default {cache : Argon2dCache} (h : cache.Default) :
    cache.lineCount = 2 ^ 22 := by
  unfold Default kRandomXCacheBytes at h
  unfold lineCount
  omega

/-- One round of `generate_dataset_item`: the registers and `register_value`. -/
def datasetRound (cache : Argon2dCache) (s : DatasetRegisters × BitVec 64)
    (program : SuperscalarProgram) : Option (DatasetRegisters × BitVec 64) := do
  let line := cache.loadCacheLine (s.2.toNat % cache.lineCount)
  let rl ← executeSuperscalar cache.reciprocalCache program.instructions s.1
  let rl : DatasetRegisters := fun q => rl q ^^^ line q
  some (rl, rl program.addressRegister)

theorem datasetRound_eq_some {cache : Argon2dCache} {r r' : DatasetRegisters} {v v' : BitVec 64}
    {program : SuperscalarProgram} (h : datasetRound cache (r, v) program = some (r', v')) :
    ∃ rl, executeSuperscalar cache.reciprocalCache program.instructions r = some rl ∧
      (∀ q, r' q = rl q ^^^ cache.loadCacheLine (v.toNat % cache.lineCount) q) ∧
      v' = r' program.addressRegister := by
  obtain ⟨rl, hExec, hMixed⟩ := Option.bind_eq_some_iff.mp h
  obtain ⟨rfl, rfl⟩ := Prod.mk.inj (Option.some.inj hMixed)
  exact ⟨rl, hExec, fun _ => rfl, rfl⟩

/-- `generate_dataset_item`, as its eight little-endian words. -/
def generateDatasetItem (cache : Argon2dCache) (itemNumber : BitVec 64) :
    Option DatasetRegisters := do
  if cache.lineCount = 0 then none
  let s ← (List.ofFn cache.programs).foldlM (datasetRound cache)
    (datasetSeedRegisters itemNumber, itemNumber)
  some s.1

/-- What the program generator guarantees: every opcode is one of the fourteen
and every reciprocal is in the table. -/
def Argon2dCache.Valid (cache : Argon2dCache) : Prop :=
  ∀ i, ∀ instr ∈ (cache.programs i).instructions, ∃ type, instr.superscalarType = some type ∧
    (type = .imulRcp → instr.imm32.toNat < cache.reciprocalCache.length)

/-- A fold none of whose steps fails does not fail. -/
theorem foldlM_isSome {α β : Type} {step : β → α → Option β} {l : List α}
    (h : ∀ a ∈ l, ∀ s, (step s a).isSome) (s : β) : (l.foldlM step s).isSome := by
  induction l generalizing s with
  | nil => rfl
  | cons a l ih =>
    obtain ⟨t, ht⟩ := Option.isSome_iff_exists.mp (h a List.mem_cons_self s)
    rw [List.foldlM_cons, ht]
    exact ih (fun b hb => h b (List.mem_cons_of_mem _ hb)) t

theorem superscalarStep_isSome {reciprocals : List (BitVec 64)} {instr : Instruction}
    {type : SuperscalarInstructionType} (hType : instr.superscalarType = some type)
    (hIndex : type = .imulRcp → instr.imm32.toNat < reciprocals.length) (r : DatasetRegisters) :
    (superscalarStep reciprocals r instr).isSome := by
  have hOp : (superscalarOp reciprocals instr).isSome := by
    rw [superscalarOp, hType]
    cases type
    case imulRcp =>
      obtain ⟨reciprocal, hGet⟩ := Option.isSome_iff_exists.mp (by simpa using hIndex rfl :
        (reciprocals[instr.imm32.toNat]?).isSome)
      rw [Option.bind_eq_bind, Option.bind_some]
      simp [hGet]
    all_goals rfl
  obtain ⟨op, hOp⟩ := Option.isSome_iff_exists.mp hOp
  rw [superscalarStep, hOp]
  rfl

/-- **A valid cache has every item.** The rounds run to their end, and the item is
what they leave in the registers. -/
theorem Argon2dCache.Valid.rounds {cache : Argon2dCache} (h : cache.Valid)
    (hLines : cache.lineCount ≠ 0) (item : BitVec 64) :
    ∃ r v, (List.ofFn cache.programs).foldlM (datasetRound cache)
        (datasetSeedRegisters item, item) = some (r, v) ∧
      generateDatasetItem cache item = some r := by
  have hRound (program : SuperscalarProgram) (hIn : program ∈ List.ofFn cache.programs)
      (s : DatasetRegisters × BitVec 64) : (datasetRound cache s program).isSome := by
    obtain ⟨i, rfl⟩ := (List.mem_ofFn' _ _).mp hIn
    have hExec : (executeSuperscalar cache.reciprocalCache (cache.programs i).instructions
        s.1).isSome := by
      refine foldlM_isSome (fun instr hInstr r => ?_) s.1
      obtain ⟨type, hType, hIndex⟩ := h i instr hInstr
      exact superscalarStep_isSome hType hIndex r
    obtain ⟨rl, hRl⟩ := Option.isSome_iff_exists.mp hExec
    rw [datasetRound, hRl]
    rfl
  obtain ⟨⟨r, v⟩, hRounds⟩ := Option.isSome_iff_exists.mp
    (foldlM_isSome hRound (datasetSeedRegisters item, item))
  refine ⟨r, v, hRounds, ?_⟩
  rw [generateDatasetItem, if_neg hLines, hRounds]
  rfl

end ArmRx.Vm
