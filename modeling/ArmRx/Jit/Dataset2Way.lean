import ArmRx.Jit.Superscalar

/-!
# Two dataset items in one call

Embeds `src/jit_dataset_2way.cpp` and the template it copies from
`src/jit_compiler_a64_static.S` (`randomx_calc_dataset_item_aarch64_2way`). Each
scheduled instruction is emitted twice, once for each stream's registers, and
both streams walk the same pool of reciprocals with a pointer of their own. The
order comes from the caller.

* `ValidOrder` — what the module asks of the caller's scheduler.
* `generate` — the emitted function, and the check of its size.
-/

namespace ArmRx.Jit

open ArmRx.Vm ArmRx.A64

/-! ## The template -/

/-- `randomx_calc_dataset_item_aarch64_2way` up to the branch over its constants,
which lie at offset 180. -/
def calcDatasetItem2Way : List Insn :=
  [.subImm 31 31 80, .stp 19 20 31 0, .stp 21 22 31 16, .stp 23 24 31 32, .stp 25 26 31 48,
   .stp 27 28 31 64,
   .ldrLit 12 180, .orrReg 8 31 0, .orrReg 9 31 1, .orrReg 10 31 2, .orrReg 27 31 3,
   .orrReg 16 31 4,
   .madd 0 2 12 12, .ldrLit 12 188, .eorReg 1 0 12, .ldrLit 12 196, .eorReg 2 0 12,
   .ldrLit 12 204, .eorReg 3 0 12, .ldrLit 12 212, .eorReg 4 0 12, .ldrLit 12 220,
   .eorReg 5 0 12, .ldrLit 12 228, .eorReg 6 0 12, .ldrLit 12 236, .eorReg 7 0 12,
   .ldrLit 17 180, .madd 19 16 17 17, .orrReg 28 31 16, .ldrLit 17 188, .eorReg 20 19 17,
   .ldrLit 17 196, .eorReg 21 19 17, .ldrLit 17 204, .eorReg 22 19 17, .ldrLit 17 212,
   .eorReg 23 19 17, .ldrLit 17 220, .eorReg 24 19 17, .ldrLit 17 228, .eorReg 25 19 17,
   .ldrLit 17 236, .eorReg 26 19 17]

/-- The whole first chunk; the constants are those of the single-stream function. -/
def calcDatasetItem2WayHead : List Slot :=
  calcDatasetItem2Way.map .asm ++ [.asm (.b 244)] ++ superscalarConstants.flatMap quad

def calcDatasetItem2WayPrefetch : List Insn :=
  [.addReg 11 8 11 6, .prfm, .addReg 17 8 17 6, .prfm]

def calcDatasetItem2WayMix : List Insn :=
  [.ldp 12 13 11 0, .eorReg 0 0 12, .eorReg 1 1 13, .ldp 12 13 11 16, .eorReg 2 2 12,
   .eorReg 3 3 13, .ldp 12 13 11 32, .eorReg 4 4 12, .eorReg 5 5 13, .ldp 12 13 11 48,
   .eorReg 6 6 12, .eorReg 7 7 13,
   .ldp 16 14 17 0, .eorReg 19 19 16, .eorReg 20 20 14, .ldp 16 14 17 16, .eorReg 21 21 16,
   .eorReg 22 22 14, .ldp 16 14 17 32, .eorReg 23 23 16, .eorReg 24 24 14, .ldp 16 14 17 48,
   .eorReg 25 25 16, .eorReg 26 26 14]

def calcDatasetItem2WayStoreResult : List Insn :=
  [.stp 0 1 9 0, .stp 2 3 9 16, .stp 4 5 9 32, .stp 6 7 9 48,
   .stp 19 20 27 0, .stp 21 22 27 16, .stp 23 24 27 32, .stp 25 26 27 48,
   .ldp 19 20 31 0, .ldp 21 22 31 16, .ldp 23 24 31 32, .ldp 25 26 31 48, .ldp 27 28 31 64,
   .addImm 31 31 80]

namespace JitDataset2Way

/-! ## The streams -/

/-- Where a stream keeps `rl[0]` to `rl[7]`, the register value, the cache line
and its temporary. The registers are apart from each other and from the
temporary. -/
structure Stream where
  reg : Nat → Nat
  registerValue : Nat
  mixBlock : Nat
  tmp : Nat
  reg_lt : ∀ i < 8, reg i < 31
  reg_inj : ∀ i < 8, ∀ j < 8, reg i = reg j → i = j
  tmp_lt : tmp < 31
  tmp_apart : ∀ i < 8, reg i ≠ tmp

def streamA : Stream where
  reg i := i
  registerValue := 10
  mixBlock := 11
  tmp := 12
  reg_lt := by decide
  reg_inj := by decide
  tmp_lt := by decide
  tmp_apart := by decide

def StreamBRegMap : List Nat := [19, 20, 21, 22, 23, 24, 25, 26]

def streamB : Stream where
  reg i := StreamBRegMap.getD i 0
  registerValue := 28
  mixBlock := 17
  tmp := 16
  reg_lt := by decide
  reg_inj := by decide
  tmp_lt := by decide
  tmp_apart := by decide

/-! ## Words -/

def emitMovImmediate2Way (dst : Nat) (imm : BitVec 32) : List (BitVec 32) :=
  if imm < 0x10000 then [ARMV8A.MOVZ ||| u32 dst ||| imm <<< 5]
  else
    [if imm.msb then ARMV8A.MOVN ||| u32 dst ||| u32 1 <<< 21 ||| (~~~imm >>> 16) <<< 5
      else ARMV8A.MOVZ ||| u32 dst ||| u32 1 <<< 21 ||| (imm >>> 16) <<< 5,
     ARMV8A.MOVK ||| u32 dst ||| (imm &&& 0xFFFF) <<< 5]

def emitAddImmediate2Way (dst src : Nat) (imm : BitVec 32) (tmpReg : Nat) : List (BitVec 32) :=
  if imm < 0x1000000 then
    let immLo := imm &&& 0xFFF
    let immHi := imm >>> 12
    if immLo ≠ 0 ∧ immHi ≠ 0 then
      [ARMV8A.ADD_IMM_LO ||| u32 dst ||| u32 src <<< 5 ||| immLo <<< 10,
       ARMV8A.ADD_IMM_HI ||| u32 dst ||| u32 dst <<< 5 ||| immHi <<< 10]
    else if immLo ≠ 0 then [ARMV8A.ADD_IMM_LO ||| u32 dst ||| u32 src <<< 5 ||| immLo <<< 10]
    else [ARMV8A.ADD_IMM_HI ||| u32 dst ||| u32 src <<< 5 ||| immHi <<< 10]
  else
    emitMovImmediate2Way tmpReg imm ++
      [ARMV8A.ADD ||| u32 dst ||| u32 src <<< 5 ||| u32 tmpReg <<< 16]

/-- `emitSuperscalarInstr`: one instruction at `pos`, `literalPos` being the
stream's next reciprocal. -/
def emitSuperscalarInstr (instr : Instruction) (dst src tmpReg literalPos pos : Nat) :
    List (BitVec 32) :=
  match instr.superscalarType with
  | some .isubR => [op3 ARMV8A.SUB dst src]
  | some .ixorR => [op3 ARMV8A.EOR dst src]
  | some .iaddRs =>
    [ARMV8A.ADD ||| u32 dst ||| u32 dst <<< 5 ||| u32 instr.getModShift <<< 10 ||| u32 src <<< 16]
  | some .imulR => [op3 ARMV8A.MUL dst src]
  | some .irorC =>
    [ARMV8A.ROR_IMM ||| u32 dst ||| u32 dst <<< 5 ||| (instr.imm32 &&& 63) <<< 10 |||
      u32 dst <<< 16]
  | some .iaddC7 | some .iaddC8 | some .iaddC9 => emitAddImmediate2Way dst dst instr.imm32 tmpReg
  | some .ixorC7 | some .ixorC8 | some .ixorC9 =>
    emitMovImmediate2Way tmpReg instr.imm32 ++ [op3 ARMV8A.EOR dst tmpReg]
  | some .imulhR => [op3 ARMV8A.UMULH dst src]
  | some .ismulhR => [op3 ARMV8A.SMULH dst src]
  | some .imulRcp =>
    [ARMV8A.LDR_LITERAL ||| u32 tmpReg ||| literalOffset literalPos pos <<< 5,
     op3 ARMV8A.MUL dst tmpReg]
  | none => []

/-- The stream's copy of an instruction. -/
def Stream.emit (st : Stream) (instr : Instruction) (literalPos pos : Nat) : List (BitVec 32) :=
  emitSuperscalarInstr instr (st.reg instr.dst.toNat) (st.reg instr.src.toNat) st.tmp literalPos pos

/-- A stream's pointer into the pool, behind an instruction. -/
def nextLiteral (instr : Instruction) (literalPos : Nat) : Nat :=
  if isImulRcp instr then literalPos + 8 else literalPos

/-- The loop over `emit_order`. -/
def emitInterleaved : List Instruction → Nat → Nat → Nat → List (BitVec 32)
  | [], _, _, _ => []
  | instr :: rest, literalPosA, literalPosB, pos =>
    let wordsA := streamA.emit instr literalPosA pos
    let posB := pos + 4 * wordsA.length
    let wordsB := streamB.emit instr literalPosB posB
    wordsA ++ (wordsB ++ emitInterleaved rest (nextLiteral instr literalPosA)
      (nextLiteral instr literalPosB) (posB + 4 * wordsB.length))

/-! ## The function -/

/-- `SuperscalarScheduler`. -/
abbrev SuperscalarScheduler : Type := SuperscalarProgram → List Nat

/-- The instructions in the order of `emit_order`. -/
def emitOrder (scheduler : SuperscalarScheduler) (program : SuperscalarProgram) :
    List Instruction :=
  (scheduler program).map fun idx => program.instructions.getD idx default

/-- `and mixBlock, registerValue, mask`. -/
def Stream.maskWord (st : Stream) : BitVec 32 :=
  ARMV8A.AND_IMM_64 ||| u32 st.mixBlock ||| u32 st.registerValue <<< 5 |||
    u32 (Nat.log2 (kRandomXCacheBytes / 64) - 1) <<< 10

/-- `mov registerValue, rl[address_register]`. -/
def Stream.valueWord (st : Stream) (program : SuperscalarProgram) : BitVec 32 :=
  ARMV8A.MOV_REG ||| u32 st.registerValue ||| u32 (st.reg program.addressRegister) <<< 16

/-- The slots of one round. -/
def round (reciprocalCache : List (BitVec 64)) (scheduler : SuperscalarScheduler)
    (program : SuperscalarProgram) (codePos : Nat) : List Slot :=
  let pool := literalPool reciprocalCache program.instructions
  let jmpPos := codePos + 24
  let bodyPos := jmpPos + 4 + 8 * pool.length
  [.word streamA.maskWord, .word streamB.maskWord] ++ calcDatasetItem2WayPrefetch.map .asm ++
    [.word (ARMV8A.B ||| u32 ((bodyPos - jmpPos) / 4))] ++ pool.flatMap quad ++
    (emitInterleaved (emitOrder scheduler program) (jmpPos + 4) (jmpPos + 4) bodyPos).map .word ++
    calcDatasetItem2WayMix.map .asm ++
    [.word (streamA.valueWord program), .word (streamB.valueWord program)]

/-- The rounds one behind the other. -/
def rounds (reciprocalCache : List (BitVec 64)) (scheduler : SuperscalarScheduler) :
    List SuperscalarProgram → Nat → List Slot
  | [], _ => []
  | program :: rest, codePos =>
    let slots := round reciprocalCache scheduler program codePos
    slots ++ rounds reciprocalCache scheduler rest (codePos + 4 * slots.length)

/-- Everything `generate` emits. -/
def slots (programs : List SuperscalarProgram) (reciprocalCache : List (BitVec 64))
    (scheduler : SuperscalarScheduler) : List Slot :=
  calcDatasetItem2WayHead ++
    rounds reciprocalCache scheduler programs (4 * calcDatasetItem2WayHead.length) ++
    (calcDatasetItem2WayStoreResult.map .asm ++ [.asm .ret])

/-- `calcDataset2WaySize`, the number of bytes allocated. -/
def calcDataset2WaySize : Nat :=
  let prologue := 4 * calcDatasetItem2WayHead.length
  let roundPrologue := 4 * calcDatasetItem2WayPrefetch.length + 4 + 4
  let roundEpilogue := 4 * calcDatasetItem2WayMix.length + 4 + 4
  let roundBody := kSuperscalarMaxSize * 16 * 2 + kSuperscalarMaxSize * 8
  let epilogue := 4 * (calcDatasetItem2WayStoreResult.length + 1)
  prologue + kRandomXCacheAccesses * (roundPrologue + roundBody + roundEpilogue) + epilogue

/-- `generate`: the filled buffer and `codeSize_`; `none` where it throws because
the code exceeds the buffer. -/
def generate (programs : Fin kRandomXCacheAccesses → SuperscalarProgram)
    (reciprocalCache : List (BitVec 64)) (scheduler : SuperscalarScheduler) (b : Buffer) :
    Option (Buffer × Nat) :=
  let code := slots (List.ofFn programs) reciprocalCache scheduler
  let codePos := 4 * code.length
  if codePos > calcDataset2WaySize then none else some (b.place 0 code, codePos)

/-! ## Orders -/

/-- Two instructions whose order matters: there is a register hazard, or both
take a reciprocal from the pool. -/
def Dependent (i j : Instruction) : Prop :=
  hasHazard (superscalarFootprint i) (superscalarFootprint j) = true ∨
    (isImulRcp i = true ∧ isImulRcp j = true)

/-- An order of a program's instructions in which dependent ones stay in program
order. -/
structure ValidOrder (instructions : List Instruction) (order : List Nat) : Prop where
  perm : order.Perm (List.range instructions.length)
  ascending : order.Pairwise fun i j =>
    Dependent (instructions.getD i default) (instructions.getD j default) → i < j

end JitDataset2Way

end ArmRx.Jit
