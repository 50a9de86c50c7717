import ArmRx.Jit.Footprint
import ArmRx.Jit.Template
import ArmRx.Vm.Superscalar

/-!
# The dataset-item emitter

Embeds `computeSuperscalarFootprint`, `scheduleSuperscalarProgram` and
`generateSuperscalarHash` of `src/jit_compiler_a64.cpp`. The generated function
is emitted front to back, so it is a list of slots placed at `CodeSize`; the
words depend on their position only through the reciprocals, which are loaded
relative to the program counter from a pool in front of each program.
-/

namespace ArmRx.Jit

open ArmRx.Vm ArmRx.A64

/-! ## Scheduling -/

/-- `computeSuperscalarFootprint`. -/
def computeSuperscalarFootprint (instr : Instruction) :
    Option SuperscalarInstructionType → InstrFootprint
  | some .isubR | some .ixorR | some .iaddRs =>
    { intRead := bit instr.dst ||| bit instr.src, intWrite := bit instr.dst }
  | some .imulR | some .imulhR | some .ismulhR =>
    { intRead := bit instr.dst ||| bit instr.src, intWrite := bit instr.dst
      isLongLatency := true }
  | some .irorC | some .iaddC7 | some .iaddC8 | some .iaddC9 | some .ixorC7 | some .ixorC8
  | some .ixorC9 => { intRead := bit instr.dst, intWrite := bit instr.dst }
  | some .imulRcp =>
    { intRead := bit instr.dst, intWrite := bit instr.dst, isLongLatency := true
      isImulRcp := true }
  | none => {}

def superscalarFootprint (instr : Instruction) : InstrFootprint :=
  computeSuperscalarFootprint instr instr.superscalarType

/-- The condition under which the instruction two behind a long-latency one is
emitted in front of the one directly behind it. -/
def swapsSuperscalar (p q r : InstrFootprint) : Bool :=
  p.isLongLatency && !q.isImulRcp && !r.isImulRcp && hasHazard p q && !hasHazard p r &&
    !hasHazard q r

/-- The loop of `scheduleSuperscalarProgram` from instruction `i` on. -/
def scheduleSuperscalarFrom (i : Nat) : List InstrFootprint → List Nat
  | p :: q :: r :: rest =>
    if swapsSuperscalar p q r then
      i :: (i + 2) :: (i + 1) :: scheduleSuperscalarFrom (i + 3) rest
    else i :: scheduleSuperscalarFrom (i + 1) (q :: r :: rest)
  | [_, _] => [i, i + 1]
  | [_] => [i]
  | [] => []

/-- `scheduleSuperscalarProgram`. -/
def scheduleSuperscalarProgram (instructions : List Instruction) : List Nat :=
  scheduleSuperscalarFrom 0 (instructions.map superscalarFootprint)

/-- The instructions in emission order. -/
def emissionOrder (instructions : List Instruction) : List Instruction :=
  (scheduleSuperscalarProgram instructions).map fun j => instructions.getD j default

/-! ## Words -/

/-- `emitCpoolImmediate`. -/
def emitCpoolImmediate (dst : Nat) (imm : BitVec 32) : List (BitVec 32) :=
  [if imm.msb then ARMV8A.MOVN ||| u32 dst ||| u32 1 <<< 21 ||| (~~~imm >>> 16) <<< 5
    else ARMV8A.MOVZ ||| u32 dst ||| u32 1 <<< 21 ||| (imm >>> 16) <<< 5,
   ARMV8A.MOVK ||| u32 dst ||| (imm &&& 0xFFFF) <<< 5]

/-- `(literal_pos - codePos) / 4`, in unsigned arithmetic, and its low 19 bits. -/
def literalOffset (literalPos codePos : Nat) : BitVec 32 :=
  (u32 literalPos - u32 codePos) / 4 &&& u32 (2 ^ 19 - 1)

/-- The words of one instruction at `codePos`, `literalPos` being the next
reciprocal. -/
def superscalarWords (instr : Instruction) (literalPos codePos : Nat) : List (BitVec 32) :=
  let dst := instr.dst.toNat
  let src := instr.src.toNat
  match instr.superscalarType with
  | some .isubR => [op3 ARMV8A.SUB dst src]
  | some .ixorR => [op3 ARMV8A.EOR dst src]
  | some .iaddRs =>
    [ARMV8A.ADD ||| u32 dst ||| u32 dst <<< 5 ||| u32 instr.getModShift <<< 10 ||| u32 src <<< 16]
  | some .imulR => [op3 ARMV8A.MUL dst src]
  | some .irorC =>
    [ARMV8A.ROR_IMM ||| u32 dst ||| u32 dst <<< 5 ||| (instr.imm32 &&& 63) <<< 10 |||
      u32 dst <<< 16]
  | some .iaddC7 | some .iaddC8 | some .iaddC9 =>
    emitCpoolImmediate 13 instr.imm32 ++ [op3 ARMV8A.ADD dst 13]
  | some .ixorC7 | some .ixorC8 | some .ixorC9 =>
    emitCpoolImmediate 12 instr.imm32 ++ [op3 ARMV8A.EOR dst 12]
  | some .imulhR => [op3 ARMV8A.UMULH dst src]
  | some .ismulhR => [op3 ARMV8A.SMULH dst src]
  | some .imulRcp =>
    [ARMV8A.LDR_LITERAL ||| u32 12 ||| literalOffset literalPos codePos <<< 5,
     op3 ARMV8A.MUL dst 12]
  | none => []

def isImulRcp (instr : Instruction) : Bool := instr.superscalarType = some .imulRcp

/-- The words of a list of instructions. -/
def emitSuperscalar : List Instruction → Nat → Nat → List (BitVec 32)
  | [], _, _ => []
  | instr :: rest, literalPos, codePos =>
    let words := superscalarWords instr literalPos codePos
    words ++ emitSuperscalar rest (if isImulRcp instr then literalPos + 8 else literalPos)
      (codePos + 4 * words.length)

/-! ## The function -/

/-- The reciprocals of a program, in program order. -/
def literalPool (reciprocalCache : List (BitVec 64)) (instructions : List Instruction) :
    List (BitVec 64) :=
  (instructions.filter isImulRcp).map fun instr => reciprocalCache.getD instr.imm32.toNat 0

/-- `CacheSize / CacheLineSize - 1` as the logical immediate of `and x11, x10`. -/
def cacheLineMask : BitVec 32 :=
  ARMV8A.AND_IMM_64 ||| u32 11 ||| u32 10 <<< 5 |||
    u32 (Nat.log2 (kRandomXCacheBytes / 64) - 1) <<< 10

/-- The slots of one program: the cache line's address, a branch over the
reciprocals, the scheduled instructions, and the mix with the cache line. -/
def superscalarProgram (reciprocalCache : List (BitVec 64)) (program : SuperscalarProgram)
    (codePos : Nat) : List Slot :=
  let pool := literalPool reciprocalCache program.instructions
  let jmpPos := codePos + 12
  let bodyPos := jmpPos + 4 + 8 * pool.length
  [.word cacheLineMask] ++ calcDatasetItemPrefetch.map .asm ++
    [.word (ARMV8A.B ||| u32 ((bodyPos - jmpPos) / 4))] ++ pool.flatMap quad ++
    (emitSuperscalar (emissionOrder program.instructions) (jmpPos + 4) bodyPos).map .word ++
    calcDatasetItemMix.map .asm ++
    [.word (ARMV8A.MOV_REG ||| u32 10 ||| u32 program.addressRegister <<< 16)]

/-- The programs one behind the other. -/
def superscalarPrograms (reciprocalCache : List (BitVec 64)) :
    List SuperscalarProgram → Nat → List Slot
  | [], _ => []
  | program :: rest, codePos =>
    let slots := superscalarProgram reciprocalCache program codePos
    slots ++ superscalarPrograms reciprocalCache rest (codePos + 4 * slots.length)

/-- `randomx_calc_dataset_item_aarch64` up to `prefetch`. -/
def calcDatasetItemHead : List Slot :=
  calcDatasetItem.map .asm ++ [.asm (.b (CodeSize + 176))] ++ superscalarConstants.flatMap quad

/-- Everything `generateSuperscalarHash` emits. -/
def calcDatasetItemSlots (programs : List SuperscalarProgram)
    (reciprocalCache : List (BitVec 64)) : List Slot :=
  calcDatasetItemHead ++
    superscalarPrograms reciprocalCache programs (CodeSize + 4 * calcDatasetItemHead.length) ++
    calcDatasetItemStoreResult.map .asm ++ [.asm .ret]

/-- `CalcDatasetItemSize`: the room behind `CodeSize`, at sixteen bytes an
instruction. -/
def CalcDatasetItemSize : Nat :=
  176 + kRandomXCacheAccesses * (12 + 4 + kSuperscalarMaxSize * 16 + 48 + 4) + 52

/-- `generateSuperscalarHash`; `none` where it aborts because the code does not
fit. -/
def generateSuperscalarHash (programs : List SuperscalarProgram)
    (reciprocalCache : List (BitVec 64)) (b : Buffer) : Option Buffer :=
  let slots := calcDatasetItemSlots programs reciprocalCache
  if CodeSize + 4 * slots.length > CodeSize + CalcDatasetItemSize then none
  else some (b.place CodeSize slots)

end ArmRx.Jit
