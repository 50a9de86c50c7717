import ArmRx.Lib.Literals

/-!
# RandomX instructions and the opcode table

Embeds `include/armrx/instruction.hpp`, `include/armrx/program.hpp` and the
frequency table of `src/instruction_weights.hpp`. The interpreter's
`kCompileHandlers` and the JIT's `engine` and `kTypeOfEngine` are all expanded
from that one frequency table, so the model has a single `kTypeOfEngine`.
-/

namespace ArmRx.Vm

/-- `enum class InstructionType`. -/
inductive InstructionType where
  | iaddRs | iaddM | isubR | isubM | imulR | imulM | imulhR | imulhM | ismulhR | ismulhM
  | imulRcp | inegR | ixorR | ixorM | irorR | irolR | iswapR | fswapR | faddR | faddM
  | fsubR | fsubM | fscalR | fmulR | fdivM | fsqrtR | cbranch | cfround | istore | nop
  deriving DecidableEq, Repr

/-- `class Instruction`: eight bytes of program data, any value allowed. -/
structure Instruction where
  opcode : BitVec 8
  dst : BitVec 8
  src : BitVec 8
  mod : BitVec 8
  imm32 : BitVec 32
  deriving DecidableEq, Repr

instance : Inhabited Instruction := ⟨⟨0, 0, 0, 0, 0⟩⟩

namespace Instruction

/-- Bits 0–1 of `mod`. -/
def getModMem (instr : Instruction) : Nat := instr.mod.toNat % 4

/-- Bits 2–3 of `mod`. -/
def getModShift (instr : Instruction) : Nat := (instr.mod.toNat >>> 2) % 4

/-- Bits 4–7 of `mod`. -/
def getModCond (instr : Instruction) : Nat := instr.mod.toNat >>> 4

theorem getModShift_lt (instr : Instruction) : instr.getModShift < 4 := by
  unfold getModShift
  omega

theorem getModCond_lt (instr : Instruction) : instr.getModCond < 16 := by
  unfold getModCond
  have := instr.mod.isLt
  rw [Nat.shiftRight_eq_div_pow]
  omega

end Instruction

/-! ## The opcode table -/

/-- The `RANDOMX_FREQ_*` values, in the order the tables list them. -/
def instructionWeights : List (InstructionType × Nat) :=
  [(.iaddRs, 16), (.iaddM, 7), (.isubR, 16), (.isubM, 7), (.imulR, 16), (.imulM, 4),
   (.imulhR, 4), (.imulhM, 1), (.ismulhR, 4), (.ismulhM, 1), (.imulRcp, 8), (.inegR, 2),
   (.ixorR, 15), (.ixorM, 5), (.irorR, 8), (.irolR, 2), (.iswapR, 4), (.fswapR, 4),
   (.faddR, 16), (.faddM, 5), (.fsubR, 16), (.fsubM, 5), (.fscalR, 6), (.fmulR, 32),
   (.fdivM, 4), (.fsqrtR, 6), (.cbranch, 25), (.cfround, 1), (.istore, 16), (.nop, 0)]

/-- The 256-entry table the `INST_HANDLE` macros expand to. -/
def kTypeOfEngine : List InstructionType :=
  instructionWeights.flatMap fun (type, freq) => List.replicate freq type

/-- `resolveInstructionType`: the instruction type of an opcode byte. -/
def resolveInstructionType (opcode : BitVec 8) : InstructionType :=
  kTypeOfEngine.getD opcode.toNat .nop

/-- The type an instruction is dispatched on. -/
def Instruction.type (instr : Instruction) : InstructionType :=
  resolveInstructionType instr.opcode

/-! ## Programs -/

/-- `class Program`: exactly 256 instructions. -/
structure Program where
  programBuffer : List Instruction
  getSize : programBuffer.length = 256

/-- The register number a `dst` or `src` byte selects (`% RegistersCount`). -/
def regOf (b : BitVec 8) : Fin 8 := ⟨b.toNat % 8, by omega⟩

/-- `dst % 4`, the number of a floating-point register within its group. -/
def fregOf (b : BitVec 8) : Fin 4 := ⟨b.toNat % 4, by omega⟩

end ArmRx.Vm
