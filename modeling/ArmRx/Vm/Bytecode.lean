import ArmRx.Vm.State

/-!
# The bytecode interpreter

Embeds the compile handlers and `execute_bytecode` of `src/vm.cpp`. Pointers
in `InstructionByteCode` become the name of what they point at. A `CBRANCH`
resumes behind the last instruction that updated `register_usage_` of its
register; `-1` there means "from the first instruction".
-/

namespace ArmRx.Vm

open ArmRx.Lib

/-! ## Compiled instructions -/

/-- What `isrc` points at: an integer register, the instruction's own `imm`
field, or the constant zero of `compile_mem_op`. -/
inductive IntSource where
  | reg (i : Fin 8)
  | imm
  | zero
  deriving DecidableEq, Repr

/-- What `fdst` points at. -/
inductive FloatDest where
  | f (i : Fin 4)
  | e (i : Fin 4)
  deriving DecidableEq, Repr

/-- `struct InstructionByteCode`. A handler sets the fields its type reads;
the rest keep the values below and are never read. -/
structure InstructionByteCode where
  type : InstructionType := .nop
  idst : Fin 8 := 0
  fdst : FloatDest := .f 0
  isrc : IntSource := .zero
  fsrc : Fin 4 := 0
  imm : BitVec 64 := 0
  target : Int := 0
  shift : Nat := 0
  memMask : BitVec 32 := 0
  deriving DecidableEq, Repr

/-- `register_usage_`: the index of the last instruction that updated each
register, `-1` for none. -/
abbrev RegisterUsage : Type := Fin 8 → Int

/-- A compile handler: bytecode for the instruction at index `i`, and the
register usage it leaves. -/
abbrev CompileHandler : Type :=
  Instruction → Int → RegisterUsage → InstructionByteCode × RegisterUsage

/-- `instr.getModMem() ? kScratchpadL1Mask : kScratchpadL2Mask`. -/
def modMemMask (instr : Instruction) : BitVec 32 :=
  if instr.getModMem ≠ 0 then kScratchpadL1Mask else kScratchpadL2Mask

/-- The mask of `ISTORE`: L3 from condition 14 on. -/
def storeMask (instr : Instruction) : BitVec 32 :=
  if instr.getModCond < 14 then modMemMask instr else kScratchpadL3Mask

/-- `compile_mem_op`. With `src == dst` the address is the immediate alone,
under the L3 mask. -/
def compileMemOp (instr : Instruction) (type : InstructionType) : InstructionByteCode :=
  let imm := signExtend2sCompl instr.imm32
  if regOf instr.src ≠ regOf instr.dst then
    { type, idst := regOf instr.dst, imm, isrc := .reg (regOf instr.src)
      memMask := modMemMask instr }
  else
    { type, idst := regOf instr.dst, imm, isrc := .zero, memMask := kScratchpadL3Mask }

/-- `compile_alu_reg`. With `src == dst` the operand is the immediate. -/
def compileAluReg (instr : Instruction) (type : InstructionType) (imm : BitVec 64) :
    InstructionByteCode :=
  if regOf instr.src ≠ regOf instr.dst then
    { type, idst := regOf instr.dst, isrc := .reg (regOf instr.src) }
  else
    { type, idst := regOf instr.dst, isrc := .imm, imm }

/-- The integer loads: one `compile_mem_op`, then `register_usage_[dst] = i`. -/
def hMemOp (type : InstructionType) : CompileHandler := fun instr i usage =>
  (compileMemOp instr type, Function.update usage (regOf instr.dst) i)

/-- The register operations built on `compile_alu_reg`; `imm` selects the
widening of the immediate. -/
def hAluReg (type : InstructionType) (imm : BitVec 32 → BitVec 64) : CompileHandler :=
  fun instr i usage =>
    (compileAluReg instr type (imm instr.imm32), Function.update usage (regOf instr.dst) i)

/-- The high multiplications, which always read `src`. -/
def hMulhReg (type : InstructionType) : CompileHandler := fun instr i usage =>
  ({ type, idst := regOf instr.dst, isrc := .reg (regOf instr.src) },
    Function.update usage (regOf instr.dst) i)

def hIaddRs : CompileHandler := fun instr i usage =>
  let dst := regOf instr.dst
  ({ type := .iaddRs, idst := dst, isrc := .reg (regOf instr.src), shift := instr.getModShift
     imm := if dst ≠ 5 then 0 else signExtend2sCompl instr.imm32 },
    Function.update usage dst i)

def hIaddM : CompileHandler := hMemOp .iaddM
def hIsubR : CompileHandler := hAluReg .isubR signExtend2sCompl
def hIsubM : CompileHandler := hMemOp .isubM
def hImulR : CompileHandler := hAluReg .imulR signExtend2sCompl
def hImulM : CompileHandler := hMemOp .imulM
def hImulhR : CompileHandler := hMulhReg .imulhR
def hImulhM : CompileHandler := hMemOp .imulhM
def hIsmulhR : CompileHandler := hMulhReg .ismulhR
def hIsmulhM : CompileHandler := hMemOp .ismulhM

/-- A divisor that is zero or a power of two compiles to `NOP` and leaves
`register_usage_` alone. -/
def hImulRcp : CompileHandler := fun instr i usage =>
  if !isZeroOrPowerOf2 (instr.imm32.setWidth 64) then
    ({ type := .imulR, idst := regOf instr.dst, imm := randomxReciprocal instr.imm32
       isrc := .imm },
      Function.update usage (regOf instr.dst) i)
  else
    ({ type := .nop }, usage)

def hInegR : CompileHandler := fun instr i usage =>
  ({ type := .inegR, idst := regOf instr.dst }, Function.update usage (regOf instr.dst) i)

def hIxorR : CompileHandler := hAluReg .ixorR signExtend2sCompl
def hIxorM : CompileHandler := hMemOp .ixorM
def hIrorR : CompileHandler := hAluReg .irorR (·.setWidth 64)
def hIrolR : CompileHandler := hAluReg .irolR (·.setWidth 64)

/-- With `src == dst` this is a `NOP` that leaves `register_usage_` alone. -/
def hIswapR : CompileHandler := fun instr i usage =>
  let dst := regOf instr.dst
  let src := regOf instr.src
  if src ≠ dst then
    ({ type := .iswapR, idst := dst, isrc := .reg src },
      Function.update (Function.update usage dst i) src i)
  else
    ({ type := .nop }, usage)

/-- `dst % 8` selects an F register below four and an E register from four on. -/
def hFswapR : CompileHandler := fun instr _ usage =>
  let dst := regOf instr.dst
  ({ type := .fswapR
     fdst := if dst.val < 4 then .f (fregOf instr.dst) else .e (fregOf instr.dst) }, usage)

def hFaddR : CompileHandler := fun instr _ usage =>
  ({ type := .faddR, fdst := .f (fregOf instr.dst), fsrc := fregOf instr.src }, usage)

/-- The floating-point loads, which always use `src` as address register. -/
def hFloatMem (type : InstructionType) (fdst : Fin 4 → FloatDest) : CompileHandler :=
  fun instr _ usage =>
    ({ type, fdst := fdst (fregOf instr.dst), isrc := .reg (regOf instr.src)
       memMask := modMemMask instr
       imm := signExtend2sCompl instr.imm32 }, usage)

def hFaddM : CompileHandler := hFloatMem .faddM .f

def hFsubR : CompileHandler := fun instr _ usage =>
  ({ type := .fsubR, fdst := .f (fregOf instr.dst), fsrc := fregOf instr.src }, usage)

def hFsubM : CompileHandler := hFloatMem .fsubM .f

def hFscalR : CompileHandler := fun instr _ usage =>
  ({ type := .fscalR, fdst := .f (fregOf instr.dst) }, usage)

def hFmulR : CompileHandler := fun instr _ usage =>
  ({ type := .fmulR, fdst := .e (fregOf instr.dst), fsrc := fregOf instr.src }, usage)

def hFdivM : CompileHandler := hFloatMem .fdivM .e

def hFsqrtR : CompileHandler := fun instr _ usage =>
  ({ type := .fsqrtR, fdst := .e (fregOf instr.dst) }, usage)

/-- Every register counts as used by a `CBRANCH`. -/
def hCbranch : CompileHandler := fun instr i usage =>
  let creg := regOf instr.dst
  let shift := instr.getModCond + 8
  ({ type := .cbranch, idst := creg, target := usage creg
     imm := (signExtend2sCompl instr.imm32 ||| (1#64 <<< shift)) &&& ~~~(1#64 <<< (shift - 1))
     memMask := 255#32 <<< shift }, fun _ => i)

def hCfround : CompileHandler := fun instr _ usage =>
  ({ type := .cfround, isrc := .reg (regOf instr.src)
     imm := (instr.imm32 &&& 63).setWidth 64 }, usage)

def hIstore : CompileHandler := fun instr _ usage =>
  ({ type := .istore, idst := regOf instr.dst, isrc := .reg (regOf instr.src)
     imm := signExtend2sCompl instr.imm32
     memMask := storeMask instr }, usage)

def hNop : CompileHandler := fun _ _ usage => ({ type := .nop }, usage)

/-- `kCompileHandlers`, by instruction type. -/
def kCompileHandlers : InstructionType → CompileHandler
  | .iaddRs => hIaddRs
  | .iaddM => hIaddM
  | .isubR => hIsubR
  | .isubM => hIsubM
  | .imulR => hImulR
  | .imulM => hImulM
  | .imulhR => hImulhR
  | .imulhM => hImulhM
  | .ismulhR => hIsmulhR
  | .ismulhM => hIsmulhM
  | .imulRcp => hImulRcp
  | .inegR => hInegR
  | .ixorR => hIxorR
  | .ixorM => hIxorM
  | .irorR => hIrorR
  | .irolR => hIrolR
  | .iswapR => hIswapR
  | .fswapR => hFswapR
  | .faddR => hFaddR
  | .faddM => hFaddM
  | .fsubR => hFsubR
  | .fsubM => hFsubM
  | .fscalR => hFscalR
  | .fmulR => hFmulR
  | .fdivM => hFdivM
  | .fsqrtR => hFsqrtR
  | .cbranch => hCbranch
  | .cfround => hCfround
  | .istore => hIstore
  | .nop => hNop

/-- `compile_instruction`. -/
def compileInstruction (instr : Instruction) (i : Int) (usage : RegisterUsage) :
    InstructionByteCode × RegisterUsage :=
  kCompileHandlers instr.type instr i usage

/-- The loop of `compile_program`, from index `i` on. -/
def compileFrom : List Instruction → Int → RegisterUsage → List InstructionByteCode
  | [], _, _ => []
  | instr :: rest, i, usage =>
    let (ibc, usage') := compileInstruction instr i usage
    ibc :: compileFrom rest (i + 1) usage'

/-- `compile_program`. -/
def compileProgram (program : Program) : List InstructionByteCode :=
  compileFrom program.programBuffer 0 fun _ => -1

/-! ## Execution -/

namespace InstructionType

/-- The types whose execution updates `*ibc.idst`. -/
def hasIdst : InstructionType → Bool
  | .iaddRs | .iaddM | .isubR | .isubM | .imulR | .imulM | .imulhR | .imulhM | .ismulhR
  | .ismulhM | .inegR | .ixorR | .ixorM | .irorR | .irolR | .iswapR | .cbranch => true
  | _ => false

/-- The types whose execution reads `*ibc.isrc`. -/
def hasIsrc : InstructionType → Bool
  | .iaddRs | .iaddM | .isubR | .isubM | .imulR | .imulM | .imulhR | .imulhM | .ismulhR
  | .ismulhM | .ixorR | .ixorM | .irorR | .irolR | .iswapR | .faddM | .fsubM | .fdivM
  | .cfround | .istore => true
  | _ => false

/-- The types whose execution updates `*ibc.fdst`. -/
def hasFdst : InstructionType → Bool
  | .fswapR | .faddR | .faddM | .fsubR | .fsubM | .fscalR | .fmulR | .fdivM | .fsqrtR => true
  | _ => false

/-- The types that access the scratchpad. -/
def isMemory : InstructionType → Bool
  | .iaddM | .isubM | .imulM | .imulhM | .ismulhM | .ixorM | .faddM | .fsubM | .fdivM
  | .istore => true
  | _ => false

end InstructionType

namespace InstructionByteCode

/-- `*ibc.isrc`. -/
def readIsrc (ibc : InstructionByteCode) (s : VmState) : BitVec 64 :=
  match ibc.isrc with
  | .reg i => s.r i
  | .imm => ibc.imm
  | .zero => 0

/-- `getScratchpadAddress`: a 32-bit sum under the mask. -/
def getScratchpadAddress (ibc : InstructionByteCode) (s : VmState) : Nat :=
  (((ibc.readIsrc s).setWidth 32 + ibc.imm.setWidth 32) &&& ibc.memMask).toNat

/-- The address `ISTORE` writes: a 64-bit sum of `*idst` under the mask. -/
def storeAddress (ibc : InstructionByteCode) (s : VmState) : Nat :=
  ((s.r ibc.idst + ibc.imm) &&& ibc.memMask.setWidth 64).toNat

/-- `*ibc.fdst`. -/
def readFdst (ibc : InstructionByteCode) (s : VmState) : FloatRegister :=
  match ibc.fdst with
  | .f i => s.f i
  | .e i => s.e i

def writeFdst (ibc : InstructionByteCode) (s : VmState) (v : FloatRegister) : VmState :=
  match ibc.fdst with
  | .f i => s.setF i v
  | .e i => s.setE i v

end InstructionByteCode

/-- `*ibc.idst = op(*ibc.idst, v)`. -/
def updateIdst (op : BitVec 64 → BitVec 64 → BitVec 64) (ibc : InstructionByteCode)
    (v : BitVec 64) (s : VmState) : VmState :=
  s.setR ibc.idst (op (s.r ibc.idst) v)

/-- The eight scratchpad bytes an integer load reads. -/
def loadOperand (ibc : InstructionByteCode) (s : VmState) : BitVec 64 :=
  s.scratchpad.load64 (ibc.getScratchpadAddress s)

/-- The two signed 32-bit integers a floating-point load reads, as doubles. -/
def loadFloatOperand (ibc : InstructionByteCode) (s : VmState) : FloatRegister :=
  let addr := ibc.getScratchpadAddress s
  ⟨unsigned32ToSigned2sCompl (s.scratchpad.load32 addr),
   unsigned32ToSigned2sCompl (s.scratchpad.load32 (addr + 4))⟩

/-- `(bits & dynamicMantissaMask) | e_mask_`, both lanes. -/
def maskFloat (eMask : FloatRegister) (v : FloatRegister) : FloatRegister :=
  ⟨v.lo &&& dynamicMantissaMask ||| eMask.lo, v.hi &&& dynamicMantissaMask ||| eMask.hi⟩

/-- `*ibc.fdst = op(*ibc.fdst, v)`, both lanes. -/
def updateFdst (op : BitVec 64 → BitVec 64 → BitVec 64) (ibc : InstructionByteCode)
    (v : FloatRegister) (s : VmState) : VmState :=
  ibc.writeFdst s ⟨op (ibc.readFdst s).lo v.lo, op (ibc.readFdst s).hi v.hi⟩

/-- The `switch` of `execute_bytecode`. The jump of `CBRANCH` is `branchTaken`. -/
def executeInstruction (fp : FpOps) (eMask : FloatRegister) (ibc : InstructionByteCode)
    (s : VmState) : VmState :=
  match ibc.type with
  | .iaddRs => updateIdst (· + ·) ibc ((ibc.readIsrc s <<< ibc.shift) + ibc.imm) s
  | .iaddM => updateIdst (· + ·) ibc (loadOperand ibc s) s
  | .isubR => updateIdst (· - ·) ibc (ibc.readIsrc s) s
  | .isubM => updateIdst (· - ·) ibc (loadOperand ibc s) s
  | .imulR => updateIdst (· * ·) ibc (ibc.readIsrc s) s
  | .imulM => updateIdst (· * ·) ibc (loadOperand ibc s) s
  | .imulhR => updateIdst mulh ibc (ibc.readIsrc s) s
  | .imulhM => updateIdst mulh ibc (loadOperand ibc s) s
  | .ismulhR => updateIdst smulh ibc (ibc.readIsrc s) s
  | .ismulhM => updateIdst smulh ibc (loadOperand ibc s) s
  -- no handler produces this type: `IMUL_RCP` compiles to `IMUL_R` or `NOP`
  | .imulRcp => s
  | .inegR => s.setR ibc.idst (~~~(s.r ibc.idst) + 1)
  | .ixorR => updateIdst (· ^^^ ·) ibc (ibc.readIsrc s) s
  | .ixorM => updateIdst (· ^^^ ·) ibc (loadOperand ibc s) s
  | .irorR => updateIdst (fun d v => rotr d (v &&& 63).toNat) ibc (ibc.readIsrc s) s
  | .irolR => updateIdst (fun d v => rotl d (v &&& 63).toNat) ibc (ibc.readIsrc s) s
  | .iswapR =>
    match ibc.isrc with
    | .reg j => (s.setR j (s.r ibc.idst)).setR ibc.idst (s.r j)
    | _ => s
  | .fswapR => ibc.writeFdst s ⟨(ibc.readFdst s).hi, (ibc.readFdst s).lo⟩
  | .faddR => updateFdst (fp.add s.lastRoundingMode) ibc (s.a ibc.fsrc) s
  | .faddM => updateFdst (fp.add s.lastRoundingMode) ibc (loadFloatOperand ibc s) s
  | .fsubR => updateFdst (fp.sub s.lastRoundingMode) ibc (s.a ibc.fsrc) s
  | .fsubM => updateFdst (fp.sub s.lastRoundingMode) ibc (loadFloatOperand ibc s) s
  | .fscalR => updateFdst (· ^^^ ·) ibc ⟨0x80F0000000000000, 0x80F0000000000000⟩ s
  | .fmulR => updateFdst (fp.mul s.lastRoundingMode) ibc (s.a ibc.fsrc) s
  | .fdivM =>
    updateFdst (fp.div s.lastRoundingMode) ibc (maskFloat eMask (loadFloatOperand ibc s)) s
  | .fsqrtR =>
    ibc.writeFdst s ⟨fp.sqrt s.lastRoundingMode (ibc.readFdst s).lo,
      fp.sqrt s.lastRoundingMode (ibc.readFdst s).hi⟩
  | .cbranch => updateIdst (· + ·) ibc ibc.imm s
  | .cfround => rxSetRoundingMode ((rotr (ibc.readIsrc s) ibc.imm.toNat).setWidth 2) s
  | .istore =>
    { s with scratchpad := s.scratchpad.store64 (ibc.storeAddress s) (ibc.readIsrc s) }
  | .nop => s

/-- Whether an instruction that has just executed jumps. -/
def branchTaken (ibc : InstructionByteCode) (s : VmState) : Bool :=
  ibc.type == .cbranch && (s.r ibc.idst &&& ibc.memMask.setWidth 64) == 0

/-- The bytecode of an instruction on its own. Its position and the register
usage enter only into the jump target of a `CBRANCH`. -/
def bytecodeOf (instr : Instruction) : InstructionByteCode :=
  (compileInstruction instr 0 fun _ => -1).1

theorem bytecodeOf_of_type {instr : Instruction} {type : InstructionType} (h : instr.type = type) :
    bytecodeOf instr = (kCompileHandlers type instr 0 fun _ => -1).1 := by
  rw [← h]
  rfl

/-- Only `CBRANCH` compiles to a `CBRANCH`. -/
theorem bytecodeOf_type_ne_cbranch {instr : Instruction} (h : instr.type ≠ .cbranch) :
    (bytecodeOf instr).type ≠ .cbranch := by
  cases hType : instr.type <;> rw [bytecodeOf_of_type hType]
  case cbranch => exact absurd hType h
  all_goals
    simp only [kCompileHandlers, hIaddRs, hIaddM, hIsubR, hIsubM, hImulR, hImulM, hImulhR, hImulhM,
      hIsmulhR, hIsmulhM, hImulRcp, hInegR, hIxorR, hIxorM, hIrorR, hIrolR, hIswapR, hFswapR,
      hFaddR, hFaddM, hFsubR, hFsubM, hFscalR, hFmulR, hFdivM, hFsqrtR, hCfround, hIstore, hNop,
      hMemOp, hAluReg, hMulhReg, hFloatMem, compileMemOp, compileAluReg]
    first
      | (split <;> simp)
      | simp

theorem branchTaken_eq_false {instr : Instruction} (h : instr.type ≠ .cbranch) (s : VmState) :
    branchTaken (bytecodeOf instr) s = false := by
  rw [branchTaken, beq_eq_false_iff_ne.mpr (bytecodeOf_type_ne_cbranch h), Bool.false_and]

theorem compileInstruction_fst (instr : Instruction) (i : Int) (usage : RegisterUsage) :
    (compileInstruction instr i usage).1 =
      { bytecodeOf instr with target := (compileInstruction instr i usage).1.target } := by
  unfold bytecodeOf compileInstruction
  cases instr.type <;> try rfl
  all_goals
    simp only [kCompileHandlers, hImulRcp, hIswapR]
    split <;> rfl

/-- The loop of `execute_bytecode` from index `pc`, for at most `fuel`
instructions; `none` when the fuel runs out before the end is reached. -/
def executeBytecodeFrom (fp : FpOps) (eMask : FloatRegister)
    (bytecode : List InstructionByteCode) : Nat → Nat → VmState → Option VmState
  | fuel, pc, s =>
    match bytecode[pc]? with
    | none => some s
    | some ibc =>
      match fuel with
      | 0 => none
      | fuel + 1 =>
        let s' := executeInstruction fp eMask ibc s
        -- `pc = ibc.target`, then the loop's `++pc`
        let pc' := if branchTaken ibc s' then (ibc.target + 1).toNat else pc + 1
        executeBytecodeFrom fp eMask bytecode fuel pc' s'

/-- `execute_bytecode`. -/
def executeBytecode (fp : FpOps) (eMask : FloatRegister) (program : Program) (fuel : Nat)
    (s : VmState) : Option VmState :=
  executeBytecodeFrom fp eMask (compileProgram program) fuel 0 s

end ArmRx.Vm
