import ArmRx.A64.Decode
import ArmRx.Vm.Bytecode

/-!
# The main-program emitter

Embeds the immediate loaders and the instruction handlers of
`src/jit_compiler_a64.cpp`: each appends A64 words at `codePos` and may place
a constant in one of the two literal pools. Reciprocals grow downwards from
`ImulRcpLiteralsEnd` (eight bytes each, the last twelve slots are what the
prologue loads into registers); 32-bit immediates grow upwards from there and
are loaded into the lanes of `v0`–`v15`.

The code buffer is kept as 32-bit words by byte offset: every write the
emitter makes is word-aligned. `RANDOMX_FLAG_V2` is never set by this program,
so the two `if (flags & RANDOMX_FLAG_V2)` branches are not embedded.
-/

namespace ArmRx.Jit

open ArmRx.Vm ArmRx.A64

/-! ## Constants -/

namespace ARMV8A

def EOR : BitVec 32 := 0xCA000000
def EOR32 : BitVec 32 := 0x4A000000
def ADD : BitVec 32 := 0x8B000000
def SUB : BitVec 32 := 0xCB000000
def MUL : BitVec 32 := 0x9B007C00
def UMULH : BitVec 32 := 0x9BC07C00
def SMULH : BitVec 32 := 0x9B407C00
def MOVZ : BitVec 32 := 0xD2800000
def MOVN : BitVec 32 := 0x92800000
def MOVK : BitVec 32 := 0xF2800000
def ADD_IMM_LO : BitVec 32 := 0x91000000
def ADD_IMM_HI : BitVec 32 := 0x91400000
def LDR_LITERAL : BitVec 32 := 0x58000000
def ROR : BitVec 32 := 0x9AC02C00
def ROR_IMM : BitVec 32 := 0x93C00000
def MOV_REG : BitVec 32 := 0xAA0003E0
def FADD : BitVec 32 := 0x4E60D400
def FSUB : BitVec 32 := 0x4EE0D400
def FEOR : BitVec 32 := 0x6E201C00
def FMUL : BitVec 32 := 0x6E60DC00
def FDIV : BitVec 32 := 0x6E60FC00
def FSQRT : BitVec 32 := 0x6EE1F800
def AND_IMM_SHIFT : BitVec 32 := 0x927d0000
def AND_IMM_64 : BitVec 32 := 0x92400000
def B : BitVec 32 := 0x14000000
def LDR_64_REG : BitVec 32 := 0xf8606840
def LDR_64_REG_LSL3 : BitVec 32 := 0xf8607840
def LDR_64_SCALAR : BitVec 32 := 0xfc606800
def LDR_32_REG : BitVec 32 := 0xF8206840

end ARMV8A

/-- `PrologueSize`: the offset of the first emitted instruction. -/
def PrologueSize : Nat := 480

/-- `ImulRcpLiteralsEnd`: the boundary between the two literal pools. -/
def ImulRcpLiteralsEnd : Nat := 49728

def RANDOMX_SCRATCHPAD_L1 : Nat := kRandomXScratchpadL1Bytes
def RANDOMX_SCRATCHPAD_L2 : Nat := kRandomXScratchpadL2Bytes
def RANDOMX_SCRATCHPAD_L3 : Nat := kRandomXScratchpadBytes

/-- `IntRegMap` (`include/armrx/jit_contract.h`). -/
def IntRegMap : Fin 8 → Nat
  | 0 => 4 | 1 => 5 | 2 => 6 | 3 => 7 | 4 => 12 | 5 => 13 | 6 => 14 | 7 => 15

/-! ## The emitter state -/

structure Emitter where
  code : Nat → BitVec 32
  codePos : Nat
  literalPos : Nat
  num32bitLiterals : Nat
  regChangedOffset : Fin 8 → Nat

namespace Emitter

/-- `emit32`. -/
def emit32 (val : BitVec 32) (em : Emitter) : Emitter :=
  { em with code := Function.update em.code em.codePos val, codePos := em.codePos + 4 }

/-- `memcpy(code + literalPos, &reciprocal, 8)` after `literalPos -= 8`. -/
def placeReciprocal (reciprocal : BitVec 64) (em : Emitter) : Emitter :=
  let pos := em.literalPos - 8
  { em with
    literalPos := pos
    code := Function.update (Function.update em.code pos (reciprocal.setWidth 32)) (pos + 4)
      ((reciprocal >>> 32).setWidth 32) }

/-- `((uint32_t*)(code + ImulRcpLiteralsEnd))[num32bitLiterals++] = imm`. -/
def placeLiteral32 (imm : BitVec 32) (em : Emitter) : Emitter :=
  { em with
    code := Function.update em.code (ImulRcpLiteralsEnd + 4 * em.num32bitLiterals) imm
    num32bitLiterals := em.num32bitLiterals + 1 }

/-- `reg_changed_offset[r] = codePos`. -/
def regChanged (r : Fin 8) (em : Emitter) : Emitter :=
  { em with regChangedOffset := Function.update em.regChangedOffset r em.codePos }

end Emitter

/-- What `emitPrologueMix` starts from, given the template's words. -/
def initialEmitter (template : Nat → BitVec 32) : Emitter :=
  { code := template
    codePos := PrologueSize
    literalPos := ImulRcpLiteralsEnd
    num32bitLiterals := 0
    regChangedOffset := fun _ => PrologueSize }

/-! ## Immediates -/

/-- `emitMovImmediate`. -/
def emitMovImmediate (dst : Nat) (imm : BitVec 32) (em : Emitter) : Emitter :=
  if imm < 0x10000 then
    em.emit32 (ARMV8A.MOVZ ||| u32 dst ||| imm <<< 5)
  else if em.num32bitLiterals < 64 then
    let op : BitVec 32 := if imm.msb then 0x4E042C00 else 0x0E043C00
    (em.emit32 (op ||| u32 dst ||| u32 (em.num32bitLiterals / 4) <<< 5 |||
      u32 (em.num32bitLiterals % 4) <<< 19)).placeLiteral32 imm
  else
    let high :=
      if imm.msb then ARMV8A.MOVN ||| u32 dst ||| u32 1 <<< 21 ||| (~~~imm >>> 16) <<< 5
      else ARMV8A.MOVZ ||| u32 dst ||| u32 1 <<< 21 ||| (imm >>> 16) <<< 5
    (em.emit32 high).emit32 (ARMV8A.MOVK ||| u32 dst ||| (imm &&& 0xFFFF) <<< 5)

/-- `emitAddImmediate`, with `x20` as the temporary. -/
def emitAddImmediate (dst src : Nat) (imm : BitVec 32) (em : Emitter) : Emitter :=
  if imm < 0x1000000 then
    let immLo := imm &&& 0xFFF
    let immHi := imm >>> 12
    if immLo ≠ 0 ∧ immHi ≠ 0 then
      (em.emit32 (ARMV8A.ADD_IMM_LO ||| u32 dst ||| u32 src <<< 5 ||| immLo <<< 10)).emit32
        (ARMV8A.ADD_IMM_HI ||| u32 dst ||| u32 dst <<< 5 ||| immHi <<< 10)
    else if immLo ≠ 0 then
      em.emit32 (ARMV8A.ADD_IMM_LO ||| u32 dst ||| u32 src <<< 5 ||| immLo <<< 10)
    else
      em.emit32 (ARMV8A.ADD_IMM_HI ||| u32 dst ||| u32 src <<< 5 ||| immHi <<< 10)
  else
    (emitMovImmediate 20 imm em).emit32
      (ARMV8A.ADD ||| u32 dst ||| u32 src <<< 5 ||| u32 20 <<< 16)

/-! ## Memory operands -/

/-- `imm & (getModMem() ? L1 - 1 : L2 - 1)`. -/
def maskedImm (instr : Instruction) : BitVec 32 :=
  instr.imm32 &&& u32 ((if instr.getModMem ≠ 0 then RANDOMX_SCRATCHPAD_L1
    else RANDOMX_SCRATCHPAD_L2) - 1)

/-- `getModMem() ? andInstrL1 : andInstrL2`, `and dst, src, #mask`. -/
def andInstr (instr : Instruction) (dst src : Nat) : BitVec 32 :=
  ARMV8A.AND_IMM_SHIFT ||| u32 dst ||| u32 src <<< 5 |||
    u32 (Nat.log2 (if instr.getModMem ≠ 0 then RANDOMX_SCRATCHPAD_L1
      else RANDOMX_SCRATCHPAD_L2) - 4) <<< 10

/-- `emitMemLoad<20>`; `dst` and `src` are A64 registers. -/
def emitMemLoad (dst src : Nat) (instr : Instruction) (em : Emitter) : Emitter :=
  if src ≠ dst then
    let imm := maskedImm instr
    let em :=
      if imm ≠ 0 then (emitAddImmediate 20 src imm em).emit32 (andInstr instr 20 20)
      else em.emit32 (andInstr instr 20 src)
    em.emit32 (ARMV8A.LDR_64_REG ||| u32 20 ||| u32 20 <<< 16)
  else
    (emitMovImmediate 20 ((instr.imm32 &&& kScratchpadL3Mask) >>> 3) em).emit32
      (ARMV8A.LDR_64_REG_LSL3 ||| u32 20 ||| u32 20 <<< 16)

/-- `emitMemLoadFP<28>`. With a masked immediate of zero nothing copies `src`
into the temporary. -/
def emitMemLoadFP (src : Nat) (instr : Instruction) (em : Emitter) : Emitter :=
  let imm := maskedImm instr
  let em := if imm ≠ 0 then emitAddImmediate 19 src imm em else em
  let em := em.emit32 (andInstr instr 19 19)
  let em := em.emit32 (ARMV8A.LDR_64_SCALAR ||| u32 19 <<< 16 ||| u32 2 <<< 5 ||| u32 28)
  let em := em.emit32 (0x0F20A400#32 ||| u32 28 <<< 5 ||| u32 28)
  em.emit32 (0x4E61D800#32 ||| u32 28 ||| u32 28 <<< 5)

/-! ## Handlers -/

/-- An instruction handler. -/
abbrev InstructionGenerator : Type := Instruction → Emitter → Emitter

/-- The A64 registers of `dst` and `src`. -/
def dstReg (instr : Instruction) : Nat := IntRegMap (regOf instr.dst)
def srcReg (instr : Instruction) : Nat := IntRegMap (regOf instr.src)

/-- `op dst, dst, src`. -/
def op3 (op : BitVec 32) (dst src : Nat) : BitVec 32 :=
  op ||| u32 dst ||| u32 dst <<< 5 ||| u32 src <<< 16

namespace JitCompilerA64

def hIaddRs : InstructionGenerator := fun instr em =>
  let em := em.emit32 (ARMV8A.ADD ||| u32 (dstReg instr) ||| u32 (dstReg instr) <<< 5 |||
    u32 instr.getModShift <<< 10 ||| u32 (srcReg instr) <<< 16)
  let em :=
    if regOf instr.dst = 5 then emitAddImmediate (dstReg instr) (dstReg instr) instr.imm32 em
    else em
  em.regChanged (regOf instr.dst)

/-- The integer loads: `emitMemLoad`, then `op dst, dst, x20`. -/
def hMemOp (op : BitVec 32) : InstructionGenerator := fun instr em =>
  ((emitMemLoad (dstReg instr) (srcReg instr) instr em).emit32
    (op3 op (dstReg instr) 20)).regChanged (regOf instr.dst)

def hIaddM : InstructionGenerator := hMemOp ARMV8A.ADD

def hIsubR : InstructionGenerator := fun instr em =>
  let em :=
    if srcReg instr ≠ dstReg instr then em.emit32 (op3 ARMV8A.SUB (dstReg instr) (srcReg instr))
    else if instr.imm32 = 0x80000000 then
      (em.emit32 (ARMV8A.MOVZ ||| u32 20 ||| u32 1 <<< 21 ||| u32 0x8000 <<< 5)).emit32
        (op3 ARMV8A.ADD (dstReg instr) 20)
    else emitAddImmediate (dstReg instr) (dstReg instr) (-instr.imm32) em
  em.regChanged (regOf instr.dst)

def hIsubM : InstructionGenerator := hMemOp ARMV8A.SUB

/-- `IMUL_R` and `IXOR_R`: with `src == dst` the operand is the immediate in
`x20`. -/
def hAluImm (op : BitVec 32) : InstructionGenerator := fun instr em =>
  let em :=
    if srcReg instr = dstReg instr then
      (emitMovImmediate 20 instr.imm32 em).emit32 (op3 op (dstReg instr) 20)
    else em.emit32 (op3 op (dstReg instr) (srcReg instr))
  em.regChanged (regOf instr.dst)

def hImulR : InstructionGenerator := hAluImm ARMV8A.MUL
def hImulM : InstructionGenerator := hMemOp ARMV8A.MUL

/-- `op dst, dst, src`, whatever the registers are. -/
def hMulh (op : BitVec 32) : InstructionGenerator := fun instr em =>
  (em.emit32 (op3 op (dstReg instr) (srcReg instr))).regChanged (regOf instr.dst)

def hImulhR : InstructionGenerator := hMulh ARMV8A.UMULH
def hImulhM : InstructionGenerator := hMemOp ARMV8A.UMULH
def hIsmulhR : InstructionGenerator := hMulh ARMV8A.SMULH
def hIsmulhM : InstructionGenerator := hMemOp ARMV8A.SMULH

/-- `literal_regs`: the registers that hold the first twelve reciprocals. -/
def literalRegs : List Nat := [30, 29, 28, 27, 26, 25, 24, 23, 22, 21, 11, 0]

def hImulRcp : InstructionGenerator := fun instr em =>
  if instr.imm32 &&& (instr.imm32 - 1) == 0 then em
  else
    let literalId := (ImulRcpLiteralsEnd - em.literalPos) / 8
    let em := em.placeReciprocal (randomxReciprocal instr.imm32)
    let em :=
      if literalId < 12 then em.emit32 (op3 ARMV8A.MUL (dstReg instr) (literalRegs.getD literalId 0))
      else
        let offset := ((u32 em.literalPos - u32 em.codePos) / 4) &&& (u32 1 <<< 19 - 1)
        (em.emit32 (ARMV8A.LDR_LITERAL ||| u32 20 ||| offset <<< 5)).emit32
          (op3 ARMV8A.MUL (dstReg instr) 20)
    em.regChanged (regOf instr.dst)

def hInegR : InstructionGenerator := fun instr em =>
  (em.emit32 (ARMV8A.SUB ||| u32 (dstReg instr) ||| u32 31 <<< 5 |||
    u32 (dstReg instr) <<< 16)).regChanged (regOf instr.dst)

def hIxorR : InstructionGenerator := hAluImm ARMV8A.EOR
def hIxorM : InstructionGenerator := hMemOp ARMV8A.EOR

/-- `ror dst, src, #imm`. -/
def rorImm (dst src : Nat) (imm : BitVec 32) : BitVec 32 :=
  ARMV8A.ROR_IMM ||| u32 dst ||| u32 src <<< 5 ||| (imm &&& 63) <<< 10 ||| u32 src <<< 16

def hIrorR : InstructionGenerator := fun instr em =>
  let em :=
    if srcReg instr ≠ dstReg instr then em.emit32 (op3 ARMV8A.ROR (dstReg instr) (srcReg instr))
    else em.emit32 (rorImm (dstReg instr) (dstReg instr) instr.imm32)
  em.regChanged (regOf instr.dst)

def hIrolR : InstructionGenerator := fun instr em =>
  let em :=
    if srcReg instr ≠ dstReg instr then
      (em.emit32 (ARMV8A.SUB ||| u32 20 ||| u32 31 <<< 5 ||| u32 (srcReg instr) <<< 16)).emit32
        (op3 ARMV8A.ROR (dstReg instr) 20)
    else em.emit32 (rorImm (dstReg instr) (dstReg instr) (-instr.imm32))
  em.regChanged (regOf instr.dst)

/-- `mov dst, src`. -/
def movReg (dst src : Nat) : BitVec 32 := ARMV8A.MOV_REG ||| u32 dst ||| u32 src <<< 16

def hIswapR : InstructionGenerator := fun instr em =>
  if srcReg instr = dstReg instr then em
  else
    ((((em.emit32 (movReg 20 (dstReg instr))).emit32 (movReg (dstReg instr) (srcReg instr))).emit32
      (movReg (srcReg instr) 20)).regChanged (regOf instr.src)).regChanged (regOf instr.dst)

def hFswapR : InstructionGenerator := fun instr em =>
  let dst := (regOf instr.dst).val + 16
  em.emit32 (0x6E004000#32 ||| u32 dst ||| u32 dst <<< 5 ||| u32 dst <<< 16)

def hFaddR : InstructionGenerator := fun instr em =>
  em.emit32 (op3 ARMV8A.FADD ((fregOf instr.dst).val + 16) ((fregOf instr.src).val + 24))

/-- The floating-point loads of the F group: `emitMemLoadFP`, then `op`. -/
def hFloatMem (op : BitVec 32) : InstructionGenerator := fun instr em =>
  (emitMemLoadFP (srcReg instr) instr em).emit32 (op3 op ((fregOf instr.dst).val + 16) 28)

def hFaddM : InstructionGenerator := hFloatMem ARMV8A.FADD

def hFsubR : InstructionGenerator := fun instr em =>
  em.emit32 (op3 ARMV8A.FSUB ((fregOf instr.dst).val + 16) ((fregOf instr.src).val + 24))

def hFsubM : InstructionGenerator := hFloatMem ARMV8A.FSUB

def hFscalR : InstructionGenerator := fun instr em =>
  em.emit32 (op3 ARMV8A.FEOR ((fregOf instr.dst).val + 16) 31)

def hFmulR : InstructionGenerator := fun instr em =>
  em.emit32 (op3 ARMV8A.FMUL ((fregOf instr.dst).val + 20) ((fregOf instr.src).val + 24))

/-- `FDIV_M` masks the loaded operand before dividing. -/
def hFdivM : InstructionGenerator := fun instr em =>
  let em := emitMemLoadFP (srcReg instr) instr em
  let em := em.emit32 (0x6EE01C00#32 ||| u32 28 ||| u32 30 <<< 5 ||| u32 29 <<< 16)
  em.emit32 (op3 ARMV8A.FDIV ((fregOf instr.dst).val + 20) 28)

def hFsqrtR : InstructionGenerator := fun instr em =>
  let dst := (fregOf instr.dst).val + 20
  em.emit32 (ARMV8A.FSQRT ||| u32 dst ||| u32 dst <<< 5)

def hCbranch : InstructionGenerator := fun instr em =>
  let modCond := instr.getModCond
  let shift := modCond + 8
  let imm := (instr.imm32 ||| u32 1 <<< shift) &&& ~~~(u32 1 <<< (shift - 1))
  let em := emitAddImmediate (dstReg instr) (dstReg instr) imm em
  let em := em.emit32 ((0xF2781C1F#32 - u32 modCond <<< 16) ||| u32 (dstReg instr) <<< 5)
  let offset : Int := em.regChangedOffset (regOf instr.dst)
  -- `bne +8`, so that the unconditional branch behind it is skipped
  let em := em.emit32 (0x54000000#32 ||| u32 2 <<< 5 ||| u32 1)
  let branchOff := (offset - em.codePos) >>> (2 : Nat)
  let em := em.emit32 (0x14000000#32 ||| BitVec.ofInt 32 branchOff &&& 0x03FFFFFF)
  { em with regChangedOffset := fun _ => em.codePos }

def hCfround : InstructionGenerator := fun instr em =>
  let em := em.emit32 (rorImm 20 (srcReg instr) instr.imm32)
  -- bfi x8, x20, 40, 2; rbit x20, x8; msr fpcr, x20
  let em := em.emit32 (0xB3580400#32 ||| u32 8 ||| u32 20 <<< 5)
  let em := em.emit32 (0xDAC00000#32 ||| u32 20 ||| u32 8 <<< 5)
  em.emit32 (0xD51B4400#32 ||| u32 20)

def hIstore : InstructionGenerator := fun instr em =>
  let bytes :=
    if instr.getModCond < 14 then
      if instr.getModMem ≠ 0 then RANDOMX_SCRATCHPAD_L1 else RANDOMX_SCRATCHPAD_L2
    else RANDOMX_SCRATCHPAD_L3
  let imm := instr.imm32 &&& u32 (bytes - 1)
  let em := emitAddImmediate 20 (dstReg instr) imm em
  let em := em.emit32 (ARMV8A.AND_IMM_SHIFT ||| u32 20 ||| u32 20 <<< 5 |||
    u32 (Nat.log2 bytes - 4) <<< 10)
  em.emit32 (ARMV8A.LDR_32_REG ||| u32 (srcReg instr) ||| u32 20 <<< 16)

def hNop : InstructionGenerator := fun _ em => em

/-- `engine`, by instruction type. -/
def engine : InstructionType → InstructionGenerator
  | .iaddRs => hIaddRs
  | .iaddM => hIaddM
  | .isubR => hIsubR
  | .isubM => hIsubM
  | .imulR => hImulR
  | .imulM => hImulM
  | .imulhR => hImulhR
  | .imulhM => hImulhM
  | .ismulhR => hIsmulhR
  | .ismulhM => hIsmulhM
  | .imulRcp => hImulRcp
  | .inegR => hInegR
  | .ixorR => hIxorR
  | .ixorM => hIxorM
  | .irorR => hIrorR
  | .irolR => hIrolR
  | .iswapR => hIswapR
  | .fswapR => hFswapR
  | .faddR => hFaddR
  | .faddM => hFaddM
  | .fsubR => hFsubR
  | .fsubM => hFsubM
  | .fscalR => hFscalR
  | .fmulR => hFmulR
  | .fdivM => hFdivM
  | .fsqrtR => hFsqrtR
  | .cbranch => hCbranch
  | .cfround => hCfround
  | .istore => hIstore
  | .nop => hNop

end JitCompilerA64

/-- Emit one instruction. -/
def emitInstruction (instr : Instruction) (em : Emitter) : Emitter :=
  JitCompilerA64.engine instr.type instr em

end ArmRx.Jit
