import ArmRx.Lib.Replay
import ArmRx.Jit.Footprint

/-!
# The main-program scheduler

Embeds `JitCompilerA64::scheduleProgram` and the emission loop of
`emitPrologueMix` at the level of whole instructions: which instruction is
emitted at which position, and where a taken `CBRANCH` resumes.

`scheduleProgram` looks at windows `P Q R` and `P Q R1 R2` that start with a
long-latency `P`, and emits them as `P R Q` and `P R2 Q R1`. The last
instruction of a `CBRANCH` domain whose *footprint* writes the branch register
is an anchor and stays in place. `reg_changed_offset`, where the branch
resumes, is maintained by the handlers, which skip instructions that turn out
to do nothing.
-/

namespace ArmRx.Jit

open ArmRx.Lib ArmRx.Vm

/-- `program(i)` after the normalisation pass. -/
def instrAt (program : List Instruction) (i : Nat) : Instruction :=
  normalize (program.getD i default)

/-- `fp[i]`. -/
def fpAt (program : List Instruction) (i : Nat) : InstrFootprint :=
  footprintOf (program.getD i default)

/-! ## Anchors -/

/-- The search loop for one `CBRANCH`, from index `j` downwards. -/
def findAnchor (program : List Instruction) (creg : BitVec 8) (domainStart : Nat) :
    Nat → Option Nat
  | 0 => none
  | j + 1 =>
    if j < domainStart then none
    else if (fpAt program j).intWrite &&& bit creg != 0 then some j
    else findAnchor program creg domainStart j

/-- `domain_start` and the anchors marked after the first `i` instructions. -/
def anchorScan (program : List Instruction) : Nat → Nat × List Nat
  | 0 => (0, [])
  | i + 1 =>
    let (domainStart, anchors) := anchorScan program i
    if (fpAt program i).isCbranch then
      (i + 1, (findAnchor program (instrAt program i).dst domainStart i).toList ++ anchors)
    else (domainStart, anchors)

/-- The indices with `is_anchor` set. -/
def anchorsOf (program : List Instruction) : List Nat := (anchorScan program program.length).2

/-! ## The greedy scan -/

def srcEqDst (program : List Instruction) (i : Nat) : Bool :=
  (instrAt program i).src == (instrAt program i).dst

/-- The test for `P, Q, R` at `i`, `i + 1`, `i + 2`. -/
def swapsThird (program : List Instruction) (anchors : List Nat) (i : Nat) : Bool :=
  (fpAt program i).isLongLatency && decide (i + 2 < program.length) &&
  !(fpAt program (i + 1)).isBarrier && !(fpAt program (i + 2)).isBarrier &&
  !anchors.contains (i + 1) && !anchors.contains (i + 2) &&
  !srcEqDst program (i + 1) && !srcEqDst program (i + 2) &&
  hasHazard (fpAt program i) (fpAt program (i + 1)) &&
  !hasHazard (fpAt program i) (fpAt program (i + 2)) &&
  !hasHazard (fpAt program (i + 1)) (fpAt program (i + 2))

/-- The fallback test for `P, Q, R1, R2` at `i` to `i + 3`. -/
def swapsFourth (program : List Instruction) (anchors : List Nat) (i : Nat) : Bool :=
  (fpAt program i).isLongLatency && decide (i + 3 < program.length) &&
  !(fpAt program (i + 1)).isBarrier && !(fpAt program (i + 2)).isBarrier &&
  !(fpAt program (i + 3)).isBarrier &&
  !anchors.contains (i + 1) && !anchors.contains (i + 2) && !anchors.contains (i + 3) &&
  !srcEqDst program (i + 1) && !srcEqDst program (i + 2) && !srcEqDst program (i + 3) &&
  hasHazard (fpAt program i) (fpAt program (i + 1)) &&
  !hasHazard (fpAt program i) (fpAt program (i + 3)) &&
  !hasHazard (fpAt program (i + 1)) (fpAt program (i + 3)) &&
  !hasHazard (fpAt program (i + 2)) (fpAt program (i + 3))

/-- What the scan does at index `i` with `g_swap_budget` at `budget`. -/
inductive ScanStep where
  | keep
  | third
  | fourth
  deriving DecidableEq, Repr

def scanStep (program : List Instruction) (anchors : List Nat) (i : Nat) (budget : Int) :
    ScanStep :=
  if (fpAt program i).isBarrier then .keep
  else if swapsThird program anchors i && budget != 0 then .third
  else if swapsFourth program anchors i && budget != 0 then .fourth
  else .keep

/-- `if (g_swap_budget.load() > 0) g_swap_budget.fetch_sub(1)`. -/
def spendSwap (budget : Int) : Int := if 0 < budget then budget - 1 else budget

/-- The `while (i < size)` loop. Every round advances `i`, so `program.length`
rounds are enough. -/
def scheduleLoop (program : List Instruction) (anchors : List Nat) :
    Nat → Nat → Int → List Nat
  | 0, _, _ => []
  | n + 1, i, budget =>
    if program.length ≤ i then []
    else
      match scanStep program anchors i budget with
      | .keep => i :: scheduleLoop program anchors n (i + 1) budget
      | .third =>
        i :: (i + 2) :: (i + 1) :: scheduleLoop program anchors n (i + 3) (spendSwap budget)
      | .fourth =>
        i :: (i + 3) :: (i + 1) :: (i + 2) ::
          scheduleLoop program anchors n (i + 4) (spendSwap budget)

/-- `scheduleProgram`. `budget` is what `ARMRX_MAX_SWAPS` sets; unset is `-1`,
no limit. -/
def scheduleProgram (program : List Instruction) (budget : Int) : List Nat :=
  scheduleLoop program (anchorsOf program) program.length 0 budget

/-! ## Emission -/

/-- `reg_changed_offset`, as the number of instructions emitted so far. -/
abbrev RegChanged : Type := Fin 8 → Nat

/-- What an instruction's handler does to `reg_changed_offset`; `pos` is the
position right behind the instruction. -/
def regChangedBy (instr : Instruction) (pos : Nat) (changed : RegChanged) : RegChanged :=
  match instr.type with
  | .iaddRs | .iaddM | .isubR | .isubM | .imulR | .imulM | .imulhR | .imulhM | .ismulhR
  | .ismulhM | .inegR | .ixorR | .ixorM | .irorR | .irolR =>
    Function.update changed (regOf instr.dst) pos
  | .imulRcp =>
    if instr.imm32 &&& (instr.imm32 - 1) == 0 then changed
    else Function.update changed (regOf instr.dst) pos
  | .iswapR =>
    if regOf instr.src = regOf instr.dst then changed
    else Function.update (Function.update changed (regOf instr.src) pos) (regOf instr.dst) pos
  | .cbranch => fun _ => pos
  | .fswapR | .faddR | .faddM | .fsubR | .fsubM | .fscalR | .fmulR | .fdivM | .fsqrtR
  | .cfround | .istore | .nop => changed

/-- The instructions in emission order from position `pos` on. Each has the
effect and the branch test of its bytecode; a `CBRANCH` jumps to what
`reg_changed_offset` says when it is emitted. -/
def emitFrom (ops : FpOps) (eMask : FloatRegister) (program : List Instruction) :
    List Nat → Nat → RegChanged → List (Cell VmState)
  | [], _, _ => []
  | idx :: rest, pos, changed =>
    let instr := instrAt program idx
    { effect := executeInstruction ops eMask (bytecodeOf instr)
      jumps := branchTaken (bytecodeOf instr)
      target := changed (regOf instr.dst) } ::
    emitFrom ops eMask program rest (pos + 1) (regChangedBy instr (pos + 1) changed)

/-- Execute a program in the order the JIT emits it. -/
def executeEmitted (ops : FpOps) (eMask : FloatRegister) (program : Program) (budget : Int)
    (fuel : Nat) (s : VmState) : Option VmState :=
  let order := scheduleProgram program.programBuffer budget
  runCells (emitFrom ops eMask program.programBuffer order 0 fun _ => 0) fuel 0 s

end ArmRx.Jit
