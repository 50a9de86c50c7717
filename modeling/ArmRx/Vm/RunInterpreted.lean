import ArmRx.Jit.ScheduleWindows
import ArmRx.Lib.Traced
import ArmRx.Vm.InitializeDataset

/-!
# The interpreter's addresses

Embeds `set_dataset`, `initialize_vm_state`, `dataset_read` and `run_interpreted` of
`src/vm.cpp`, as a computation that records every address it uses. A program may loop
for ever: the fuel bounds the instructions of one pass over the bytecode, and the
addresses used before it runs out are recorded like the others.

* `executeInstruction_outside`, `executeInstruction_agree` — an instruction touches
  the eight bytes it records and no others.
* `compileProgram_spec` — masks and branch targets of compiled programs.
* `addressBounds` — every recorded address of every run.
-/

namespace ArmRx.Vm

open ArmRx.Lib
open ArmRx.Jit (compileInstruction_usage)
open ArmRx.Mining.PartialDataset (kRandomXDatasetBytes)

/-! ## Recorded addresses -/

/-- What a run records. -/
inductive Access where
  /-- eight scratchpad bytes, by an instruction -/
  | instruction (offset : Nat)
  /-- the scratchpad line at `spAddr0` or `spAddr1` -/
  | line (offset : Nat)
  /-- the argument of `dataset_read` -/
  | dataset (address : Nat)
  /-- the early return of `dataset_read` -/
  | datasetSkipped
  deriving DecidableEq, Repr

/-- The bounds. -/
def Access.InBounds : Access → Prop
  | .instruction offset => offset + 8 ≤ kRandomXScratchpadBytes
  | .line offset => offset % 64 = 0 ∧ offset + 64 ≤ kRandomXScratchpadBytes
  | .dataset address => address + 64 ≤ kRandomXDatasetBytes
  | .datasetSkipped => False

/-- The offset of the eight scratchpad bytes an instruction reads or writes. -/
def InstructionByteCode.accessOffset (ibc : InstructionByteCode) (s : VmState) : Option Nat :=
  if ibc.type = .istore then some (ibc.storeAddress s)
  else if ibc.type.isMemory then some (ibc.getScratchpadAddress s)
  else none

/-- `executeInstruction`, recording its access. -/
def executeInstructionTraced (fp : FpOps) (eMask : FloatRegister) (ibc : InstructionByteCode)
    (s : VmState) : Traced Access VmState := do
  match ibc.accessOffset s with
  | some offset => Traced.emit (.instruction offset)
  | none => pure ()
  pure (executeInstruction fp eMask ibc s)

/-- `executeBytecodeFrom`, recording accesses. -/
def executeBytecodeTraced (fp : FpOps) (eMask : FloatRegister)
    (bytecode : List InstructionByteCode) : Nat → Nat → VmState → Traced Access VmState
  | fuel, pc, s =>
    match bytecode[pc]? with
    | none => pure s
    | some ibc =>
      match fuel with
      | 0 => Traced.stuck
      | fuel + 1 => do
        let s' ← executeInstructionTraced fp eMask ibc s
        let pc' := if branchTaken ibc s' then (ibc.target + 1).toNat else pc + 1
        executeBytecodeTraced fp eMask bytecode fuel pc' s'

/-! ## The machine -/

/-- `class VirtualMachine`, as far as the interpreter reads it. -/
structure VirtualMachine where
  isFastMode : Bool
  cache : Argon2dCache
  dataset : ByteStore
  datasetSize : Nat
  datasetOffset : BitVec 64
  mx : BitVec 32
  ma : BitVec 32
  eMask : FloatRegister
  readReg0 : Fin 8
  readReg1 : Fin 8
  readReg2 : Fin 8
  readReg3 : Fin 8
  reg : VmState

/-- `set_dataset`: `none` where it returns `false`. -/
def VirtualMachine.setDataset (vm : VirtualMachine) (dataset : ByteStore) (size : Nat) :
    Option VirtualMachine :=
  if vm.isFastMode ∧ size ≠ kRandomXDatasetBytes then none
  else some { vm with dataset := dataset, datasetSize := size }

def exponentBias : BitVec 64 := 1023
def exponentMask : BitVec 64 := (1#64 <<< 11) - 1
def mantissaMask : BitVec 64 := (1#64 <<< mantissaSize) - 1

/-- `getSmallPositiveFloatBits`. -/
def getSmallPositiveFloatBits (entropy : BitVec 64) : BitVec 64 :=
  let exponent := entropy >>> 59
  let mantissa := entropy &&& mantissaMask
  (((exponent + exponentBias) &&& exponentMask) <<< mantissaSize) ||| mantissa

/-- `getStaticExponent`. -/
def getStaticExponent (entropy : BitVec 64) : BitVec 64 :=
  (0x300#64 ||| ((entropy >>> 60) <<< dynamicExponentBits)) <<< mantissaSize

/-- `getFloatMask`. -/
def getFloatMask (entropy : BitVec 64) : BitVec 64 :=
  (entropy &&& ((1#64 <<< 22) - 1)) ||| getStaticExponent entropy

/-- `first + (bits & 1)`, the number of a read register. -/
def readReg (first : Nat) (hFirst : first < 7) (bits : BitVec 64) : Fin 8 :=
  ⟨first + (bits &&& 1).toNat, by
    have hBit : (bits &&& 1).toNat ≤ 1 := by
      rw [BitVec.toNat_and]
      exact Nat.and_le_right
    omega⟩

/-- `initialize_vm_state`. -/
def initializeVmState (entropy : Fin 16 → BitVec 64) (vm : VirtualMachine) : VirtualMachine :=
  let addressRegisters := entropy 12
  { vm with
    reg := { vm.reg with
      r := fun _ => 0
      a := fun i => ⟨getSmallPositiveFloatBits (entropy ⟨2 * i, by omega⟩),
        getSmallPositiveFloatBits (entropy ⟨2 * i + 1, by omega⟩)⟩ }
    ma := (entropy 8 &&& 0x7fffffc0).setWidth 32
    mx := (entropy 10).setWidth 32
    readReg0 := readReg 0 (by decide) addressRegisters
    readReg1 := readReg 2 (by decide) (addressRegisters >>> 1)
    readReg2 := readReg 4 (by decide) (addressRegisters >>> 1 >>> 1)
    readReg3 := readReg 6 (by decide) (addressRegisters >>> 1 >>> 1 >>> 1)
    datasetOffset := (entropy 13 % 524288) * 64
    eMask := ⟨getFloatMask (entropy 14), getFloatMask (entropy 15)⟩ }

/-- `dataset_read`. In light mode an item that cannot be derived ends the run. -/
def datasetRead (vm : VirtualMachine) (address : BitVec 64) (r : Fin 8 → BitVec 64) :
    Traced Access (Fin 8 → BitVec 64) :=
  if vm.isFastMode then
    if vm.datasetSize < (address + 64).toNat then do
      Traced.emit .datasetSkipped
      pure r
    else pure fun i => r i ^^^ vm.dataset.load64 (address.toNat + 8 * i)
  else do
    let itemNumber : BitVec 32 := (address / 64).setWidth 32
    let item ← Traced.ofOption (generateDatasetItem vm.cache (itemNumber.setWidth 64))
    pure fun i => r i ^^^ item i

/-- The two doubles of the eight bytes at `addr`. -/
def loadFloatPair (m : ByteStore) (addr : Nat) : FloatRegister :=
  ⟨unsigned32ToSigned2sCompl (m.load32 addr), unsigned32ToSigned2sCompl (m.load32 (addr + 4))⟩

/-- The stores of the integer registers. -/
def storeIntegers (m : ByteStore) (addr : Nat) (r : Fin 8 → BitVec 64) : ByteStore :=
  m.storeAll (List.ofFn fun i => (addr + 8 * i.val, r i))

/-- The copies of the `f` registers. -/
def storeFloats (m : ByteStore) (addr : Nat) (f : Fin 4 → FloatRegister) : ByteStore :=
  m.storeAll ((List.ofFn fun i =>
    [(addr + 16 * i.val, (f i).lo), (addr + 16 * i.val + 8, (f i).hi)]).flatten)

/-- A pass of the loop of `run_interpreted`, on the machine, `spAddr0` and `spAddr1`. -/
def runIteration (fp : FpOps) (fuel : Nat) (bytecode : List InstructionByteCode)
    (state : VirtualMachine × BitVec 32 × BitVec 32) :
    Traced Access (VirtualMachine × BitVec 32 × BitVec 32) := do
  let (vm, spAddr0, spAddr1) := state
  let spMix := vm.reg.r vm.readReg0 ^^^ vm.reg.r vm.readReg1
  let spAddr0 := (spAddr0 ^^^ spMix.setWidth 32) &&& kScratchpadL3Mask64
  let spAddr1 := (spAddr1 ^^^ (spMix >>> 32).setWidth 32) &&& kScratchpadL3Mask64
  let m := vm.reg.scratchpad
  Traced.emit (.line spAddr0.toNat)
  Traced.emit (.line spAddr1.toNat)
  let reg ← executeBytecodeTraced fp vm.eMask bytecode fuel 0
    { vm.reg with
      r := fun i => vm.reg.r i ^^^ m.load64 (spAddr0.toNat + 8 * i)
      f := fun i => loadFloatPair m (spAddr1.toNat + 8 * i)
      e := fun i => maskFloat vm.eMask (loadFloatPair m (spAddr1.toNat + 8 * (4 + i))) }
  let readPtr := vm.datasetOffset + (vm.ma.setWidth 64 &&& 0x7fffffc0)
  let mx := vm.mx ^^^ (reg.r vm.readReg2 ^^^ reg.r vm.readReg3).setWidth 32
  Traced.emit (.dataset readPtr.toNat)
  let r ← datasetRead vm readPtr reg.r
  Traced.emit (.line spAddr1.toNat)
  let f := fun i => (⟨(reg.f i).lo ^^^ (reg.e i).lo, (reg.f i).hi ^^^ (reg.e i).hi⟩ : FloatRegister)
  Traced.emit (.line spAddr0.toNat)
  let scratchpad := storeFloats (storeIntegers reg.scratchpad spAddr1.toNat r) spAddr0.toNat f
  pure ({ vm with
    -- `std::swap(mx_, ma_)`
    mx := vm.ma
    ma := mx
    reg := { reg with r := r, f := f, scratchpad := scratchpad } }, 0, 0)

/-- `run_interpreted`. -/
def runInterpreted (fp : FpOps) (fuel : Nat) (program : Program) (vm : VirtualMachine) :
    Traced Access VirtualMachine := do
  let bytecode := compileProgram program
  let state ← Traced.repeatTimes (runIteration fp fuel bytecode) 2048 (vm, vm.mx, vm.ma)
  pure state.1

/-! ## Recorded accesses are the accesses -/

theorem executeInstructionTraced_value (fp : FpOps) (eMask : FloatRegister)
    (ibc : InstructionByteCode) (s : VmState) :
    (executeInstructionTraced fp eMask ibc s).value = some (executeInstruction fp eMask ibc s) := by
  unfold executeInstructionTraced
  cases ibc.accessOffset s <;> rfl

/-- Recording changes nothing. -/
theorem executeBytecodeTraced_value (fp : FpOps) (eMask : FloatRegister)
    (bytecode : List InstructionByteCode) (fuel pc : Nat) (s : VmState) :
    (executeBytecodeTraced fp eMask bytecode fuel pc s).value =
      executeBytecodeFrom fp eMask bytecode fuel pc s := by
  induction fuel generalizing pc s with
  | zero =>
    unfold executeBytecodeTraced executeBytecodeFrom
    cases bytecode[pc]? <;> rfl
  | succ fuel ih =>
    unfold executeBytecodeTraced executeBytecodeFrom
    cases bytecode[pc]? with
    | none => rfl
    | some ibc =>
      dsimp only
      rw [Traced.value_bind, executeInstructionTraced_value, Option.bind_some]
      exact ih _ _

/-- Bytes outside the recorded ones stay. -/
theorem executeInstruction_outside (fp : FpOps) (eMask : FloatRegister) (ibc : InstructionByteCode)
    (s : VmState) {x : Nat} (hx : ∀ o, ibc.accessOffset s = some o → x < o ∨ o + 8 ≤ x) :
    (executeInstruction fp eMask ibc s).scratchpad x = s.scratchpad x := by
  by_cases hStore : ibc.type = .istore
  · have hOffset : ibc.accessOffset s = some (ibc.storeAddress s) := if_pos hStore
    simp only [executeInstruction, hStore]
    exact ByteStore.store_of_not_lt (by have := hx _ hOffset; omega)
  · unfold executeInstruction
    cases hType : ibc.type <;>
      simp only [updateIdst, updateFdst, InstructionByteCode.writeFdst, rxSetRoundingMode,
        VmState.setR_scratchpad]
    case istore => exact absurd hType hStore
    case iswapR => cases ibc.isrc <;> rfl
    all_goals cases ibc.fdst <;> rfl

theorem updateIdst_scratchpad (op : BitVec 64 → BitVec 64 → BitVec 64) (ibc : InstructionByteCode)
    (v : BitVec 64) (s : VmState) (m : ByteStore) :
    updateIdst op ibc v { s with scratchpad := m } =
      { updateIdst op ibc v s with scratchpad := m } := rfl

theorem writeFdst_scratchpad (ibc : InstructionByteCode) (v : FloatRegister) (s : VmState)
    (m : ByteStore) :
    ibc.writeFdst { s with scratchpad := m } v = { ibc.writeFdst s v with scratchpad := m } := by
  unfold InstructionByteCode.writeFdst
  cases ibc.fdst <;> rfl

theorem readFdst_scratchpad (ibc : InstructionByteCode) (s : VmState) (m : ByteStore) :
    ibc.readFdst { s with scratchpad := m } = ibc.readFdst s := rfl

theorem readIsrc_scratchpad (ibc : InstructionByteCode) (s : VmState) (m : ByteStore) :
    ibc.readIsrc { s with scratchpad := m } = ibc.readIsrc s := rfl

theorem getScratchpadAddress_scratchpad (ibc : InstructionByteCode) (s : VmState) (m : ByteStore) :
    ibc.getScratchpadAddress { s with scratchpad := m } = ibc.getScratchpadAddress s := rfl

/-- A load sees the same eight bytes. -/
theorem loadOperand_agree {ibc : InstructionByteCode} {s : VmState} {m : ByteStore}
    (hBytes : ∀ k < 8, m (ibc.getScratchpadAddress s + k) =
      s.scratchpad (ibc.getScratchpadAddress s + k)) :
    loadOperand ibc { s with scratchpad := m } = loadOperand ibc s := by
  unfold loadOperand ByteStore.load64 ByteStore.load
  rw [getScratchpadAddress_scratchpad]
  exact leBytes_congr hBytes

theorem loadFloatOperand_agree {ibc : InstructionByteCode} {s : VmState} {m : ByteStore}
    (hBytes : ∀ k < 8, m (ibc.getScratchpadAddress s + k) =
      s.scratchpad (ibc.getScratchpadAddress s + k)) :
    loadFloatOperand ibc { s with scratchpad := m } = loadFloatOperand ibc s := by
  unfold loadFloatOperand ByteStore.load32 ByteStore.load
  rw [getScratchpadAddress_scratchpad]
  refine congrArg₂ FloatRegister.mk (congrArg _ (leBytes_congr fun k hk => ?_))
    (congrArg _ (leBytes_congr fun k hk => ?_))
  · exact hBytes k (by omega)
  · rw [Nat.add_assoc]
    exact hBytes (4 + k) (by omega)

/-- What an instruction other than a store does depends on the recorded bytes only. -/
theorem executeInstruction_agree (fp : FpOps) (eMask : FloatRegister) {ibc : InstructionByteCode}
    (hLoad : ibc.type ≠ .istore) (s : VmState) {m : ByteStore}
    (hAgree : ∀ o, ibc.accessOffset s = some o → ∀ k < 8, m (o + k) = s.scratchpad (o + k)) :
    executeInstruction fp eMask ibc { s with scratchpad := m } =
      { executeInstruction fp eMask ibc s with scratchpad := m } := by
  have hBytes (hMemory : ibc.type.isMemory) : ∀ k < 8, m (ibc.getScratchpadAddress s + k) =
      s.scratchpad (ibc.getScratchpadAddress s + k) :=
    hAgree _ (by rw [InstructionByteCode.accessOffset, if_neg hLoad, if_pos hMemory])
  cases hType : ibc.type <;> rw [hType] at hBytes <;>
    simp only [executeInstruction, hType, updateIdst_scratchpad, updateFdst, writeFdst_scratchpad,
      readFdst_scratchpad, readIsrc_scratchpad]
  case istore => exact absurd hType hLoad
  case iswapR => cases ibc.isrc <;> rfl
  case iaddM | isubM | imulM | imulhM | ismulhM | ixorM => rw [loadOperand_agree (hBytes rfl)]
  case faddM | fsubM | fdivM => rw [loadFloatOperand_agree (hBytes rfl)]
  case inegR | cfround => rfl

/-! ## Compiled programs -/

/-- What compiling guarantees of the bytecode at index `i`. -/
structure CompiledAt (i : Int) (ibc : InstructionByteCode) : Prop where
  mask : ibc.type.isMemory → ibc.memMask.toNat + 8 ≤ kRandomXScratchpadBytes
  target : ibc.type = .cbranch → -1 ≤ ibc.target ∧ ibc.target < i

theorem modMemMask_le (instr : Instruction) :
    (modMemMask instr).toNat + 8 ≤ kRandomXScratchpadBytes := by
  unfold modMemMask
  split <;> decide

theorem storeMask_le (instr : Instruction) :
    (storeMask instr).toNat + 8 ≤ kRandomXScratchpadBytes := by
  unfold storeMask
  split
  · exact modMemMask_le instr
  · decide

theorem compileMemOp_mask (instr : Instruction) (type : InstructionType) :
    (compileMemOp instr type).memMask.toNat + 8 ≤ kRandomXScratchpadBytes := by
  unfold compileMemOp
  dsimp only
  split
  · exact modMemMask_le instr
  · exact (by decide : kScratchpadL3Mask.toNat + 8 ≤ kRandomXScratchpadBytes)

/-- Each handler of a memory instruction sets one of the three masks. -/
theorem bytecodeOf_mask (instr : Instruction) (hMemory : (bytecodeOf instr).type.isMemory) :
    (bytecodeOf instr).memMask.toNat + 8 ≤ kRandomXScratchpadBytes := by
  cases hType : instr.type <;> rw [bytecodeOf_of_type hType] at hMemory ⊢
  case iaddM | isubM | imulM | imulhM | ismulhM | ixorM => exact compileMemOp_mask instr _
  case faddM | fsubM | fdivM => exact modMemMask_le instr
  case istore => exact storeMask_le instr
  case isubR | imulR | ixorR | irorR | irolR =>
    simp only [kCompileHandlers, hIsubR, hImulR, hIxorR, hIrorR, hIrolR, hAluReg,
      compileAluReg] at hMemory
    split at hMemory <;> exact absurd hMemory Bool.false_ne_true
  case imulRcp | iswapR =>
    simp only [kCompileHandlers, hImulRcp, hIswapR] at hMemory
    split at hMemory <;> exact absurd hMemory Bool.false_ne_true
  all_goals exact absurd hMemory (by simp [kCompileHandlers, hIaddRs, hImulhR, hIsmulhR, hMulhReg,
    hInegR, hFswapR, hFaddR, hFsubR, hFscalR, hFmulR, hFsqrtR, hCbranch, hCfround, hNop,
    InstructionType.isMemory])

/-- One instruction, compiled when every register was last used before it. -/
theorem compileInstruction_spec (instr : Instruction) {i : Int} (hi : 0 ≤ i)
    {usage : RegisterUsage} (hUsage : ∀ r, -1 ≤ usage r ∧ usage r < i) :
    CompiledAt i (compileInstruction instr i usage).1 ∧
      ∀ r, -1 ≤ (compileInstruction instr i usage).2 r ∧
        (compileInstruction instr i usage).2 r < i + 1 := by
  refine ⟨⟨fun hMemory => ?_, fun hBranch => ?_⟩, fun r => ?_⟩
  · rw [compileInstruction_fst] at hMemory ⊢
    exact bytecodeOf_mask instr hMemory
  · have hType : instr.type = .cbranch := by
      by_contra hNot
      rw [compileInstruction_fst] at hBranch
      exact bytecodeOf_type_ne_cbranch hNot hBranch
    -- the target is read before the handler marks all registers
    have hTarget : (compileInstruction instr i usage).1.target = usage (regOf instr.dst) := by
      rw [compileInstruction, hType]
      rfl
    rw [hTarget]
    exact hUsage _
  · rw [compileInstruction_usage]
    have := hUsage r
    split <;> omega

theorem compileFrom_spec {instructions : List Instruction} {i : Int} (hi : 0 ≤ i)
    {usage : RegisterUsage} (hUsage : ∀ r, -1 ≤ usage r ∧ usage r < i) {k : Nat}
    {ibc : InstructionByteCode} (hAt : (compileFrom instructions i usage)[k]? = some ibc) :
    CompiledAt (i + k) ibc := by
  induction instructions generalizing i usage k with
  | nil => exact nomatch hAt
  | cons instr rest ih =>
    obtain ⟨hHead, hUsage'⟩ := compileInstruction_spec instr hi hUsage
    cases k with
    | zero =>
      obtain rfl := Option.some.inj hAt
      rw [Nat.cast_zero, add_zero]
      exact hHead
    | succ k =>
      have hRest := ih (by omega : 0 ≤ i + 1) hUsage' hAt
      rwa [Nat.cast_succ, ← add_assoc, add_right_comm]

/-- **Compiled programs.** Memory instructions have a scratchpad mask, and a branch
goes back to before itself. -/
theorem compileProgram_spec (program : Program) {i : Nat} {ibc : InstructionByteCode}
    (hAt : (compileProgram program)[i]? = some ibc) : CompiledAt i ibc := by
  have hUsage : ∀ r : Fin 8, (-1 : Int) ≤ (fun _ : Fin 8 => (-1 : Int)) r ∧
      (fun _ : Fin 8 => (-1 : Int)) r < 0 := fun _ => ⟨le_refl _, neg_one_lt_zero⟩
  have hCompiled := compileFrom_spec (le_refl 0) hUsage hAt
  rwa [zero_add] at hCompiled

theorem length_compileFrom (instructions : List Instruction) (i : Int) (usage : RegisterUsage) :
    (compileFrom instructions i usage).length = instructions.length := by
  induction instructions generalizing i usage with
  | nil => rfl
  | cons instr rest ih => exact congrArg (· + 1) (ih _ _)

theorem length_compileProgram (program : Program) : (compileProgram program).length = 256 :=
  (length_compileFrom _ _ _).trans program.getSize

/-! ## Safety of a run -/

/-- An offset under a mask is at most the mask. -/
theorem accessOffset_le {ibc : InstructionByteCode} {s : VmState} {o : Nat}
    (hAccess : ibc.accessOffset s = some o) : o ≤ ibc.memMask.toNat ∧ ibc.type.isMemory := by
  unfold InstructionByteCode.accessOffset at hAccess
  split at hAccess
  · rename_i hStore
    obtain rfl := Option.some.inj hAccess
    refine ⟨?_, by rw [hStore]; rfl⟩
    rw [InstructionByteCode.storeAddress, BitVec.toNat_and, BitVec.toNat_setWidth]
    exact Nat.and_le_right.trans (Nat.mod_le _ _)
  · split at hAccess
    · rename_i hMemory
      obtain rfl := Option.some.inj hAccess
      refine ⟨?_, hMemory⟩
      rw [InstructionByteCode.getScratchpadAddress, BitVec.toNat_and]
      exact Nat.and_le_right
    · exact nomatch hAccess

theorem safe_executeInstruction {i : Int} {ibc : InstructionByteCode} (hCompiled : CompiledAt i ibc)
    (fp : FpOps) (eMask : FloatRegister) (s : VmState) :
    Traced.Safe Access.InBounds (fun _ => True) (executeInstructionTraced fp eMask ibc s) := by
  unfold executeInstructionTraced
  cases hAccess : ibc.accessOffset s with
  | none => exact Traced.safe_pure trivial
  | some o =>
    obtain ⟨hLe, hMemory⟩ := accessOffset_le hAccess
    have hIn : Access.InBounds (.instruction o) :=
      (Nat.add_le_add_right hLe 8).trans (hCompiled.mask hMemory)
    exact (Traced.safe_emit hIn).bind fun _ _ => Traced.safe_pure trivial

/-- A pass over the bytecode, however often it branches back. -/
theorem safe_executeBytecode (program : Program) (fp : FpOps) (eMask : FloatRegister)
    (fuel pc : Nat) (s : VmState) :
    Traced.Safe Access.InBounds (fun _ => True)
      (executeBytecodeTraced fp eMask (compileProgram program) fuel pc s) := by
  induction fuel generalizing pc s with
  | zero =>
    unfold executeBytecodeTraced
    cases (compileProgram program)[pc]? with
    | none => exact Traced.safe_pure trivial
    | some ibc => exact Traced.safe_stuck
  | succ fuel ih =>
    unfold executeBytecodeTraced
    cases hAt : (compileProgram program)[pc]? with
    | none => exact Traced.safe_pure trivial
    | some ibc =>
      exact (safe_executeInstruction (compileProgram_spec program hAt) fp eMask s).bind
        fun s' _ => ih _ s'

/-- The low six bits of `kScratchpadL3Mask64` are zero, and it is the last line. -/
theorem line_inBounds (addr : BitVec 32) :
    Access.InBounds (.line (addr &&& kScratchpadL3Mask64).toNat) := by
  rw [BitVec.toNat_and]
  constructor
  · have hLow : kScratchpadL3Mask64.toNat &&& 63 = 0 := by decide
    rw [show 64 = 2 ^ 6 from rfl, ← Nat.and_two_pow_sub_one_eq_mod, Nat.and_assoc, hLow,
      Nat.and_zero]
  · have hLe : addr.toNat &&& kScratchpadL3Mask64.toNat ≤ kScratchpadL3Mask64.toNat :=
      Nat.and_le_right
    have hLast : kScratchpadL3Mask64.toNat + 64 ≤ kRandomXScratchpadBytes := by decide
    omega

/-- What the passes of the loop keep: the dataset there is, and the bound on the
dataset offset. -/
structure Bounded (vm : VirtualMachine) : Prop where
  offset : vm.datasetOffset.toNat ≤ 524287 * 64
  size : vm.isFastMode → vm.datasetSize = kRandomXDatasetBytes

/-- `2^31 - 64 + 524287 * 64 + 64` is still inside the dataset. -/
theorem readPtr_inBounds {vm : VirtualMachine} (hVm : Bounded vm) :
    Access.InBounds (.dataset (vm.datasetOffset + (vm.ma.setWidth 64 &&& 0x7fffffc0)).toNat) := by
  have hMa : (vm.ma.setWidth 64 &&& 0x7fffffc0#64).toNat ≤ 0x7fffffc0 := by
    rw [BitVec.toNat_and]
    exact Nat.and_le_right
  have hOffset := hVm.offset
  have hSum := BitVec.toNat_add vm.datasetOffset (vm.ma.setWidth 64 &&& 0x7fffffc0#64)
  have hSize : kRandomXDatasetBytes = 2181038080 := rfl
  rw [Access.InBounds, BitVec.ofNat_eq_ofNat, hSum, Nat.mod_eq_of_lt (by omega)]
  omega

theorem safe_datasetRead {vm : VirtualMachine} (hVm : Bounded vm) {address : BitVec 64}
    (hAddress : address.toNat + 64 ≤ kRandomXDatasetBytes) (r : Fin 8 → BitVec 64) :
    Traced.Safe Access.InBounds (fun _ => True) (datasetRead vm address r) := by
  unfold datasetRead
  split
  · rename_i hFast
    have hNotSkipped : ¬ vm.datasetSize < (address + 64).toNat := by
      have hSum := BitVec.toNat_add address 64#64
      have hSize : kRandomXDatasetBytes = 2181038080 := rfl
      rw [hVm.size hFast, BitVec.ofNat_eq_ofNat, hSum, BitVec.toNat_ofNat]
      omega
    rw [if_neg hNotSkipped]
    exact Traced.safe_pure trivial
  · exact (Traced.safe_ofOption fun _ _ => trivial).bind fun _ (_ : True) => Traced.safe_pure trivial

/-- One pass of the loop. -/
theorem safe_runIteration (program : Program) (fp : FpOps) (fuel : Nat)
    {state : VirtualMachine × BitVec 32 × BitVec 32} (hVm : Bounded state.1) :
    Traced.Safe Access.InBounds (fun state' => Bounded state'.1)
      (runIteration fp fuel (compileProgram program) state) := by
  obtain ⟨vm, spAddr0, spAddr1⟩ := state
  unfold runIteration
  refine (Traced.safe_emit (line_inBounds _)).bind fun _ _ => ?_
  refine (Traced.safe_emit (line_inBounds _)).bind fun _ _ => ?_
  refine (safe_executeBytecode program fp _ fuel 0 _).bind fun reg _ => ?_
  refine (Traced.safe_emit (readPtr_inBounds hVm)).bind fun _ _ => ?_
  refine (safe_datasetRead hVm (readPtr_inBounds hVm) _).bind fun r _ => ?_
  refine (Traced.safe_emit (line_inBounds _)).bind fun _ _ => ?_
  refine (Traced.safe_emit (line_inBounds _)).bind fun _ _ => ?_
  exact Traced.safe_pure ⟨hVm.offset, hVm.size⟩

theorem datasetOffset_le (entropy : BitVec 64) :
    ((entropy % 524288) * 64 : BitVec 64).toNat ≤ 524287 * 64 := by
  rw [BitVec.toNat_mul, BitVec.toNat_umod]
  have hMod : entropy.toNat % (524288 : BitVec 64).toNat < 524288 := Nat.mod_lt _ (by decide)
  exact (Nat.mod_le _ _).trans (Nat.mul_le_mul_right 64 (Nat.le_pred_of_lt hMod))

/-- **Address bounds.** A machine whose `set_dataset` succeeded, started on any entropy
and any program, uses only addresses within bounds, in every run and however long the
run is; and the target of every branch is before it. -/
theorem addressBounds (fp : FpOps) {vm vm' : VirtualMachine} {dataset : ByteStore} {size : Nat}
    (hSet : vm.setDataset dataset size = some vm') (entropy : Fin 16 → BitVec 64)
    (program : Program) (fuel : Nat) :
    (∀ access ∈ (runInterpreted fp fuel program (initializeVmState entropy vm')).trace,
      access.InBounds) ∧
    ∀ (i : Nat) (ibc : InstructionByteCode), (compileProgram program)[i]? = some ibc →
      ibc.type = .cbranch → -1 ≤ ibc.target ∧ ibc.target ≤ 255 ∧ ibc.target < i := by
  constructor
  · have hBounded : Bounded (initializeVmState entropy vm') := by
      refine ⟨datasetOffset_le (entropy 13), fun hFast => ?_⟩
      unfold VirtualMachine.setDataset at hSet
      split at hSet
      · exact nomatch hSet
      · rename_i hAccepted
        obtain rfl := Option.some.inj hSet
        by_contra hSize
        exact hAccepted ⟨hFast, hSize⟩
    have hPasses := Traced.safe_repeat (fun state hVm => safe_runIteration program fp fuel hVm) 2048
      (a := (_, (initializeVmState entropy vm').mx, (initializeVmState entropy vm').ma)) hBounded
    have hRun : Traced.Safe Access.InBounds (fun _ => True)
        (runInterpreted fp fuel program (initializeVmState entropy vm')) :=
      hPasses.bind fun state _ => Traced.safe_pure trivial
    exact hRun.trace
  · intro i ibc hAt hBranch
    have hTarget := (compileProgram_spec program hAt).target hBranch
    have hi : i < 256 := by
      rw [← length_compileProgram program]
      exact (List.getElem?_eq_some_iff.mp hAt).1
    omega

/-- A machine before its first run. -/
def freshMachine (isFastMode : Bool) : VirtualMachine where
  isFastMode
  cache := Argon2dCache.initialized (fun _ => 0) 1 fun _ => sampleProgram
  dataset := fun _ => 0
  datasetSize := 0
  datasetOffset := 0
  mx := 0
  ma := 0
  eMask := ⟨0, 0⟩
  readReg0 := 0
  readReg1 := 0
  readReg2 := 0
  readReg3 := 0
  reg := ⟨fun _ => 0, fun _ => ⟨0, 0⟩, fun _ => ⟨0, 0⟩, fun _ => ⟨0, 0⟩, fun _ => 0, 0, []⟩

/-- A program that branches at every instruction. -/
def branchProgram : Program :=
  ⟨List.replicate 256 ⟨214, 3, 0, 0, 0⟩, List.length_replicate⟩

/-- A machine in fast mode with a dataset of the right size, on all-ones entropy. -/
theorem addressBounds_fast :
    (freshMachine true).setDataset (fun _ => 0) kRandomXDatasetBytes =
        some { freshMachine true with datasetSize := kRandomXDatasetBytes } ∧
      ∀ access ∈ (runInterpreted leftOps 1000 branchProgram (initializeVmState (fun _ => -1)
          { freshMachine true with datasetSize := kRandomXDatasetBytes })).trace,
        access.InBounds := by
  have hSet : (freshMachine true).setDataset (fun _ => 0) kRandomXDatasetBytes =
      some { freshMachine true with datasetSize := kRandomXDatasetBytes } :=
    if_neg fun h => h.2 rfl
  exact ⟨hSet, (addressBounds leftOps hSet (fun _ => -1) branchProgram 1000).1⟩

end ArmRx.Vm
