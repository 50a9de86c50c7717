import ArmRx.Jit.Schedule

/-!
# The schedule as a windowed reordering

Puts the interpreter's program and the emitted one side by side as lists of
cells. Both engines record a register update for the same instructions
(`reallyUpdates`), and from every index the scan reaches, the rest of the
emission order is the rest of the program with windows of commuting
instructions permuted (`windowed_scheduleLoop`).
-/

namespace ArmRx.Jit

open ArmRx.Lib ArmRx.Vm

/-! ## Which registers an instruction really updates -/

/-- The registers whose `register_usage_` (interpreter) and
`reg_changed_offset` (JIT) an instruction sets. -/
def reallyUpdates (instr : Instruction) (r : Fin 8) : Bool :=
  match instr.type with
  | .iaddRs | .iaddM | .isubR | .isubM | .imulR | .imulM | .imulhR | .imulhM | .ismulhR
  | .ismulhM | .inegR | .ixorR | .ixorM | .irorR | .irolR => r = regOf instr.dst
  | .imulRcp => !isZeroOrPowerOf2 (instr.imm32.setWidth 64) && r = regOf instr.dst
  | .iswapR => regOf instr.src ≠ regOf instr.dst && (r = regOf instr.dst || r = regOf instr.src)
  | .cbranch => true
  | .fswapR | .faddR | .faddM | .fsubR | .fsubM | .fscalR | .fmulR | .fdivM | .fsqrtR
  | .cfround | .istore | .nop => false

/-- The interpreter's handlers set `register_usage_` exactly there. -/
theorem compileInstruction_usage (instr : Instruction) (i : Int) (usage : RegisterUsage)
    (r : Fin 8) :
    (compileInstruction instr i usage).2 r = if reallyUpdates instr r then i else usage r := by
  unfold compileInstruction reallyUpdates
  cases instr.type with
  | imulRcp =>
    simp only [kCompileHandlers, hImulRcp]
    cases isZeroOrPowerOf2 (instr.imm32.setWidth 64) <;> simp [Function.update_apply]
  | iswapR =>
    simp only [kCompileHandlers, hIswapR]
    by_cases h : regOf instr.src = regOf instr.dst
    · simp [h]
    · simp only [ne_eq, h, not_false_eq_true, if_true, Function.update_apply, decide_true,
        Bool.true_and, Bool.or_eq_true, decide_eq_true_eq]
      by_cases h1 : r = regOf instr.src <;> by_cases h2 : r = regOf instr.dst <;> simp [h1, h2]
  | _ => simp [kCompileHandlers, hIaddRs, hIaddM, hIsubR, hIsubM, hImulR, hImulM, hImulhR,
      hImulhM, hIsmulhR, hIsmulhM, hInegR, hIxorR, hIxorM, hIrorR, hIrolR, hFswapR, hFaddR,
      hFaddM, hFsubR, hFsubM, hFscalR, hFmulR, hFdivM, hFsqrtR, hCbranch, hCfround, hIstore,
      hNop, hMemOp, hAluReg, hMulhReg, hFloatMem, Function.update_apply]

section Normalize

variable (instr : Instruction)

@[simp] theorem normalize_type : (normalize instr).type = instr.type := rfl
@[simp] theorem normalize_imm32 : (normalize instr).imm32 = instr.imm32 := rfl
@[simp] theorem normalize_getModShift : (normalize instr).getModShift = instr.getModShift := rfl
@[simp] theorem normalize_getModCond : (normalize instr).getModCond = instr.getModCond := rfl
@[simp] theorem normalize_modMemMask : modMemMask (normalize instr) = modMemMask instr := rfl
@[simp] theorem normalize_storeMask : storeMask (normalize instr) = storeMask instr := rfl

@[simp] theorem regOf_normalize_dst : regOf (normalize instr).dst = regOf instr.dst := by
  simp [regOf, normalize]

@[simp] theorem regOf_normalize_src : regOf (normalize instr).src = regOf instr.src := by
  simp [regOf, normalize]

@[simp] theorem fregOf_normalize_dst : fregOf (normalize instr).dst = fregOf instr.dst := by
  simp [fregOf, normalize]

@[simp] theorem fregOf_normalize_src : fregOf (normalize instr).src = fregOf instr.src := by
  simp [fregOf, normalize]

end Normalize

theorem regChangedBy_apply (instr : Instruction) (pos : Nat) (changed : RegChanged) (r : Fin 8) :
    regChangedBy instr pos changed r = if reallyUpdates instr r then pos else changed r := by
  unfold regChangedBy reallyUpdates
  cases instr.type with
  | imulRcp =>
    simp only [isZeroOrPowerOf2_setWidth]
    cases (instr.imm32 &&& (instr.imm32 - 1) == 0) <;> simp [Function.update_apply]
  | iswapR =>
    by_cases h : regOf instr.src = regOf instr.dst
    · simp [h]
    · simp only [ne_eq, h, not_false_eq_true, if_false, Function.update_apply, decide_true,
        Bool.true_and, Bool.or_eq_true, decide_eq_true_eq]
      by_cases h1 : r = regOf instr.src <;> by_cases h2 : r = regOf instr.dst <;> simp [h1, h2]
  | _ => simp [Function.update_apply]

theorem reallyUpdates_normalize (instr : Instruction) (r : Fin 8) :
    reallyUpdates (normalize instr) r = reallyUpdates instr r := by
  simp only [reallyUpdates, normalize_type, normalize_imm32, regOf_normalize_dst,
    regOf_normalize_src]

theorem compileMemOp_normalize (instr : Instruction) (type : InstructionType) :
    compileMemOp (normalize instr) type = compileMemOp instr type := by
  simp only [compileMemOp, normalize_imm32, regOf_normalize_dst, regOf_normalize_src,
    normalize_modMemMask]

theorem compileAluReg_normalize (instr : Instruction) (type : InstructionType) (imm : BitVec 64) :
    compileAluReg (normalize instr) type imm = compileAluReg instr type imm := by
  simp only [compileAluReg, regOf_normalize_dst, regOf_normalize_src]

theorem bytecodeOf_normalize (instr : Instruction) :
    bytecodeOf (normalize instr) = bytecodeOf instr := by
  unfold bytecodeOf compileInstruction
  rw [normalize_type]
  cases instr.type <;>
    simp only [kCompileHandlers, hIaddRs, hIaddM, hIsubR, hIsubM, hImulR, hImulM, hImulhR,
      hImulhM, hIsmulhR, hIsmulhM, hInegR, hIxorR, hIxorM, hIrorR, hIrolR, hFswapR, hFaddR,
      hFaddM, hFsubR, hFsubM, hFscalR, hFmulR, hFdivM, hFsqrtR, hCbranch, hCfround, hIstore,
      hNop, hMemOp, hAluReg, hMulhReg, hFloatMem, hImulRcp, hIswapR, compileMemOp_normalize,
      compileAluReg_normalize, normalize_imm32, normalize_modMemMask, normalize_getModShift,
      normalize_getModCond, normalize_storeMask, regOf_normalize_dst, regOf_normalize_src, fregOf_normalize_dst,
      fregOf_normalize_src]

/-! ## The two programs as cells -/

/-- A compiled instruction as a cell: `pc = ibc.target`, then `++pc`. -/
def cellOf (ops : FpOps) (eMask : FloatRegister) (ibc : InstructionByteCode) : Cell VmState :=
  { effect := executeInstruction ops eMask ibc
    jumps := branchTaken ibc
    target := (ibc.target + 1).toNat }

theorem executeBytecodeFrom_eq_runCells (ops : FpOps) (eMask : FloatRegister)
    (bytecode : List InstructionByteCode) (fuel pc : Nat) (s : VmState) :
    executeBytecodeFrom ops eMask bytecode fuel pc s =
      runCells (bytecode.map (cellOf ops eMask)) fuel pc s := by
  induction fuel generalizing pc s with
  | zero =>
    unfold executeBytecodeFrom runCells
    rw [List.getElem?_map]
    cases bytecode[pc]? <;> rfl
  | succ n ih =>
    unfold executeBytecodeFrom runCells
    rw [List.getElem?_map]
    cases bytecode[pc]? with
    | none => rfl
    | some ibc => exact ih _ _

/-- The source cells from index `i` on. -/
def sourceFrom (ops : FpOps) (eMask : FloatRegister) (rest : List Instruction) (i : Int)
    (usage : RegisterUsage) : List (Cell VmState) :=
  (compileFrom rest i usage).map (cellOf ops eMask)

theorem sourceFrom_cons (ops : FpOps) (eMask : FloatRegister) (instr : Instruction)
    (rest : List Instruction) (i : Int) (usage : RegisterUsage) :
    sourceFrom ops eMask (instr :: rest) i usage =
      cellOf ops eMask (compileInstruction instr i usage).1 ::
        sourceFrom ops eMask rest (i + 1) (compileInstruction instr i usage).2 := rfl

theorem sourceFrom_length (ops : FpOps) (eMask : FloatRegister) (rest : List Instruction) (i : Int)
    (usage : RegisterUsage) : (sourceFrom ops eMask rest i usage).length = rest.length := by
  induction rest generalizing i usage with
  | nil => rfl
  | cons instr rest ih => rw [sourceFrom_cons, List.length_cons, List.length_cons, ih]

/-- `register_usage_` after the first `k` instructions. -/
def usageAt (program : List Instruction) : Nat → RegisterUsage
  | 0 => fun _ => -1
  | k + 1 => (compileInstruction (program.getD k default) k (usageAt program k)).2

/-- `reg_changed_offset` after the first `k` emitted instructions. -/
def changedAt (program : List Instruction) (order : List Nat) : Nat → RegChanged
  | 0 => fun _ => 0
  | k + 1 =>
    regChangedBy (instrAt program (order.getD k 0)) (k + 1) (changedAt program order k)

theorem drop_eq_getD_cons {α : Type} {l : List α} {k : Nat} (h : k < l.length) (d : α) :
    l.drop k = l.getD k d :: l.drop (k + 1) := by
  rw [List.drop_eq_getElem_cons h, List.getD_eq_getElem?_getD, List.getElem?_eq_getElem h]
  rfl

theorem sourceFrom_drop (ops : FpOps) (eMask : FloatRegister) (program : List Instruction)
    {k : Nat} (hk : k ≤ program.length) :
    (sourceFrom ops eMask program 0 fun _ => -1).drop k =
      sourceFrom ops eMask (program.drop k) k (usageAt program k) := by
  induction k with
  | zero => rfl
  | succ k ih =>
    rw [← List.tail_drop, ih (by omega), drop_eq_getD_cons (by omega) default, sourceFrom_cons]
    rfl

theorem emitFrom_drop (ops : FpOps) (eMask : FloatRegister) (program : List Instruction)
    (order : List Nat) (k : Nat) :
    (emitFrom ops eMask program order 0 fun _ => 0).drop k =
      emitFrom ops eMask program (order.drop k) k (changedAt program order k) := by
  induction k with
  | zero => rfl
  | succ k ih =>
    rw [← List.tail_drop, ih]
    by_cases hk : k < order.length
    · rw [drop_eq_getD_cons hk 0]
      rfl
    · rw [List.drop_eq_nil_of_le (by omega), List.drop_eq_nil_of_le (by omega)]
      rfl

/-! ## The schedule permutes windows of commuting instructions -/

section Windows

variable {ops : FpOps} {eMask : FloatRegister} {program : List Instruction}

/-- The emitted cell at index `i`, whatever it jumps to. -/
def emittedCell (ops : FpOps) (eMask : FloatRegister) (program : List Instruction) (i : Nat)
    (target : Nat) : Cell VmState :=
  { effect := executeInstruction ops eMask (bytecodeOf (instrAt program i))
    jumps := branchTaken (bytecodeOf (instrAt program i))
    target }

theorem emitFrom_cons (idx : Nat) (rest : List Nat) (pos : Nat) (changed : RegChanged) :
    emitFrom ops eMask program (idx :: rest) pos changed =
      emittedCell ops eMask program idx (changed (regOf (instrAt program idx).dst)) ::
        emitFrom ops eMask program rest (pos + 1)
          (regChangedBy (instrAt program idx) (pos + 1) changed) := rfl

@[simp] theorem cellOf_compile_effect (instr : Instruction) (j : Int) (usage : RegisterUsage) :
    (cellOf ops eMask (compileInstruction instr j usage).1).effect =
      executeInstruction ops eMask (bytecodeOf instr) := by
  rw [compileInstruction_fst]
  rfl

@[simp] theorem cellOf_compile_jumps (instr : Instruction) (j : Int) (usage : RegisterUsage) :
    (cellOf ops eMask (compileInstruction instr j usage).1).jumps =
      branchTaken (bytecodeOf instr) := by
  rw [compileInstruction_fst]
  rfl

/-- Source and emitted cell of one instruction do the same. -/
theorem sameAction_emittedCell (i : Nat) (j : Int) (usage : RegisterUsage) (target : Nat) :
    (cellOf ops eMask (compileInstruction (program.getD i default) j usage).1).SameAction
      (emittedCell ops eMask program i target) := by
  unfold Cell.SameAction emittedCell instrAt
  rw [bytecodeOf_normalize, cellOf_compile_effect, cellOf_compile_jumps]
  exact ⟨rfl, rfl⟩

/-- Only a `CBRANCH` jumps. -/
theorem straight_of_not_barrier {i : Nat} (h : (fpAt program i).isBarrier = false) (j : Int)
    (usage : RegisterUsage) :
    (cellOf ops eMask (compileInstruction (program.getD i default) j usage).1).Straight := by
  intro s
  have hType := (footprintOf_grants h).notBarrier.1
  rw [cellOf_compile_jumps, branchTaken, beq_eq_false_iff_ne.mpr hType, Bool.false_and]

theorem commutes_of_not_hasHazard {i j : Nat}
    (h : hasHazard (fpAt program i) (fpAt program j) = false) (k l : Int)
    (usage usage' : RegisterUsage) :
    (cellOf ops eMask (compileInstruction (program.getD i default) k usage).1).Commutes
      (cellOf ops eMask (compileInstruction (program.getD j default) l usage').1) := by
  intro s
  rw [cellOf_compile_effect, cellOf_compile_effect]
  exact executeInstr_commute ops eMask h s

end Windows

/-- What the two swap tests establish about their window. -/
theorem swapsThird_spec {program : List Instruction} {anchors : List Nat} {i : Nat}
    (h : swapsThird program anchors i = true) :
    i + 2 < program.length ∧
      (fpAt program (i + 1)).isBarrier = false ∧ (fpAt program (i + 2)).isBarrier = false ∧
      i + 1 ∉ anchors ∧ i + 2 ∉ anchors ∧
      hasHazard (fpAt program (i + 1)) (fpAt program (i + 2)) = false := by
  simp only [swapsThird, Bool.and_eq_true, decide_eq_true_eq, Bool.not_eq_true',
    List.contains_eq_mem, decide_eq_false_iff_not] at h
  obtain ⟨⟨⟨⟨⟨⟨⟨⟨⟨⟨_, hLen⟩, hB1⟩, hB2⟩, hA1⟩, hA2⟩, _⟩, _⟩, _⟩, _⟩, hQR⟩ := h
  exact ⟨hLen, hB1, hB2, hA1, hA2, hQR⟩

theorem swapsFourth_spec {program : List Instruction} {anchors : List Nat} {i : Nat}
    (h : swapsFourth program anchors i = true) :
    i + 3 < program.length ∧
      (fpAt program (i + 1)).isBarrier = false ∧ (fpAt program (i + 2)).isBarrier = false ∧
      (fpAt program (i + 3)).isBarrier = false ∧
      i + 1 ∉ anchors ∧ i + 2 ∉ anchors ∧ i + 3 ∉ anchors ∧
      hasHazard (fpAt program (i + 1)) (fpAt program (i + 3)) = false ∧
      hasHazard (fpAt program (i + 2)) (fpAt program (i + 3)) = false := by
  simp only [swapsFourth, Bool.and_eq_true, decide_eq_true_eq, Bool.not_eq_true',
    List.contains_eq_mem, decide_eq_false_iff_not] at h
  obtain ⟨⟨⟨⟨⟨⟨⟨⟨⟨⟨⟨⟨⟨⟨_, hLen⟩, hB1⟩, hB2⟩, hB3⟩, hA1⟩, hA2⟩, hA3⟩, _⟩, _⟩, _⟩, _⟩, _⟩, hQR⟩,
    hRR⟩ := h
  exact ⟨hLen, hB1, hB2, hB3, hA1, hA2, hA3, hQR, hRR⟩

theorem scanStep_third {program : List Instruction} {anchors : List Nat} {i : Nat} {budget : Int}
    (h : scanStep program anchors i budget = .third) : swapsThird program anchors i = true := by
  unfold scanStep at h
  split_ifs at h with _ hSwap
  exact (Bool.and_eq_true _ _ ▸ hSwap).1

theorem scanStep_fourth {program : List Instruction} {anchors : List Nat} {i : Nat} {budget : Int}
    (h : scanStep program anchors i budget = .fourth) : swapsFourth program anchors i = true := by
  unfold scanStep at h
  split_ifs at h with _ _ hSwap
  exact (Bool.and_eq_true _ _ ▸ hSwap).1

section ScheduleWindows

variable {ops : FpOps} {eMask : FloatRegister} {program : List Instruction} {anchors : List Nat}

/-- Behind the `P` of a three-instruction window. -/
theorem windowed_third {i : Nat} (h : swapsThird program anchors i = true) (rest : List Nat)
    (hRest : ∀ (j : Int) usage pos changed, Windowed
      (sourceFrom ops eMask (program.drop (i + 3)) j usage)
      (emitFrom ops eMask program rest pos changed))
    (j : Int) (usage : RegisterUsage) (pos : Nat) (changed : RegChanged) :
    Windowed (sourceFrom ops eMask (program.drop (i + 1)) j usage)
      (emitFrom ops eMask program ((i + 2) :: (i + 1) :: rest) pos changed) := by
  obtain ⟨hLen, hB1, hB2, _, _, hQR⟩ := swapsThird_spec h
  rw [drop_eq_getD_cons (k := i + 1) (by omega) default,
    drop_eq_getD_cons (k := i + 2) (by omega) default, sourceFrom_cons, sourceFrom_cons,
    emitFrom_cons, emitFrom_cons]
  exact .swap (sameAction_emittedCell _ _ _ _) (sameAction_emittedCell _ _ _ _)
    (straight_of_not_barrier hB1 _ _) (straight_of_not_barrier hB2 _ _)
    (commutes_of_not_hasHazard hQR _ _ _ _) (hRest ..)

/-- Behind the `P` of a four-instruction window. -/
theorem windowed_fourth {i : Nat} (h : swapsFourth program anchors i = true) (rest : List Nat)
    (hRest : ∀ (j : Int) usage pos changed, Windowed
      (sourceFrom ops eMask (program.drop (i + 4)) j usage)
      (emitFrom ops eMask program rest pos changed))
    (j : Int) (usage : RegisterUsage) (pos : Nat) (changed : RegChanged) :
    Windowed (sourceFrom ops eMask (program.drop (i + 1)) j usage)
      (emitFrom ops eMask program ((i + 3) :: (i + 1) :: (i + 2) :: rest) pos changed) := by
  obtain ⟨hLen, hB1, hB2, hB3, _, _, _, hQR, hRR⟩ := swapsFourth_spec h
  rw [drop_eq_getD_cons (k := i + 1) (by omega) default,
    drop_eq_getD_cons (k := i + 2) (by omega) default,
    drop_eq_getD_cons (k := i + 3) (by omega) default, sourceFrom_cons, sourceFrom_cons,
    sourceFrom_cons, emitFrom_cons, emitFrom_cons, emitFrom_cons]
  exact .rotate (sameAction_emittedCell _ _ _ _) (sameAction_emittedCell _ _ _ _)
    (sameAction_emittedCell _ _ _ _) (straight_of_not_barrier hB1 _ _)
    (straight_of_not_barrier hB2 _ _) (straight_of_not_barrier hB3 _ _)
    (commutes_of_not_hasHazard hQR _ _ _ _) (commutes_of_not_hasHazard hRR _ _ _ _) (hRest ..)

/-- The scan emits the rest of the program with windows permuted, from any
index it reaches. -/
theorem windowed_scheduleLoop (n : Nat) : ∀ (i : Nat) (budget : Int), program.length ≤ i + n →
    ∀ (j : Int) usage pos changed, Windowed
      (sourceFrom ops eMask (program.drop i) j usage)
      (emitFrom ops eMask program (scheduleLoop program anchors n i budget) pos changed) := by
  induction n with
  | zero =>
    intro i budget hLen j usage pos changed
    rw [List.drop_eq_nil_of_le (by omega)]
    exact .nil
  | succ n ih =>
    intro i budget hLen j usage pos changed
    unfold scheduleLoop
    by_cases hEnd : program.length ≤ i
    · rw [if_pos hEnd, List.drop_eq_nil_of_le hEnd]
      exact .nil
    · rw [if_neg hEnd, drop_eq_getD_cons (by omega) default, sourceFrom_cons]
      cases hStep : scanStep program anchors i budget with
      | keep =>
        exact .keep (sameAction_emittedCell _ _ _ _) (ih (i + 1) budget (by omega) ..)
      | third =>
        exact .keep (sameAction_emittedCell _ _ _ _)
          (windowed_third (scanStep_third hStep) _ (ih (i + 3) _ (by omega)) ..)
      | fourth =>
        exact .keep (sameAction_emittedCell _ _ _ _)
          (windowed_fourth (scanStep_fourth hStep) _ (ih (i + 4) _ (by omega)) ..)

end ScheduleWindows

end ArmRx.Jit
