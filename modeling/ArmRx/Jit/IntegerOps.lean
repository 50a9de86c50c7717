import ArmRx.Jit.Emits

/-!
# Integer and control instructions of the emitted code

Running the words emitted for an integer or control instruction has the
interpreter's effect on the integer registers, the branch decision and the
rounding mode, for every fill of the literal pools, and touches nothing else
but the temporaries (`Matches`).

* `runs_write` — the common case: one destination register and `x20` change.
* `hCbranch_runs`, `hCfround_runs`, `hIswapR_runs` — the others.
* `integer_matches` — all thirteen instruction types.
-/

namespace ArmRx.Jit

open ArmRx.Vm ArmRx.A64

/-! ## The relation -/

/-- `FPCR.RMode` (nearest, plus infinity, minus infinity, zero) in the VM's
numbering (nearest, down, up, zero). -/
def modeOfRMode : BitVec 2 → BitVec 2
  | 0b00#2 => 0
  | 0b01#2 => 2
  | 0b10#2 => 1
  | 0b11#2 => 3

/-- The rounding mode a value of `FPCR` selects. -/
def roundingMode (fpcr : BitVec 64) : BitVec 2 := modeOfRMode (fpcr.extractLsb' 22 2)

theorem roundingMode_eq {fpcr : BitVec 64} {mode : BitVec 2}
    (hLow : fpcr.getLsbD 23 = mode.getLsbD 0) (hHigh : fpcr.getLsbD 22 = mode.getLsbD 1) :
    roundingMode fpcr = mode := by
  have hTable : ∀ rmode mode : BitVec 2, rmode.getLsbD 1 = mode.getLsbD 0 →
      rmode.getLsbD 0 = mode.getLsbD 1 → modeOfRMode rmode = mode := by
    decide
  apply hTable
  · rw [← hLow, BitVec.getLsbD_extractLsb']
    rfl
  · rw [← hHigh, BitVec.getLsbD_extractLsb']
    rfl

/-- The integer and control instructions that do not access the scratchpad. -/
def isIntegerControl : InstructionType → Bool
  | .iaddRs | .isubR | .imulR | .imulhR | .ismulhR | .imulRcp | .inegR | .ixorR | .irorR | .irolR
  | .iswapR | .cbranch | .cfround => true
  | _ => false

/-- The machine went from `s` to `s'` as the VM went to `vm'`. -/
structure Matches (instr : Instruction) (em : Emitter) (s s' : State) (vm' : VmState) : Prop where
  regs : ∀ i, s'.x (IntRegMap i) = vm'.r i
  rounding : roundingMode s'.fpcr = vm'.lastRoundingMode
  /-- A taken branch resumes behind the last change of its register. -/
  pc : s'.pc = if branchTaken (bytecodeOf instr) vm' then em.regChangedOffset (regOf instr.dst)
    else (emitInstruction instr em).codePos
  others : ∀ r, r < 31 → (∀ i, r ≠ IntRegMap i) → r ≠ 20 → (r = 8 → instr.type ≠ .cfround) →
    s'.x r = s.x r
  /-- `x8` mirrors `FPCR`, whose other bits stay. -/
  control : instr.type = .cfround → s'.fpcr = (s'.x 8).reverse ∧
    ∀ b, b ≠ 22 → b ≠ 23 → s'.fpcr.getLsbD b = (s.x 8).reverse.getLsbD b
  fpcr : instr.type ≠ .cfround → s'.fpcr = s.fpcr
  flags : instr.type ≠ .cbranch → s'.flags = s.flags
  sp : s'.sp = s.sp
  v : s'.v = s.v
  mem : s'.mem = s.mem

/-- Running the code emitted for `instr` matches executing it. -/
def Runs (fu : FloatUnit) (fp : FpOps) (eMask : FloatRegister) (instr : Instruction)
    (em : Emitter) : Prop :=
  ∀ code s vm, Holds code em (emitInstruction instr em) →
    PoolsLoaded (emitInstruction instr em) s → s.pc = em.codePos →
    (∀ i, s.x (IntRegMap i) = vm.r i) → roundingMode s.fpcr = vm.lastRoundingMode →
    ∃ s', Reaches fu code s s' ∧
      Matches instr em s s' (executeInstruction fp eMask (bytecodeOf instr) vm)

section Runs

variable {fu : FloatUnit} {fp : FpOps} {eMask : FloatRegister} {instr : Instruction} {em : Emitter}

/-! ## One destination register -/

/-- Executing `is` writes `value` to the destination register; at most `x20`
changes besides. -/
def Writes (fu : FloatUnit) (code : Code) (is : List Insn) (s : State) (d : Nat)
    (value : BitVec 64) : Prop :=
  ∃ t, execAll fu code is s = ((s.setX 20 t).setX d value).jump (s.pc + 4 * is.length)

/-- Straight-line code that changes only integer registers and `x20`. -/
theorem runs_straight {is : List Insn} (hEmits : Emits em (emitInstruction instr em) is)
    (hStraight : ∀ i ∈ is, i.straight = true)
    (hExec : ∀ code s vm, Holds code em (emitInstruction instr em) →
      PoolsLoaded (emitInstruction instr em) s → s.pc = em.codePos →
      (∀ i, s.x (IntRegMap i) = vm.r i) →
      ∃ x, execAll fu code is s = { s with x }.jump (s.pc + 4 * is.length) ∧
        (∀ i, x (IntRegMap i) = (executeInstruction fp eMask (bytecodeOf instr) vm).r i) ∧
        ∀ r, (∀ i, r ≠ IntRegMap i) → r ≠ 20 → x r = s.x r)
    (hMode : ∀ vm, (executeInstruction fp eMask (bytecodeOf instr) vm).lastRoundingMode =
      vm.lastRoundingMode)
    (hBranch : instr.type ≠ .cbranch) (hRound : instr.type ≠ .cfround) :
    Runs fu fp eMask instr em := by
  intro code s vm hHolds hLoaded hPc hRegs hRounding
  obtain ⟨x, hRun, hInt, hOther⟩ := hExec code s vm hHolds hLoaded hPc hRegs
  have hBlock : Block code s.pc is := hPc ▸ hHolds.block hEmits
  refine ⟨_, hBlock.reaches hStraight, ?_⟩
  rw [hRun]
  refine ⟨hInt, hRounding.trans (hMode vm).symm, ?_, fun r _ hNotInt hTmp _ => hOther r hNotInt hTmp,
    fun h => absurd h hRound, fun _ => rfl, fun _ => rfl, rfl, rfl, rfl⟩
  rw [branchTaken_eq_false hBranch, if_neg (by decide), State.jump_pc, hPc, hEmits.codePos_eq]

/-- **The common case.** -/
theorem runs_write {is : List Insn} {value : VmState → BitVec 64}
    (hEmits : Emits em (emitInstruction instr em) is) (hStraight : ∀ i ∈ is, i.straight = true)
    (hWrites : ∀ code s vm, Holds code em (emitInstruction instr em) →
      PoolsLoaded (emitInstruction instr em) s → s.pc = em.codePos →
      (∀ i, s.x (IntRegMap i) = vm.r i) → Writes fu code is s (dstReg instr) (value vm))
    (hVm : ∀ vm, executeInstruction fp eMask (bytecodeOf instr) vm =
      vm.setR (regOf instr.dst) (value vm))
    (hBranch : instr.type ≠ .cbranch) (hRound : instr.type ≠ .cfround) :
    Runs fu fp eMask instr em := by
  refine runs_straight hEmits hStraight ?_ (fun vm => by rw [hVm]; rfl) hBranch hRound
  intro code s vm hHolds hLoaded hPc hRegs
  obtain ⟨t, hExec⟩ := hWrites code s vm hHolds hLoaded hPc hRegs
  refine ⟨_, hExec, ?_, ?_⟩
  · intro i
    have hTmp : IntRegMap i ≠ 20 := by have := IntRegMap_range i; omega
    rw [hVm]
    by_cases hi : i = regOf instr.dst
    · subst hi
      simp [dstReg]
    · have hReg : IntRegMap i ≠ dstReg instr := fun h => hi (IntRegMap_inj.mp h)
      simp [hReg, hTmp, hi, hRegs]
  · intro r hInt hTmp
    have hDst : r ≠ dstReg instr := hInt _
    simp [hDst, hTmp]

/-! ## Register and immediate operands -/

theorem writes_regOp {o : RegOp} (ho : o.isInteger = true) (code : Code) (s : State)
    (d n m : Nat) : Writes fu code [o.insn d n m] s d (o.value (s.getX n) (s.getX m)) := by
  refine ⟨s.x 20, ?_⟩
  rw [execAll_cons, execAll_nil, RegOp.exec_insn ho, State.setX_self]
  rfl

/-- An operation on an immediate in `x20`. -/
theorem writes_immOp {o : RegOp} (ho : o.isInteger = true) (code : Code) {s : State} {d num : Nat}
    {imm : BitVec 32} (hd : d ≠ 31) (hd' : d ≠ 20)
    (hLane : ¬ imm < 0x10000 → num < 64 → laneS (s.v (num / 4)) (num % 4) = imm) :
    Writes fu code (movInsns num 20 imm ++ [o.insn d d 20]) s d
      (o.value (s.x d) (imm.signExtend 64)) := by
  refine ⟨imm.signExtend 64, ?_⟩
  rw [execAll_append, execAll_movInsns fu code (by omega) hLane, execAll_cons, execAll_nil,
    RegOp.exec_insn ho, State.getX_of_ne hd, State.getX_of_ne (by omega), State.next_eq_jump,
    State.jump_setX, State.jump_jump, List.length_append]
  simp only [State.jump_x, State.setX_x, Function.update_self, Function.update_of_ne hd']
  rfl

/-- `op dst, dst, src`. -/
theorem op3_runs {o : RegOp} (ho : o.isInteger = true) (hEm : em.Ready)
    (hEngine : emitInstruction instr em =
      (em.emit32 (op3 o.word (dstReg instr) (srcReg instr))).regChanged (regOf instr.dst))
    (hVm : ∀ vm, executeInstruction fp eMask (bytecodeOf instr) vm =
      vm.setR (regOf instr.dst) (o.value (vm.r (regOf instr.dst)) (vm.r (regOf instr.src))))
    (hBranch : instr.type ≠ .cbranch) (hRound : instr.type ≠ .cfround) :
    Runs fu fp eMask instr em := by
  have hDst := dstReg_range instr
  have hSrc := srcReg_range instr
  have hRoom := hEm.room
  have hEmits : Emits em (emitInstruction instr em)
      ([] ++ [o.insn (dstReg instr) (dstReg instr) (srcReg instr)]) := by
    rw [hEngine]
    exact ((Emits.refl em).emit32 (by omega)
      (decode_regOp o (by omega) (by omega) (by omega))).regChanged _
  refine runs_write hEmits (by simp [RegOp.insn_straight]) ?_ hVm hBranch hRound
  intro code s vm _ _ _ hRegs
  have hD : s.getX (dstReg instr) = vm.r (regOf instr.dst) := by
    rw [State.getX_of_ne (by omega)]
    exact hRegs _
  have hS : s.getX (srcReg instr) = vm.r (regOf instr.src) := by
    rw [State.getX_of_ne (by omega)]
    exact hRegs _
  rw [← hD, ← hS]
  exact writes_regOp ho code s _ _ _

/-- `IMUL_R` and `IXOR_R`. -/
theorem hAluImm_runs {o : RegOp} (ho : o.isInteger = true) (hEm : em.Ready)
    (hEngine : emitInstruction instr em = JitCompilerA64.hAluImm o.word instr em)
    (hVm : ∀ vm, executeInstruction fp eMask (bytecodeOf instr) vm =
      vm.setR (regOf instr.dst) (o.value (vm.r (regOf instr.dst))
        (if regOf instr.src ≠ regOf instr.dst then vm.r (regOf instr.src)
          else instr.imm32.signExtend 64)))
    (hBranch : instr.type ≠ .cbranch) (hRound : instr.type ≠ .cfround) :
    Runs fu fp eMask instr em := by
  have hDst := dstReg_range instr
  have hRoom := hEm.room
  by_cases hEq : regOf instr.src = regOf instr.dst
  · have hReg : srcReg instr = dstReg instr := congrArg IntRegMap hEq
    have hMov : Emits em (emitMovImmediate 20 instr.imm32 em) _ :=
      emitMovImmediate_emits (by omega) (by omega) hEm.literalPos_le
    have hLen := movInsns_length_le em.num32bitLiterals 20 instr.imm32
    have hPos := hMov.codePos_eq
    have hOp : Emits (emitMovImmediate 20 instr.imm32 em) (emitInstruction instr em)
        ([] ++ [o.insn (dstReg instr) (dstReg instr) 20]) := by
      rw [hEngine, JitCompilerA64.hAluImm, if_pos hReg]
      exact ((Emits.refl _).emit32 (by simp; omega)
        (decode_regOp o (by omega) (by omega) (by omega))).regChanged _
    refine runs_write (hMov.trans hOp) ?_ ?_ hVm hBranch hRound
    · intro i hi
      rcases List.mem_append.mp hi with hi | hi
      · exact movInsns_straight i hi
      · simp only [List.nil_append, List.mem_singleton] at hi
        rw [hi, RegOp.insn_straight]
    · intro code s vm _ hLoaded _ hRegs
      rw [if_neg (not_not.mpr hEq), ← hRegs]
      exact writes_immOp ho code (by omega) (by omega) (hLoaded.movLane hOp hEm.literalPos_le)
  · have hReg : srcReg instr ≠ dstReg instr := fun h => hEq (IntRegMap_inj.mp h)
    refine op3_runs ho hEm ?_ (fun vm => ?_) hBranch hRound
    · rw [hEngine, JitCompilerA64.hAluImm, if_neg hReg]
    · rw [hVm, if_pos hEq]

/-! ## Sums with an immediate -/

/-- An instruction whose code ends in `emitAddImmediate dst, dst, imm`, behind
the code `is` that leaves `base` in the destination. -/
theorem addImm_writes {is : List Insn} {imm : BitVec 32} (code : Code) {s : State} {d num : Nat}
    {base : BitVec 64} (hd : d ≠ 31) (hd' : d ≠ 20)
    (hBase : execAll fu code is s = (s.setX d base).jump (s.pc + 4 * is.length))
    (hLane : ¬ imm < 0x1000000 → num < 64 → laneS (s.v (num / 4)) (num % 4) = imm) :
    Writes fu code (is ++ addInsns num d d imm) s d (base + imm.signExtend 64) := by
  obtain ⟨t, hAdd⟩ := execAll_addInsns fu code (s := (s.setX d base).jump (s.pc + 4 * is.length))
    hd hd hd' hLane
  refine ⟨t, ?_⟩
  rw [execAll_append, hBase, hAdd, List.length_append]
  simp only [State.jump_setX, State.jump_jump, State.jump_x, State.setX_x, Function.update_self,
    State.jump_pc, State.setX_comm (Ne.symm hd'), State.setX_setX, Nat.mul_add, Nat.add_assoc]

theorem writes_movzAdd (code : Code) {s : State} {d : Nat} (imm : BitVec 16) (hw : Nat)
    (hd : d ≠ 31) (hd' : d ≠ 20) :
    Writes fu code [.movz 20 imm hw, RegOp.add.insn d d 20] s d
      (s.x d + imm.setWidth 64 <<< (16 * hw)) := by
  refine ⟨imm.setWidth 64 <<< (16 * hw), ?_⟩
  rw [execAll_cons, execAll_cons, execAll_nil, RegOp.exec_insn rfl, State.getX_of_ne hd,
    State.getX_of_ne (by omega)]
  simp only [exec, State.next_eq_jump, State.jump_setX, State.jump_jump, State.jump_x,
    State.setX_x, Function.update_self, Function.update_of_ne hd', RegOp.value]
  rfl

/-- The code `is` leaves `base` in the destination; an immediate is added to it. -/
theorem addImm_runs {em₁ : Emitter} {is : List Insn} (imm : BitVec 32)
    (base : VmState → BitVec 64) (hEm : em.Ready) (hIs : Emits em em₁ is)
    (hStraight : ∀ i ∈ is, i.straight = true) (hLen : is.length ≤ 1)
    (hLit : em₁.literalPos = em.literalPos)
    (hEngine : emitInstruction instr em =
      (emitAddImmediate (dstReg instr) (dstReg instr) imm em₁).regChanged (regOf instr.dst))
    (hBase : ∀ code s vm, (∀ i, s.x (IntRegMap i) = vm.r i) → execAll fu code is s =
      (s.setX (dstReg instr) (base vm)).jump (s.pc + 4 * is.length))
    (hVm : ∀ vm, executeInstruction fp eMask (bytecodeOf instr) vm =
      vm.setR (regOf instr.dst) (base vm + imm.signExtend 64))
    (hBranch : instr.type ≠ .cbranch) (hRound : instr.type ≠ .cfround) :
    Runs fu fp eMask instr em := by
  have hDst := dstReg_range instr
  have hRoom := hEm.room
  have hEnd : em₁.literalPos ≤ ImulRcpLiteralsEnd := hLit ▸ hEm.literalPos_le
  have hPos := hIs.codePos_eq
  have hAdd : Emits em₁ (emitInstruction instr em) _ :=
    hEngine ▸ (emitAddImmediate_emits (by omega) (by omega) (by omega) hEnd).regChanged _
  have hRest : Emits (emitAddImmediate (dstReg instr) (dstReg instr) imm em₁)
      (emitInstruction instr em) [] := hEngine ▸ (Emits.refl _).regChanged _
  refine runs_write (hIs.trans hAdd) ?_ ?_ hVm hBranch hRound
  · intro i hi
    rcases List.mem_append.mp hi with hi | hi
    · exact hStraight i hi
    · exact addInsns_straight i hi
  · intro code s vm _ hLoaded _ hRegs
    exact addImm_writes code (by omega) (by omega) (hBase code s vm hRegs)
      (hLoaded.addLane hRest (by omega) (by omega) (by omega) hEnd)

theorem hIaddRs_runs (hEm : em.Ready) (hType : instr.type = .iaddRs) :
    Runs fu fp eMask instr em := by
  have hDst := dstReg_range instr
  have hSrc := srcReg_range instr
  have hRoom := hEm.room
  have hShift := instr.getModShift_lt
  have hShiftNat : (u32 instr.getModShift).toNat = instr.getModShift := u32_toNat (by omega)
  have hEngine : emitInstruction instr em = JitCompilerA64.hIaddRs instr em := by
    rw [emitInstruction, hType]
    rfl
  have hVm (vm : VmState) : executeInstruction fp eMask (bytecodeOf instr) vm =
      vm.setR (regOf instr.dst) (vm.r (regOf instr.dst) +
        (vm.r (regOf instr.src) <<< instr.getModShift +
          if regOf instr.dst ≠ 5 then 0 else signExtend2sCompl instr.imm32)) := by
    rw [bytecodeOf_of_type hType]
    rfl
  have hAdd := (Emits.refl em).emit32 (by omega) (decode_addReg_shift
    (d := dstReg instr) (n := dstReg instr) (m := srcReg instr) (y := u32 instr.getModShift)
    (by omega) (by omega) (by omega) (by omega))
  rw [hShiftNat, List.nil_append] at hAdd
  have hExec (code : Code) (s : State) (vm : VmState) (hRegs : ∀ i, s.x (IntRegMap i) = vm.r i) :
      execAll fu code [.addReg (dstReg instr) (dstReg instr) (srcReg instr) instr.getModShift] s =
      (s.setX (dstReg instr) (vm.r (regOf instr.dst) +
        vm.r (regOf instr.src) <<< instr.getModShift)).jump (s.pc + 4) := by
    rw [← hRegs, ← hRegs]
    simp only [execAll_cons, execAll_nil, exec, State.getX_of_ne (show dstReg instr ≠ 31 by omega),
      State.getX_of_ne (show srcReg instr ≠ 31 by omega)]
    rfl
  have hBranch : instr.type ≠ .cbranch := by simp [hType]
  have hRound : instr.type ≠ .cfround := by simp [hType]
  by_cases h5 : regOf instr.dst = 5
  · -- only `r5` takes the displacement, as a second addition
    refine addImm_runs instr.imm32 _ hEm hAdd (by simp [Insn.straight]) (by simp) rfl ?_ hExec
      (fun vm => ?_) hBranch hRound
    · rw [hEngine, JitCompilerA64.hIaddRs, if_pos h5]
      rfl
    · rw [hVm, if_neg (not_not.mpr h5), BitVec.add_assoc]
      rfl
  · have hEmits : Emits em (emitInstruction instr em)
        [.addReg (dstReg instr) (dstReg instr) (srcReg instr) instr.getModShift] := by
      rw [hEngine, JitCompilerA64.hIaddRs, if_neg h5]
      exact hAdd.regChanged _
    refine runs_write hEmits (by simp [Insn.straight]) ?_ hVm hBranch hRound
    intro code s vm _ _ _ hRegs
    refine ⟨s.x 20, ?_⟩
    rw [hExec code s vm hRegs, State.setX_self, if_pos h5]
    simp

theorem hIsubR_runs (hEm : em.Ready) (hType : instr.type = .isubR) :
    Runs fu fp eMask instr em := by
  have hDst := dstReg_range instr
  have hRoom := hEm.room
  have hEngine : emitInstruction instr em = JitCompilerA64.hIsubR instr em := by
    rw [emitInstruction, hType]
    rfl
  have hVm (vm : VmState) : executeInstruction fp eMask (bytecodeOf instr) vm =
      vm.setR (regOf instr.dst) (vm.r (regOf instr.dst) -
        if regOf instr.src ≠ regOf instr.dst then vm.r (regOf instr.src)
          else signExtend2sCompl instr.imm32) := by
    rw [bytecodeOf_of_type hType]
    simp only [kCompileHandlers, hIsubR, hAluReg, compileAluReg]
    split <;> rfl
  have hBranch : instr.type ≠ .cbranch := by simp [hType]
  have hRound : instr.type ≠ .cfround := by simp [hType]
  by_cases hEq : regOf instr.src = regOf instr.dst
  · have hReg : ¬ srcReg instr ≠ dstReg instr := not_not.mpr (congrArg IntRegMap hEq)
    by_cases hMin : instr.imm32 = 0x80000000
    · -- the one immediate whose negation does not fit the sign-extended form
      have hMov := (Emits.refl em).emit32 (w := ARMV8A.MOVZ ||| u32 20 ||| u32 1 <<< 21 |||
        u32 0x8000 <<< 5) (i := .movz 20 0x8000 1) (by omega) rfl
      have hAdd := (hMov.emit32 (by simp; omega) (decode_regOp .add
        (show dstReg instr < 32 by omega) (show dstReg instr < 32 by omega)
        (show 20 < 32 by omega))).regChanged (regOf instr.dst)
      have hEmits : Emits em (emitInstruction instr em)
          [.movz 20 0x8000 1, RegOp.add.insn (dstReg instr) (dstReg instr) 20] := by
        rw [hEngine, JitCompilerA64.hIsubR, if_neg hReg, if_pos hMin]
        exact hAdd
      refine runs_write hEmits (List.forall_mem_cons.mpr ⟨rfl,
        List.forall_mem_singleton.mpr (RegOp.insn_straight ..)⟩) ?_ hVm hBranch hRound
      intro code s vm _ _ _ hRegs
      have hMovVal : (0x8000 : BitVec 16).setWidth 64 <<< (16 * 1) =
          -signExtend2sCompl 0x80000000 := by decide
      have hD : s.x (dstReg instr) = vm.r (regOf instr.dst) := hRegs _
      rw [if_neg (not_not.mpr hEq), hMin, BitVec.sub_eq_add_neg, ← hMovVal, ← hD]
      exact writes_movzAdd code _ _ (by omega) (by omega)
    · -- any other immediate is added with its sign changed
      refine addImm_runs (-instr.imm32) (fun vm => vm.r (regOf instr.dst)) hEm (Emits.refl em)
        (by simp) (by simp) rfl ?_ (fun code s vm hRegs => ?_) (fun vm => ?_)
        hBranch hRound
      · rw [hEngine, JitCompilerA64.hIsubR, if_neg hReg, if_neg hMin]
      · rw [← hRegs]
        exact congrArg (·.jump s.pc) (State.setX_self s (dstReg instr)).symm
      · rw [hVm, if_neg (not_not.mpr hEq), signExtend2sCompl, BitVec.sub_eq_add_neg,
          signExtend_neg hMin]
  · have hReg : srcReg instr ≠ dstReg instr := fun h => hEq (IntRegMap_inj.mp h)
    refine op3_runs (o := .sub) rfl hEm ?_ (fun vm => ?_) hBranch hRound
    · rw [hEngine, JitCompilerA64.hIsubR, if_pos hReg]
      rfl
    · rw [hVm, if_pos hEq]
      rfl

/-! ## Negation and rotations -/

theorem hInegR_runs (hEm : em.Ready) (hType : instr.type = .inegR) :
    Runs fu fp eMask instr em := by
  have hDst := dstReg_range instr
  have hRoom := hEm.room
  have hEmits : Emits em (emitInstruction instr em)
      [RegOp.sub.insn (dstReg instr) 31 (dstReg instr)] := by
    rw [emitInstruction, hType]
    exact ((Emits.refl em).emit32 (by omega)
      (decode_regOp .sub (by omega) (by omega) (by omega))).regChanged _
  have hVm (vm : VmState) : executeInstruction fp eMask (bytecodeOf instr) vm =
      vm.setR (regOf instr.dst) (0 - vm.r (regOf instr.dst)) := by
    rw [bytecodeOf_of_type hType, BitVec.ofNat_eq_ofNat, BitVec.zero_sub, BitVec.neg_eq_not_add]
    rfl
  refine runs_write hEmits (by simp [RegOp.insn_straight]) ?_ hVm (by simp [hType])
    (by simp [hType])
  intro code s vm _ _ _ hRegs
  have hD : s.getX (dstReg instr) = vm.r (regOf instr.dst) := by
    rw [State.getX_of_ne (by omega)]
    exact hRegs _
  rw [← hD]
  exact writes_regOp rfl code s (dstReg instr) 31 (dstReg instr)

/-- `ror dst, dst, #imm`. -/
theorem rorImm_runs (imm : BitVec 32) (hEm : em.Ready)
    (hEngine : emitInstruction instr em =
      (em.emit32 (JitCompilerA64.rorImm (dstReg instr) (dstReg instr) imm)).regChanged
        (regOf instr.dst))
    (hVm : ∀ vm, executeInstruction fp eMask (bytecodeOf instr) vm =
      vm.setR (regOf instr.dst) ((vm.r (regOf instr.dst)).rotateRight (imm.toNat % 64)))
    (hBranch : instr.type ≠ .cbranch) (hRound : instr.type ≠ .cfround) :
    Runs fu fp eMask instr em := by
  have hDst := dstReg_range instr
  have hRoom := hEm.room
  have hAmount : (imm &&& 63).toNat = imm.toNat % 64 := and_63_toNat imm (by omega)
  have hEmits : Emits em (emitInstruction instr em)
      [.extr (dstReg instr) (dstReg instr) (dstReg instr) (imm.toNat % 64)] := by
    rw [hEngine, ← hAmount]
    exact ((Emits.refl em).emit32 (by omega)
      (decode_extr (by omega) (by omega) (by omega) (by omega))).regChanged _
  refine runs_write hEmits (by simp [Insn.straight]) ?_ hVm hBranch hRound
  intro code s vm _ _ _ hRegs
  have hD : s.x (dstReg instr) = vm.r (regOf instr.dst) := hRegs _
  refine ⟨s.x 20, ?_⟩
  simp only [execAll_cons, execAll_nil, exec, State.getX_of_ne (show dstReg instr ≠ 31 by omega),
    extract_self _ (show imm.toNat % 64 < 64 by omega), State.setX_self, hD]
  rfl

theorem hIrorR_runs (hEm : em.Ready) (hType : instr.type = .irorR) :
    Runs fu fp eMask instr em := by
  have hEngine : emitInstruction instr em = JitCompilerA64.hIrorR instr em := by
    rw [emitInstruction, hType]
    rfl
  have hVm (vm : VmState) : executeInstruction fp eMask (bytecodeOf instr) vm =
      vm.setR (regOf instr.dst) ((vm.r (regOf instr.dst)).rotateRight
        ((if regOf instr.src ≠ regOf instr.dst then vm.r (regOf instr.src)
          else instr.imm32.setWidth 64).toNat % 64)) := by
    rw [bytecodeOf_of_type hType, ← and_63_toNat _ (by omega)]
    simp only [kCompileHandlers, hIrorR, hAluReg, compileAluReg]
    split <;> rfl
  by_cases hEq : regOf instr.src = regOf instr.dst
  · have hReg : ¬ srcReg instr ≠ dstReg instr := not_not.mpr (congrArg IntRegMap hEq)
    refine rorImm_runs instr.imm32 hEm ?_ (fun vm => ?_) (by simp [hType]) (by simp [hType])
    · rw [hEngine, JitCompilerA64.hIrorR, if_neg hReg]
    · have hImm := instr.imm32.isLt
      rw [hVm, if_neg (not_not.mpr hEq), BitVec.toNat_setWidth,
        Nat.mod_eq_of_lt (show instr.imm32.toNat < 2 ^ 64 by omega)]
  · have hReg : srcReg instr ≠ dstReg instr := fun h => hEq (IntRegMap_inj.mp h)
    refine op3_runs (o := .ror) rfl hEm ?_ (fun vm => ?_) (by simp [hType]) (by simp [hType])
    · rw [hEngine, JitCompilerA64.hIrorR, if_pos hReg]
      rfl
    · rw [hVm, if_pos hEq]
      rfl

theorem hIrolR_runs (hEm : em.Ready) (hType : instr.type = .irolR) :
    Runs fu fp eMask instr em := by
  have hDst := dstReg_range instr
  have hSrc := srcReg_range instr
  have hRoom := hEm.room
  have hEngine : emitInstruction instr em = JitCompilerA64.hIrolR instr em := by
    rw [emitInstruction, hType]
    rfl
  have hVm (vm : VmState) : executeInstruction fp eMask (bytecodeOf instr) vm =
      vm.setR (regOf instr.dst) ((vm.r (regOf instr.dst)).rotateLeft
        ((if regOf instr.src ≠ regOf instr.dst then vm.r (regOf instr.src)
          else instr.imm32.setWidth 64).toNat % 64)) := by
    rw [bytecodeOf_of_type hType, ← and_63_toNat _ (by omega)]
    simp only [kCompileHandlers, hIrolR, hAluReg, compileAluReg]
    split <;> rfl
  by_cases hEq : regOf instr.src = regOf instr.dst
  · have hReg : ¬ srcReg instr ≠ dstReg instr := not_not.mpr (congrArg IntRegMap hEq)
    refine rorImm_runs (-instr.imm32) hEm ?_ (fun vm => ?_) (by simp [hType]) (by simp [hType])
    · rw [hEngine, JitCompilerA64.hIrolR, if_neg hReg]
    · have hImm := instr.imm32.isLt
      rw [hVm, if_neg (not_not.mpr hEq), BitVec.toNat_setWidth, BitVec.toNat_neg]
      exact congrArg _ (rotateRight_neg _ (by omega)).symm
  · -- a left rotation is a right rotation by the negated amount
    have hReg : srcReg instr ≠ dstReg instr := fun h => hEq (IntRegMap_inj.mp h)
    have hSub := (Emits.refl em).emit32 (by omega) (decode_regOp .sub (show 20 < 32 by omega)
      (show 31 < 32 by omega) (show srcReg instr < 32 by omega))
    have hRor := (hSub.emit32 (by simp; omega) (decode_regOp .ror (show dstReg instr < 32 by omega)
      (show dstReg instr < 32 by omega) (show 20 < 32 by omega))).regChanged (regOf instr.dst)
    have hEmits : Emits em (emitInstruction instr em)
        [RegOp.sub.insn 20 31 (srcReg instr), RegOp.ror.insn (dstReg instr) (dstReg instr) 20] := by
      rw [hEngine, JitCompilerA64.hIrolR, if_pos hReg]
      exact hRor
    refine runs_write hEmits (by simp [RegOp.insn_straight]) ?_ hVm (by simp [hType])
      (by simp [hType])
    intro code s vm _ _ _ hRegs
    have hD : s.x (dstReg instr) = vm.r (regOf instr.dst) := hRegs _
    have hS : s.x (srcReg instr) = vm.r (regOf instr.src) := hRegs _
    have hLt := (s.x (srcReg instr)).isLt
    refine ⟨0 - s.x (srcReg instr), ?_⟩
    rw [if_pos hEq, ← hD, ← hS, ← rotateRight_neg (k := (0 - s.x (srcReg instr)).toNat) _
      (by rw [BitVec.toNat_sub]; simp; omega), execAll_cons, execAll_cons, execAll_nil,
      RegOp.exec_insn rfl, RegOp.exec_insn rfl]
    simp only [RegOp.value, State.getX_of_ne (show dstReg instr ≠ 31 by omega),
      State.getX_of_ne (show srcReg instr ≠ 31 by omega), State.getX_of_ne (show 20 ≠ 31 by omega),
      show s.getX 31 = 0 from rfl, State.next_eq_jump, State.jump_setX, State.jump_jump,
      State.jump_x, State.setX_x, Function.update_self,
      Function.update_of_ne (show dstReg instr ≠ 20 by omega)]
    rfl

/-! ## Exchange -/

theorem hIswapR_runs (hEm : em.Ready) (hType : instr.type = .iswapR) :
    Runs fu fp eMask instr em := by
  have hDst := dstReg_range instr
  have hSrc := srcReg_range instr
  have hRoom := hEm.room
  have hBranch : instr.type ≠ .cbranch := by simp [hType]
  have hRound : instr.type ≠ .cfround := by simp [hType]
  have hEngine : emitInstruction instr em = JitCompilerA64.hIswapR instr em := by
    rw [emitInstruction, hType]
    rfl
  have hVm (vm : VmState) : executeInstruction fp eMask (bytecodeOf instr) vm =
      if regOf instr.src ≠ regOf instr.dst then
        (vm.setR (regOf instr.src) (vm.r (regOf instr.dst))).setR (regOf instr.dst)
          (vm.r (regOf instr.src))
      else vm := by
    rw [bytecodeOf_of_type hType]
    simp only [kCompileHandlers, hIswapR]
    split <;> rfl
  by_cases hEq : regOf instr.src = regOf instr.dst
  · -- nothing is emitted, and the interpreter has a no-op
    have hReg : srcReg instr = dstReg instr := congrArg IntRegMap hEq
    have hEmits : Emits em (emitInstruction instr em) [] := by
      rw [hEngine, JitCompilerA64.hIswapR, if_pos hReg]
      exact Emits.refl em
    refine runs_straight hEmits (by simp) (fun code s vm _ _ _ hRegs => ?_) (fun vm => ?_)
      hBranch hRound
    · exact ⟨s.x, rfl, fun i => by rw [hVm, if_neg (not_not.mpr hEq), hRegs], fun _ _ _ => rfl⟩
    · rw [hVm, if_neg (not_not.mpr hEq)]
  · -- three moves through `x20`
    have hReg : srcReg instr ≠ dstReg instr := fun h => hEq (IntRegMap_inj.mp h)
    have hTmp := (Emits.refl em).emit32 (by omega) (decode_movReg (show 20 < 32 by omega)
      (show dstReg instr < 32 by omega))
    have hMov := hTmp.emit32 (by simp; omega) (decode_movReg (show dstReg instr < 32 by omega)
      (show srcReg instr < 32 by omega))
    have hBack := ((hMov.emit32 (by simp; omega) (decode_movReg (show srcReg instr < 32 by omega)
      (show 20 < 32 by omega))).regChanged (regOf instr.src)).regChanged (regOf instr.dst)
    have hEmits : Emits em (emitInstruction instr em)
        [.orrReg 20 31 (dstReg instr), .orrReg (dstReg instr) 31 (srcReg instr),
          .orrReg (srcReg instr) 31 20] := by
      rw [hEngine, JitCompilerA64.hIswapR, if_neg hReg]
      exact hBack
    refine runs_straight hEmits (by simp [Insn.straight]) (fun code s vm _ _ _ hRegs => ?_)
      (fun vm => ?_) hBranch hRound
    · have hD : s.x (dstReg instr) = vm.r (regOf instr.dst) := hRegs _
      have hS : s.x (srcReg instr) = vm.r (regOf instr.src) := hRegs _
      refine ⟨Function.update (Function.update (Function.update s.x 20 (s.x (dstReg instr)))
        (dstReg instr) (s.x (srcReg instr))) (srcReg instr) (s.x (dstReg instr)), ?_, ?_, ?_⟩
      · simp [execAll, exec, State.getX, State.next, State.setX, State.jump,
          show dstReg instr ≠ 31 by omega, show srcReg instr ≠ 31 by omega,
          show srcReg instr ≠ 20 by omega, show 20 ≠ dstReg instr by omega]
      · intro i
        have hi : IntRegMap i ≠ 20 := by have := IntRegMap_range i; omega
        rw [hVm, if_pos hEq, VmState.setR_r, VmState.setR_r, ← hD, ← hS]
        by_cases hiS : i = regOf instr.src
        · subst hiS
          rw [Function.update_of_ne hEq, Function.update_self]
          exact Function.update_self ..
        · have hRegS : IntRegMap i ≠ srcReg instr := fun h => hiS (IntRegMap_inj.mp h)
          rw [Function.update_of_ne hRegS]
          by_cases hiD : i = regOf instr.dst
          · subst hiD
            rw [Function.update_self]
            exact Function.update_self ..
          · have hRegD : IntRegMap i ≠ dstReg instr := fun h => hiD (IntRegMap_inj.mp h)
            rw [Function.update_of_ne hRegD, Function.update_of_ne hi, Function.update_of_ne hiD,
              Function.update_of_ne hiS, hRegs]
      · intro r hInt hTmp
        rw [Function.update_of_ne (show r ≠ srcReg instr from hInt _),
          Function.update_of_ne (show r ≠ dstReg instr from hInt _), Function.update_of_ne hTmp]
    · rw [hVm, if_pos hEq]
      rfl

/-! ## Reciprocals -/

theorem literalRegs_range : ∀ i < 12, JitCompilerA64.literalRegs.getD i 0 ≤ 30 := by decide

/-- A reciprocal that no register holds is loaded from its slot. -/
theorem hImulRcp_emits_ldr (hEm : em.Ready)
    (hSkip : ¬(instr.imm32 &&& (instr.imm32 - 1) == 0) = true)
    (hHeld : ¬(ImulRcpLiteralsEnd - em.literalPos) / 8 < 12) :
    Emits (em.placeReciprocal (randomxReciprocal instr.imm32)) (JitCompilerA64.hImulRcp instr em)
      [.ldrLit 20 (em.literalPos - 8), RegOp.mul.insn (dstReg instr) (dstReg instr) 20] := by
  have hDst := dstReg_range instr
  have hRoom := hEm.room
  have hEnd := hEm.literalPos_le
  have hAligned := hEm.literalPos_aligned
  have hOffset : (((u32 (em.literalPos - 8) - u32 em.codePos) / 4) &&&
      (u32 1 <<< 19 - 1)).toNat = (em.literalPos - 8 - em.codePos) / 4 := by
    have hSub : (u32 (em.literalPos - 8) - u32 em.codePos).toNat =
        em.literalPos - 8 - em.codePos := by
      unfold ImulRcpLiteralsEnd at hEnd
      rw [BitVec.toNat_sub_of_le, u32_toNat (by omega), u32_toNat (by omega)]
      rw [BitVec.le_def, u32_toNat (by omega), u32_toNat (by omega)]
      omega
    rw [show u32 1 <<< 19 - 1 = u32 (2 ^ 19 - 1) from by decide, and_lowMask_toNat _ (by omega),
      BitVec.toNat_udiv, hSub]
    unfold ImulRcpLiteralsEnd at hEnd
    change (em.literalPos - 8 - em.codePos) / 4 % 2 ^ 19 = _
    omega
  have hTarget : branchTarget em.codePos ((em.literalPos - 8 - em.codePos) / 4) 19 =
      em.literalPos - 8 := by
    have hCode := hEm.codePos_aligned
    unfold ImulRcpLiteralsEnd at hEnd hAligned
    rw [branchTarget, if_pos (by omega)]
    omega
  have hShort : (em.literalPos - 8 - em.codePos) / 4 < 2 ^ 19 := by
    unfold ImulRcpLiteralsEnd at hEnd
    omega
  have hLdr := (Emits.refl (em.placeReciprocal (randomxReciprocal instr.imm32))).emit32
    (by simp; omega) (decode_ldrLit (d := 20) (by omega) (hOffset ▸ hShort))
  rw [hOffset, placeReciprocal_codePos, hTarget] at hLdr
  rw [JitCompilerA64.hImulRcp, if_neg hSkip]
  simp only [if_neg hHeld]
  exact (hLdr.emit32 (by simp; omega)
    (decode_regOp .mul (by omega) (by omega) (by omega))).regChanged _

theorem hImulRcp_runs (hEm : em.Ready) (hType : instr.type = .imulRcp) :
    Runs fu fp eMask instr em := by
  have hDst := dstReg_range instr
  have hRoom := hEm.room
  have hEnd := hEm.literalPos_le
  have hAligned := hEm.literalPos_aligned
  have hBranch : instr.type ≠ .cbranch := by simp [hType]
  have hRound : instr.type ≠ .cfround := by simp [hType]
  have hEngine : emitInstruction instr em = JitCompilerA64.hImulRcp instr em := by
    rw [emitInstruction, hType]
    rfl
  have hVm (vm : VmState) : executeInstruction fp eMask (bytecodeOf instr) vm =
      if instr.imm32 &&& (instr.imm32 - 1) == 0 then vm
      else vm.setR (regOf instr.dst)
        (vm.r (regOf instr.dst) * randomxReciprocal instr.imm32) := by
    rw [bytecodeOf_of_type hType, ← isZeroOrPowerOf2_setWidth]
    simp only [kCompileHandlers, hImulRcp]
    cases isZeroOrPowerOf2 (instr.imm32.setWidth 64) <;> rfl
  by_cases hSkip : (instr.imm32 &&& (instr.imm32 - 1) == 0) = true
  · have hEmits : Emits em (emitInstruction instr em) [] := by
      rw [hEngine, JitCompilerA64.hImulRcp, if_pos hSkip]
      exact Emits.refl em
    refine runs_straight hEmits (by simp) (fun code s vm _ _ _ hRegs => ?_) (fun vm => ?_)
      hBranch hRound
    · exact ⟨s.x, rfl, fun i => by rw [hVm, if_pos hSkip, hRegs], fun _ _ _ => rfl⟩
    · rw [hVm, if_pos hSkip]
  have hVm' (vm : VmState) : executeInstruction fp eMask (bytecodeOf instr) vm =
      vm.setR (regOf instr.dst) (vm.r (regOf instr.dst) * randomxReciprocal instr.imm32) := by
    rw [hVm, if_neg hSkip]
  -- the reciprocal goes into the next slot
  have hSlot : em.literalPos - 8 = reciprocalPos ((ImulRcpLiteralsEnd - em.literalPos) / 8) := by
    unfold reciprocalPos
    omega
  have hLiteral := placeReciprocal_literal64 em (randomxReciprocal instr.imm32)
  have hPlace := (Emits.refl em).placeReciprocal (randomxReciprocal instr.imm32) (by omega)
  by_cases hHeld : (ImulRcpLiteralsEnd - em.literalPos) / 8 < 12
  · -- held in a register
    have hReg := literalRegs_range _ hHeld
    have hMul : Emits (em.placeReciprocal (randomxReciprocal instr.imm32))
        (emitInstruction instr em) ([] ++ [RegOp.mul.insn (dstReg instr) (dstReg instr)
          (JitCompilerA64.literalRegs.getD ((ImulRcpLiteralsEnd - em.literalPos) / 8) 0)]) := by
      rw [hEngine, JitCompilerA64.hImulRcp, if_neg hSkip]
      simp only [if_pos hHeld]
      exact ((Emits.refl _).emit32 (by simp; omega)
        (decode_regOp .mul (by omega) (by omega) (by omega))).regChanged _
    refine runs_write (hPlace.trans hMul) (by simp [RegOp.insn_straight]) ?_ hVm' hBranch hRound
    intro code s vm _ hLoaded _ hRegs
    have hD : s.getX (dstReg instr) = vm.r (regOf instr.dst) := by
      rw [State.getX_of_ne (by omega)]
      exact hRegs _
    have hR : s.getX (JitCompilerA64.literalRegs.getD
        ((ImulRcpLiteralsEnd - em.literalPos) / 8) 0) = randomxReciprocal instr.imm32 := by
      rw [State.getX_of_ne (by omega), (hLoaded.mono hMul (by simp; omega)).reciprocals _ hHeld
        (by rw [← hSlot]; simp), ← hSlot, hLiteral]
    rw [← hD, ← hR]
    exact writes_regOp rfl code s _ _ _
  · -- loaded from the pool
    have hMul : Emits (em.placeReciprocal (randomxReciprocal instr.imm32))
        (emitInstruction instr em) [.ldrLit 20 (em.literalPos - 8),
          RegOp.mul.insn (dstReg instr) (dstReg instr) 20] :=
      hEngine ▸ hImulRcp_emits_ldr hEm hSkip hHeld
    refine runs_write (hPlace.trans hMul) (List.forall_mem_cons.mpr ⟨rfl,
      List.forall_mem_singleton.mpr (RegOp.insn_straight ..)⟩) ?_ hVm' hBranch hRound
    intro code s vm hHolds _ _ hRegs
    have hLit : (emitInstruction instr em).literalPos = em.literalPos - 8 := by
      rw [hEngine, JitCompilerA64.hImulRcp, if_neg hSkip]
      simp only [if_neg hHeld]
      rfl
    have hWord : code.word (em.literalPos - 8 + 4) ++ code.word (em.literalPos - 8) =
        randomxReciprocal instr.imm32 := by
      rw [hHolds.word _ (by omega) (by omega), hHolds.word _ (by omega) (by omega),
        hMul.pools _ (by simp) (by simp; omega), hMul.pools _ (by simp) (by simp; omega)]
      exact hLiteral
    have hD : s.x (dstReg instr) = vm.r (regOf instr.dst) := hRegs _
    refine ⟨randomxReciprocal instr.imm32, ?_⟩
    rw [← hD, List.nil_append, execAll_cons, execAll_cons, execAll_nil, RegOp.exec_insn rfl,
      State.getX_of_ne (by omega), State.getX_of_ne (by omega)]
    simp only [exec, hWord, State.next_eq_jump, State.jump_setX, State.jump_jump, State.jump_x,
      State.setX_x, Function.update_self, Function.update_of_ne (show dstReg instr ≠ 20 by omega),
      RegOp.value]
    rfl

/-! ## Rounding mode -/

theorem getLsbD_reverse_insertField (x y : BitVec 64) {b : Nat} (hb : b < 64) :
    (insertField x y 40 2).reverse.getLsbD b =
      if b = 23 then y.getLsbD 0 else if b = 22 then y.getLsbD 1 else x.reverse.getLsbD b := by
  rw [BitVec.getLsbD_reverse, BitVec.getLsbD_reverse, BitVec.getMsbD_eq_getLsbD,
    BitVec.getMsbD_eq_getLsbD, getLsbD_insertField _ _ (by omega) (by omega)]
  simp only [hb, decide_true, Bool.true_and]
  by_cases h23 : b = 23
  · subst h23
    rfl
  · by_cases h22 : b = 22
    · subst h22
      rfl
    · rw [if_neg (by omega), if_neg h23, if_neg h22]

/-- The bits of the shadow register with the new mode in place. -/
theorem execAll_cfround (code : Code) (s : State) {r k : Nat} (hr : r ≠ 31) (hk : k < 64) :
    execAll fu code [.extr 20 r r k, .bfi 8 20 40 2, .rbit 20 8, .msrFpcr 20] s =
      (((s.setX 20 (insertField (s.x 8) ((s.x r).rotateRight k) 40 2).reverse).setX 8
        (insertField (s.x 8) ((s.x r).rotateRight k) 40 2)).setFpcr
          (insertField (s.x 8) ((s.x r).rotateRight k) 40 2).reverse).jump (s.pc + 16) := by
  simp only [execAll_cons, execAll_nil, exec, State.getX_of_ne hr, extract_self _ hk,
    State.getX_of_ne (show 8 ≠ 31 by omega), State.getX_of_ne (show 20 ≠ 31 by omega),
    State.next_eq_jump, State.jump_setX, State.jump_setFpcr, State.jump_jump, State.jump_x,
    State.setX_x, Function.update_self, Function.update_of_ne (show 8 ≠ 20 by omega),
    State.setX_comm (show 8 ≠ 20 by omega), State.setX_setX]
  rfl

theorem hCfround_runs (hEm : em.Ready) (hType : instr.type = .cfround) :
    Runs fu fp eMask instr em := by
  have hSrc := srcReg_range instr
  have hRoom := hEm.room
  have hAmount : (instr.imm32 &&& 63).toNat = instr.imm32.toNat % 64 :=
    and_63_toNat instr.imm32 (by omega)
  have hRor := (Emits.refl em).emit32 (by omega) (decode_extr (d := 20) (n := srcReg instr)
    (m := srcReg instr) (y := instr.imm32 &&& 63) (by omega) (by omega) (by omega) (by omega))
  have hBfi := hRor.emit32 (w := 0xB3580400#32 ||| u32 8 ||| u32 20 <<< 5) (i := .bfi 8 20 40 2)
    (by simp; omega) rfl
  have hRbit := hBfi.emit32 (w := 0xDAC00000#32 ||| u32 20 ||| u32 8 <<< 5) (i := .rbit 20 8)
    (by simp; omega) rfl
  have hMsr := hRbit.emit32 (w := 0xD51B4400#32 ||| u32 20) (i := .msrFpcr 20) (by simp; omega) rfl
  have hEmits : Emits em (emitInstruction instr em)
      [.extr 20 (srcReg instr) (srcReg instr) (instr.imm32.toNat % 64), .bfi 8 20 40 2, .rbit 20 8,
        .msrFpcr 20] := by
    rw [emitInstruction, hType, ← hAmount]
    exact hMsr
  have hVm (vm : VmState) : executeInstruction fp eMask (bytecodeOf instr) vm =
      rxSetRoundingMode (((vm.r (regOf instr.src)).rotateRight
        (instr.imm32.toNat % 64)).setWidth 2) vm := by
    have hImm : ((instr.imm32 &&& 63).setWidth 64).toNat = instr.imm32.toNat % 64 := by
      rw [BitVec.toNat_setWidth, hAmount]
      omega
    rw [bytecodeOf_of_type hType, ← hImm]
    rfl
  intro code s vm hHolds _ hPc hRegs _
  have hBlock : Block code s.pc _ := hPc ▸ hHolds.block hEmits
  refine ⟨_, hBlock.reaches (by simp [Insn.straight]), ?_⟩
  rw [hVm]
  have hS : s.x (srcReg instr) = vm.r (regOf instr.src) := hRegs _
  rw [execAll_cfround code s (by omega) (by omega), hS]
  generalize (vm.r (regOf instr.src)).rotateRight (instr.imm32.toNat % 64) = value
  refine ⟨?_, ?_, ?_, ?_, fun _ => ⟨?_, ?_⟩, fun h => absurd hType h, fun _ => rfl, rfl, rfl, rfl⟩
  · intro i
    have hi := IntRegMap_range i
    simp only [State.jump_x, State.setFpcr_x, State.setX_x,
      Function.update_of_ne (show IntRegMap i ≠ 8 by omega),
      Function.update_of_ne (show IntRegMap i ≠ 20 by omega), hRegs]
    rfl
  · -- `rbit` puts the two mode bits where `FPCR` has them, in reverse
    refine roundingMode_eq ?_ ?_ <;>
      rw [State.jump_fpcr, State.setFpcr_fpcr, getLsbD_reverse_insertField _ _ (by omega)] <;>
      simp [rxSetRoundingMode]
  · rw [State.jump_pc, hEmits.codePos_eq, hPc, branchTaken_eq_false (by simp [hType])]
    rfl
  · intro r _ _ hTmp h8
    have h8' : r ≠ 8 := fun h => h8 h hType
    simp [h8', hTmp]
  · simp
  · intro b h22 h23
    by_cases hb : b < 64
    · rw [State.jump_fpcr, State.setFpcr_fpcr, getLsbD_reverse_insertField _ _ hb, if_neg h23,
        if_neg h22]
    · rw [BitVec.getLsbD_of_ge _ _ (by omega), BitVec.getLsbD_of_ge _ _ (by omega)]

/-! ## Branches -/

/-- The immediate of `CBRANCH`: the bit at the mask's base set, the one below
it cleared. -/
def branchImm (instr : Instruction) : BitVec 32 :=
  (instr.imm32 ||| u32 1 <<< (instr.getModCond + 8)) &&& ~~~(u32 1 <<< (instr.getModCond + 8 - 1))

theorem branchImm_signExtend (instr : Instruction) :
    (branchImm instr).signExtend 64 =
      (signExtend2sCompl instr.imm32 ||| (1#64 <<< (instr.getModCond + 8))) &&&
        ~~~(1#64 <<< (instr.getModCond + 8 - 1)) := by
  have hBit : ∀ k < 24, (u32 1 <<< k).signExtend 64 = 1#64 <<< k := by decide
  have hCond := instr.getModCond_lt
  rw [branchImm, BitVec.signExtend_and, BitVec.signExtend_or, BitVec.signExtend_not (by omega),
    hBit _ (by omega), hBit _ (by omega)]
  rfl

/-- The mask of `CBRANCH`. -/
def branchMask (instr : Instruction) : BitVec 64 := (255#32 <<< (instr.getModCond + 8)).setWidth 64

theorem bitmask_eq_branchMask (instr : Instruction) :
    bitmask 64 8 (56 - instr.getModCond) = branchMask instr := by
  have hMask : ∀ c < 16, bitmask 64 8 (56 - c) = (255#32 <<< (c + 8)).setWidth 64 := by decide
  exact hMask _ instr.getModCond_lt

/-- The instructions of `CBRANCH`; `back` is where a taken branch resumes. -/
def branchInsns (num codePos back : Nat) (instr : Instruction) : List Insn :=
  addInsns num (dstReg instr) (dstReg instr) (branchImm instr) ++
    [.andsImm 31 (dstReg instr) (branchMask instr)] ++
    [.bCond .ne (codePos + 4 * (addInsns num (dstReg instr) (dstReg instr)
      (branchImm instr)).length + 4 + 8), .b back]

/-- A backward branch encodes its target. -/
theorem backward_target {offset k : Nat} (hLt : offset < k) (hBound : k < 2 ^ 20)
    (hOffset : offset % 4 = 0) (hk : k % 4 = 0) :
    branchTarget k (BitVec.ofInt 32 (((offset : Int) - k) >>> (2 : Nat)) &&& 0x03FFFFFF).toNat 26
        = offset ∧
      (BitVec.ofInt 32 (((offset : Int) - k) >>> (2 : Nat)) &&& 0x03FFFFFF).toNat < 2 ^ 26 := by
  have hNat : (BitVec.ofInt 32 (((offset : Int) - k) >>> (2 : Nat)) &&& 0x03FFFFFF).toNat =
      2 ^ 26 - (k - offset) / 4 := by
    rw [show (0x03FFFFFF : BitVec 32) = u32 (2 ^ 26 - 1) from by decide,
      and_lowMask_toNat _ (by omega), BitVec.toNat_ofInt, Int.shiftRight_eq_div_pow]
    omega
  rw [hNat]
  refine ⟨?_, by omega⟩
  rw [branchTarget, if_neg (by omega)]
  omega

/-- What `h_CBRANCH` emits behind the addition: the test, the skip and the
branch back. -/
def emitBranchBack (instr : Instruction) (em : Emitter) : Emitter :=
  let em := em.emit32 ((0xF2781C1F#32 - u32 instr.getModCond <<< 16) ||| u32 (dstReg instr) <<< 5)
  let offset : Int := em.regChangedOffset (regOf instr.dst)
  let em := em.emit32 (0x54000000#32 ||| u32 2 <<< 5 ||| u32 1)
  let em := em.emit32 (0x14000000#32 |||
    BitVec.ofInt 32 ((offset - em.codePos) >>> (2 : Nat)) &&& 0x03FFFFFF)
  { em with regChangedOffset := fun _ => em.codePos }

theorem hCbranch_eq (instr : Instruction) (em : Emitter) :
    JitCompilerA64.hCbranch instr em = emitBranchBack instr
      (emitAddImmediate (dstReg instr) (dstReg instr) (branchImm instr) em) := rfl

theorem emitBranchBack_emits (instr : Instruction) (em : Emitter) {back : Nat}
    (hRoom : em.codePos + 12 ≤ em.literalPos)
    (hEnd : em.literalPos ≤ ImulRcpLiteralsEnd) (hAligned : em.codePos % 4 = 0)
    (hBack : em.regChangedOffset (regOf instr.dst) = back) (hLe : back ≤ em.codePos)
    (hBackAligned : back % 4 = 0) :
    Emits em (emitBranchBack instr em) [.andsImm 31 (dstReg instr) (branchMask instr),
      .bCond .ne (em.codePos + 4 + 8), .b back] := by
  have hDst := dstReg_range instr
  have hTst := (Emits.refl em).emit32 (by omega) (decode_tst (n := dstReg instr) (by omega)
    instr.getModCond_lt)
  rw [bitmask_eq_branchMask] at hTst
  have hBne := hTst.emit32 (w := 0x54000000#32 ||| u32 2 <<< 5 ||| u32 1)
    (i := .bCond .ne (em.codePos + 4 + 8)) (by simp; omega) rfl
  unfold ImulRcpLiteralsEnd at hEnd
  obtain ⟨hTarget, hShort⟩ := backward_target (k := em.codePos + 4 + 4)
    (show back < em.codePos + 4 + 4 by omega) (by omega) hBackAligned (by omega)
  have hB := hBne.emit32 (by simp; omega) (decode_b hShort)
  simp only [emit32_codePos] at hB
  rw [hTarget] at hB
  unfold emitBranchBack
  simp only [emit32_regChangedOffset, emit32_codePos, hBack]
  exact hB.withRegChanged _

theorem hCbranch_rest (hEm : em.Ready) :
    Emits (emitAddImmediate (dstReg instr) (dstReg instr) (branchImm instr) em)
      (JitCompilerA64.hCbranch instr em) [.andsImm 31 (dstReg instr) (branchMask instr),
        .bCond .ne (em.codePos + 4 * (addInsns em.num32bitLiterals (dstReg instr) (dstReg instr)
          (branchImm instr)).length + 4 + 8), .b (em.regChangedOffset (regOf instr.dst))] := by
  have hDst := dstReg_range instr
  have hRoom := hEm.room
  have hBack := hEm.regChanged_le (regOf instr.dst)
  have hAligned := hEm.codePos_aligned
  have hAdd : Emits em (emitAddImmediate (dstReg instr) (dstReg instr) (branchImm instr) em) _ :=
    emitAddImmediate_emits (by omega) (by omega) (by omega) hEm.literalPos_le
  have hLen := addInsns_length_le em.num32bitLiterals (dstReg instr) (dstReg instr)
    (branchImm instr)
  have hPos := hAdd.codePos_eq
  have hRest := emitBranchBack_emits instr
    (emitAddImmediate (dstReg instr) (dstReg instr) (branchImm instr) em)
    (by simp; omega) (by simpa using hEm.literalPos_le) (by omega)
    (congrFun emitAddImmediate_regChangedOffset _) (by omega) (hEm.regChanged_aligned _)
  rwa [hPos, ← hCbranch_eq] at hRest

theorem hCbranch_emits (hEm : em.Ready) :
    Emits em (JitCompilerA64.hCbranch instr em)
      (branchInsns em.num32bitLiterals em.codePos (em.regChangedOffset (regOf instr.dst)) instr) := by
  have hDst := dstReg_range instr
  have hRoom := hEm.room
  have hAdd : Emits em (emitAddImmediate (dstReg instr) (dstReg instr) (branchImm instr) em) _ :=
    emitAddImmediate_emits (by omega) (by omega) (by omega) hEm.literalPos_le
  simpa only [branchInsns, List.append_assoc, List.cons_append, List.nil_append]
    using hAdd.trans (hCbranch_rest hEm)

/-- The test leaves the sum in the register and its masked bits in the flags. -/
def branchTested (s : State) (instr : Instruction) (t value : BitVec 64) (pc : Nat) : State :=
  ((((s.setX 20 t).setX (dstReg instr) value).setFlags
    (logicFlags (value &&& branchMask instr))).setX 31 (value &&& branchMask instr)).jump pc

theorem execAll_branchTest (fu : FloatUnit) (code : Code) (s : State) {num : Nat}
    (hLane : ¬ branchImm instr < 0x1000000 → num < 64 →
      laneS (s.v (num / 4)) (num % 4) = branchImm instr) :
    ∃ t, execAll fu code (addInsns num (dstReg instr) (dstReg instr) (branchImm instr) ++
        [.andsImm 31 (dstReg instr) (branchMask instr)]) s =
      branchTested s instr t (s.x (dstReg instr) + (branchImm instr).signExtend 64)
        (s.pc + 4 * (addInsns num (dstReg instr) (dstReg instr) (branchImm instr)).length + 4) := by
  have hDst := dstReg_range instr
  have hReg : dstReg instr ≠ 31 := by omega
  obtain ⟨t, hAdd⟩ := execAll_addInsns fu code hReg hReg (by omega) hLane
  refine ⟨t, ?_⟩
  rw [execAll_append, hAdd]
  simp only [execAll_cons, execAll_nil, exec, State.getX_of_ne hReg, State.jump_x, State.setX_x,
    Function.update_self, State.next_eq_jump, State.jump_setFlags, State.jump_setX,
    State.jump_jump]
  rfl

/-- The skip and the branch back, from the tested state. -/
theorem branch_reaches {code : Code} {s : State} {t value : BitVec 64} {k back : Nat}
    (hBlock : Block code k [.bCond .ne (k + 8), .b back]) :
    Reaches fu code (branchTested s instr t value k) (branchTested s instr t value
      (if value &&& branchMask instr == 0 then back else k + 8)) := by
  have hStep : Reaches fu code (branchTested s instr t value k) _ := Reaches.step hBlock.head
  by_cases hZero : (value &&& branchMask instr == 0) = true
  · have hNext : exec fu code (.bCond .ne (k + 8)) (branchTested s instr t value k) =
        branchTested s instr t value (k + 4) := by
      simp only [exec, branchTested, State.jump_flags, State.setX_flags, State.setFlags_flags,
        logicFlags, Cond.holds, hZero, Bool.not_true, Bool.false_eq_true, if_false]
      rfl
    rw [hNext] at hStep
    rw [if_pos hZero]
    have hBack : Reaches fu code (branchTested s instr t value (k + 4))
        (exec fu code (.b back) (branchTested s instr t value (k + 4))) :=
      Reaches.step hBlock.tail.head
    exact hStep.trans hBack
  · have hSkip : exec fu code (.bCond .ne (k + 8)) (branchTested s instr t value k) =
        branchTested s instr t value (k + 8) := by
      simp only [exec, branchTested, State.jump_flags, State.setX_flags, State.setFlags_flags,
        logicFlags, Cond.holds, hZero, Bool.not_false, if_true]
      rfl
    rw [hSkip] at hStep
    rw [if_neg hZero]
    exact hStep

theorem branchTest_straight {num : Nat} : ∀ i ∈ addInsns num (dstReg instr) (dstReg instr)
    (branchImm instr) ++ [.andsImm 31 (dstReg instr) (branchMask instr)], i.straight = true := by
  intro i hi
  rcases List.mem_append.mp hi with hi | hi
  · exact addInsns_straight i hi
  · rw [List.mem_singleton.mp hi]
    rfl

theorem hCbranch_lane {s : State} (hEm : em.Ready)
    (hLoaded : PoolsLoaded (JitCompilerA64.hCbranch instr em) s) :
    ¬ branchImm instr < 0x1000000 → em.num32bitLiterals < 64 →
      laneS (s.v (em.num32bitLiterals / 4)) (em.num32bitLiterals % 4) = branchImm instr := by
  have hDst := dstReg_range instr
  have hRoom := hEm.room
  have hEnd := hEm.literalPos_le
  exact hLoaded.addLane (hCbranch_rest hEm) (by omega) (by omega) (by omega) hEnd

theorem hCbranch_runs (hEm : em.Ready) (hType : instr.type = .cbranch) :
    Runs fu fp eMask instr em := by
  have hDst := dstReg_range instr
  have hRoom := hEm.room
  have hEnd := hEm.literalPos_le
  have hEngine : emitInstruction instr em = JitCompilerA64.hCbranch instr em := by
    rw [emitInstruction, hType]
    rfl
  have hEmits : Emits em (emitInstruction instr em) _ := hEngine ▸ hCbranch_emits hEm
  have hVm (vm : VmState) : executeInstruction fp eMask (bytecodeOf instr) vm =
      vm.setR (regOf instr.dst) (vm.r (regOf instr.dst) + (branchImm instr).signExtend 64) := by
    rw [bytecodeOf_of_type hType, branchImm_signExtend]
    rfl
  have hTaken (vm : VmState) : branchTaken (bytecodeOf instr) vm =
      (vm.r (regOf instr.dst) &&& branchMask instr == 0) := by
    rw [bytecodeOf_of_type hType]
    rfl
  intro code s vm hHolds hLoaded hPc hRegs hMode
  have hD : s.x (dstReg instr) = vm.r (regOf instr.dst) := hRegs _
  have hBlock : Block code s.pc _ := hPc ▸ hHolds.block hEmits
  -- the addition and the test are straight-line code, the branch behind them is not
  obtain ⟨t, hTest⟩ := execAll_branchTest fu code s
    (hCbranch_lane hEm (hEngine ▸ hLoaded))
  have hRun : Reaches fu code s _ := (hBlock.append_left).reaches branchTest_straight
  rw [hTest, hD] at hRun
  have hTail := hBlock.append_right
  have hPos : s.pc + 4 * (addInsns em.num32bitLiterals (dstReg instr) (dstReg instr)
      (branchImm instr) ++ [Insn.andsImm 31 (dstReg instr) (branchMask instr)]).length =
      s.pc + 4 * (addInsns em.num32bitLiterals (dstReg instr) (dstReg instr)
        (branchImm instr)).length + 4 := by
    rw [List.length_append, List.length_singleton]
    omega
  rw [hPos] at hTail
  refine ⟨_, hRun.trans (branch_reaches hTail), ?_⟩
  rw [hVm]
  refine ⟨?_, hMode, ?_, ?_, fun h => absurd h (by simp [hType]), fun _ => rfl,
    fun h => absurd hType h, rfl, rfl, rfl⟩
  · intro i
    have hi := IntRegMap_range i
    simp only [branchTested, State.jump_x, State.setX_x, State.setFlags_x,
      Function.update_of_ne (show IntRegMap i ≠ 31 by omega), VmState.setR_r]
    by_cases hiD : i = regOf instr.dst
    · subst hiD
      rw [Function.update_self]
      exact Function.update_self ..
    · have hReg : IntRegMap i ≠ dstReg instr := fun h => hiD (IntRegMap_inj.mp h)
      rw [Function.update_of_ne hReg, Function.update_of_ne (by omega), Function.update_of_ne hiD,
        hRegs]
  · rw [hTaken, VmState.setR_r, Function.update_self, hEmits.codePos_eq, branchInsns]
    simp only [branchTested, State.jump_pc, hPc]
    split
    · rfl
    · simp only [List.length_append, List.length_cons, List.length_nil]
      omega
  · intro r hr hInt hTmp _
    have hReg : r ≠ dstReg instr := hInt _
    simp [branchTested, hReg, hTmp, show r ≠ 31 by omega]

/-! ## Main result -/

theorem compileAluReg_vm {o : RegOp} {type : InstructionType}
    (hCode : bytecodeOf instr = compileAluReg instr type (signExtend2sCompl instr.imm32))
    (hOp : ∀ ibc vm, ibc.type = type → executeInstruction fp eMask ibc vm =
      updateIdst o.value ibc (ibc.readIsrc vm) vm) (vm : VmState) :
    executeInstruction fp eMask (bytecodeOf instr) vm =
      vm.setR (regOf instr.dst) (o.value (vm.r (regOf instr.dst))
        (if regOf instr.src ≠ regOf instr.dst then vm.r (regOf instr.src)
          else instr.imm32.signExtend 64)) := by
  rw [hCode, hOp _ _ (by unfold compileAluReg; split <;> rfl)]
  unfold compileAluReg
  split <;> rfl

/-- **Integer and control instructions match the interpreter**, for every
emitter state with room for one more instruction. -/
theorem integer_matches (fu : FloatUnit) (fp : FpOps) (eMask : FloatRegister)
    (instr : Instruction) (em : Emitter) (hInt : isIntegerControl instr.type = true)
    (hEm : em.Ready) : Runs fu fp eMask instr em := by
  cases hType : instr.type <;> rw [hType] at hInt <;>
    simp only [isIntegerControl, Bool.false_eq_true] at hInt
  case iaddRs => exact hIaddRs_runs hEm hType
  case isubR => exact hIsubR_runs hEm hType
  case imulR =>
    refine hAluImm_runs (o := .mul) rfl hEm (by rw [emitInstruction, hType]; rfl) ?_
      (by simp [hType]) (by simp [hType])
    exact compileAluReg_vm (bytecodeOf_of_type hType) fun ibc vm h => by
      rw [executeInstruction, h]
      rfl
  case ixorR =>
    refine hAluImm_runs (o := .eor) rfl hEm (by rw [emitInstruction, hType]; rfl) ?_
      (by simp [hType]) (by simp [hType])
    exact compileAluReg_vm (bytecodeOf_of_type hType) fun ibc vm h => by
      rw [executeInstruction, h]
      rfl
  case imulhR =>
    exact op3_runs (o := .umulh) rfl hEm (by rw [emitInstruction, hType]; rfl)
      (fun vm => by rw [bytecodeOf_of_type hType]; rfl) (by simp [hType]) (by simp [hType])
  case ismulhR =>
    exact op3_runs (o := .smulh) rfl hEm (by rw [emitInstruction, hType]; rfl)
      (fun vm => by rw [bytecodeOf_of_type hType]; rfl) (by simp [hType]) (by simp [hType])
  case imulRcp => exact hImulRcp_runs hEm hType
  case inegR => exact hInegR_runs hEm hType
  case irorR => exact hIrorR_runs hEm hType
  case irolR => exact hIrolR_runs hEm hType
  case iswapR => exact hIswapR_runs hEm hType
  case cbranch => exact hCbranch_runs hEm hType
  case cfround => exact hCfround_runs hEm hType

end Runs

/-- `IMUL_R r1, r1` with a negative immediate, as the first instruction. -/
theorem integer_matches_imulR :
    Runs leftUnit leftOps ⟨0, 0⟩ ⟨46, 1, 1, 0, 0x80000001⟩ (initialEmitter fun _ => 0) :=
  integer_matches _ _ _ _ _ (by decide +kernel) (initialEmitter_ready _)

end ArmRx.Jit
