import ArmRx.Jit.DatasetItem
import ArmRx.Jit.IntegerOps
import ArmRx.Jit.ScheduleDag
import ArmRx.Jit.ScheduleOrder

/-!
# The regions of the code buffer

Embeds the part of `generateProgram` and `generateProgramLight` that depends on
the program: `emitPrologueMix` and the two words behind it, which form `spMix2`
and branch to one of the main loop's exits. Code grows upwards from
`PrologueSize` while reciprocals grow downwards from `ImulRcpLiteralsEnd`; no
check in the source keeps them apart, so the bound is on what one instruction
can emit.

* `emitInstruction_advances` — at most nine words and one reciprocal.
* `inRegions_emitAll` — the invariant of the emission loop.
* `emitted_code_fits` — the regions of the program and of the dataset-item
  function.
-/

namespace ArmRx.Jit

open ArmRx.Vm ArmRx.A64

/-! ## The emission -/

/-- The exits of the main loop a program can be generated for. -/
inductive Exit where
  | fast
  | light
  | hybrid
  deriving DecidableEq, Repr

def Exit.label : Exit → Nat
  | .fast => Label.vmInstructionsEnd
  | .light => Label.vmInstructionsEndLight
  | .hybrid => Label.vmInstructionsEndHybrid

/-- `emit_order`: `ARMRX_DAG_SCHED` selects the scheduler. -/
def mainOrder (program : Program) (useDagScheduler : Bool) (budget : Int) : List Nat :=
  if useDagScheduler then scheduleProgramDag program.programBuffer budget
  else scheduleProgram program.programBuffer budget

/-- `for (uint32_t idx : emit_order)`. -/
def emitAll (program : Program) (order : List Nat) (em : Emitter) : Emitter :=
  order.foldl (fun em idx => emitInstruction (instrAt program.programBuffer idx) em) em

/-- `emitPrologueMix`. -/
def emitPrologueMix (program : Program) (useDagScheduler : Bool) (budget : Int)
    (template : Nat → BitVec 32) : Emitter :=
  emitAll program (mainOrder program useDagScheduler budget) (initialEmitter template)

/-- `eor w20, readReg2, readReg3`, and the branch back to the main loop. -/
def emitExit (readReg2 readReg3 : Fin 8) (exit : Exit) (em : Emitter) : Emitter :=
  let em := em.emit32 (ARMV8A.EOR32 ||| u32 20 ||| u32 (IntRegMap readReg2) <<< 5 |||
    u32 (IntRegMap readReg3) <<< 16)
  let offset := u32 exit.label - u32 em.codePos
  em.emit32 (ARMV8A.B ||| offset / 4)

/-! ## What a piece of code adds -/

/-- At most `n` words were appended and nothing else but 32-bit literals. -/
structure Grows (n : Nat) (em em' : Emitter) : Prop where
  words : ∃ w, w ≤ n ∧ em'.codePos = em.codePos + 4 * w
  literalPos_eq : em'.literalPos = em.literalPos
  literals_le : em.num32bitLiterals ≤ 64 → em'.num32bitLiterals ≤ 64
  regChanged_eq : em'.regChangedOffset = em.regChangedOffset

namespace Grows

variable {n m : Nat} {em em' em'' : Emitter}

theorem refl (em : Emitter) : Grows 0 em em := ⟨⟨0, Nat.le_refl _, rfl⟩, rfl, id, rfl⟩

theorem mono (h : Grows n em em') (hle : n ≤ m) : Grows m em em' := by
  obtain ⟨w, hw, hPos⟩ := h.words
  exact ⟨⟨w, Nat.le_trans hw hle, hPos⟩, h.literalPos_eq, h.literals_le, h.regChanged_eq⟩

theorem emit32 (h : Grows n em em') (word : BitVec 32) : Grows (n + 1) em (em'.emit32 word) := by
  obtain ⟨w, hw, hPos⟩ := h.words
  refine ⟨⟨w + 1, Nat.succ_le_succ hw, ?_⟩, h.literalPos_eq, h.literals_le, h.regChanged_eq⟩
  rw [emit32_codePos, hPos]
  omega

theorem movImmediate (h : Grows n em em') (dst : Nat) (imm : BitVec 32) :
    Grows (n + 2) em (emitMovImmediate dst imm em') := by
  unfold emitMovImmediate
  split
  · exact (h.emit32 _).mono (by omega)
  · split
    · rename_i hRoom
      have hWord := (h.emit32 ((if imm.msb then 0x4E042C00#32 else 0x0E043C00) ||| u32 dst |||
        u32 (em'.num32bitLiterals / 4) <<< 5 ||| u32 (em'.num32bitLiterals % 4) <<< 19)).mono
        (show n + 1 ≤ n + 2 by omega)
      exact ⟨hWord.words, hWord.literalPos_eq, fun _ => hRoom, hWord.regChanged_eq⟩
    · exact (h.emit32 _).emit32 _

theorem addImmediate (h : Grows n em em') (dst src : Nat) (imm : BitVec 32) :
    Grows (n + 3) em (emitAddImmediate dst src imm em') := by
  unfold emitAddImmediate
  dsimp only
  split
  · split
    · exact ((h.emit32 _).emit32 _).mono (by omega)
    · split <;> exact (h.emit32 _).mono (by omega)
  · exact (h.movImmediate 20 imm).emit32 _

theorem memLoad (h : Grows n em em') (dst src : Nat) (instr : Instruction) :
    Grows (n + 5) em (emitMemLoad dst src instr em') := by
  unfold emitMemLoad
  dsimp only
  split
  · split
    · exact ((h.addImmediate 20 src _).emit32 _).emit32 _
    · exact ((h.emit32 _).emit32 _).mono (by omega)
  · exact ((h.movImmediate 20 _).emit32 _).mono (by omega)

theorem memLoadFP (h : Grows n em em') (src : Nat) (instr : Instruction) :
    Grows (n + 7) em (emitMemLoadFP src instr em') := by
  have hAddress : Grows (n + 3) em
      (if maskedImm instr ≠ 0 then emitAddImmediate 19 src (maskedImm instr) em' else em') := by
    split
    · exact h.addImmediate 19 src _
    · exact h.mono (by omega)
  exact (((hAddress.emit32 _).emit32 _).emit32 _).emit32 _

end Grows

/-- What one instruction adds: at most nine words and one reciprocal, and
`reg_changed_offset` moves to the end of the code or not at all. -/
structure Advances (em em' : Emitter) : Prop where
  words : ∃ w, w ≤ 9 ∧ em'.codePos = em.codePos + 4 * w
  literalPos : em'.literalPos = em.literalPos ∨ em'.literalPos = em.literalPos - 8
  literals_le : em.num32bitLiterals ≤ 64 → em'.num32bitLiterals ≤ 64
  regChanged : ∀ r, em'.regChangedOffset r = em.regChangedOffset r ∨
    em'.regChangedOffset r = em'.codePos

namespace Advances

variable {n : Nat} {em em' : Emitter}

theorem of_grows (h : Grows n em em') (hn : n ≤ 9) : Advances em em' := by
  obtain ⟨w, hw, hPos⟩ := h.words
  exact ⟨⟨w, Nat.le_trans hw hn, hPos⟩, .inl h.literalPos_eq, h.literals_le,
    fun r => .inl (congrFun h.regChanged_eq r)⟩

theorem withRegChanged (h : Advances em em') (r : Fin 8) : Advances em (em'.regChanged r) := by
  refine ⟨h.words, h.literalPos, h.literals_le, fun r' => ?_⟩
  by_cases hr : r' = r
  · subst hr
    exact .inr (Function.update_self ..)
  · have hSame : (em'.regChanged r).regChangedOffset r' = em'.regChangedOffset r' :=
      Function.update_of_ne hr ..
    rw [hSame]
    exact h.regChanged r'

theorem write (h : Grows n em em') (hn : n ≤ 9) (r : Fin 8) : Advances em (em'.regChanged r) :=
  (of_grows h hn).withRegChanged r

/-- Code behind a reciprocal that was placed first. -/
theorem place {v : BitVec 64} (h : Grows n (em.placeReciprocal v) em') (hn : n ≤ 9) :
    Advances em em' := by
  obtain ⟨w, hw, hPos⟩ := h.words
  exact ⟨⟨w, Nat.le_trans hw hn, hPos⟩, .inr h.literalPos_eq, h.literals_le,
    fun r => .inl (congrFun h.regChanged_eq r)⟩

/-- Code behind which every register counts as changed. -/
theorem changeAll (h : Grows n em em') (hn : n ≤ 9) :
    Advances em { em' with regChangedOffset := fun _ => em'.codePos } := by
  obtain ⟨w, hw, hPos⟩ := h.words
  exact ⟨⟨w, Nat.le_trans hw hn, hPos⟩, .inl h.literalPos_eq, h.literals_le, fun _ => .inr rfl⟩

end Advances

/-! ## The handlers -/

section Handlers

variable (instr : Instruction) (em : Emitter)

theorem hIaddRs_advances : Advances em (JitCompilerA64.hIaddRs instr em) := by
  unfold JitCompilerA64.hIaddRs
  dsimp only
  split
  · exact .write (((Grows.refl em).emit32 _).addImmediate _ _ _) (by omega) _
  · exact .write ((Grows.refl em).emit32 _) (by omega) _

theorem hIsubR_advances : Advances em (JitCompilerA64.hIsubR instr em) := by
  unfold JitCompilerA64.hIsubR
  dsimp only
  split
  · exact .write ((Grows.refl em).emit32 _) (by omega) _
  · split
    · exact .write (((Grows.refl em).emit32 _).emit32 _) (by omega) _
    · exact .write ((Grows.refl em).addImmediate _ _ _) (by omega) _

theorem hAluImm_advances (op : BitVec 32) : Advances em (JitCompilerA64.hAluImm op instr em) := by
  unfold JitCompilerA64.hAluImm
  dsimp only
  split
  · exact .write (((Grows.refl em).movImmediate _ _).emit32 _) (by omega) _
  · exact .write ((Grows.refl em).emit32 _) (by omega) _

theorem hMemOp_advances (op : BitVec 32) : Advances em (JitCompilerA64.hMemOp op instr em) :=
  .write (((Grows.refl em).memLoad _ _ instr).emit32 _) (by omega) _

theorem hMulh_advances (op : BitVec 32) : Advances em (JitCompilerA64.hMulh op instr em) :=
  .write ((Grows.refl em).emit32 _) (by omega) _

theorem hImulRcp_advances : Advances em (JitCompilerA64.hImulRcp instr em) := by
  unfold JitCompilerA64.hImulRcp
  split
  · exact .of_grows (Grows.refl em) (by omega)
  · dsimp only
    split
    · exact (Advances.place ((Grows.refl _).emit32 _) (by omega)).withRegChanged _
    · exact (Advances.place (((Grows.refl _).emit32 _).emit32 _) (by omega)).withRegChanged _

theorem hIrorR_advances : Advances em (JitCompilerA64.hIrorR instr em) := by
  unfold JitCompilerA64.hIrorR
  dsimp only
  split <;> exact .write ((Grows.refl em).emit32 _) (by omega) _

theorem hIrolR_advances : Advances em (JitCompilerA64.hIrolR instr em) := by
  unfold JitCompilerA64.hIrolR
  dsimp only
  split
  · exact .write (((Grows.refl em).emit32 _).emit32 _) (by omega) _
  · exact .write ((Grows.refl em).emit32 _) (by omega) _

theorem hIswapR_advances : Advances em (JitCompilerA64.hIswapR instr em) := by
  unfold JitCompilerA64.hIswapR
  split
  · exact .of_grows (Grows.refl em) (by omega)
  · exact (Advances.write ((((Grows.refl em).emit32 _).emit32 _).emit32 _)
      (by omega) _).withRegChanged _

theorem emit32_advances (word : BitVec 32) : Advances em (em.emit32 word) :=
  .of_grows ((Grows.refl em).emit32 word) (by omega)

theorem hFloatMem_advances (op : BitVec 32) :
    Advances em (JitCompilerA64.hFloatMem op instr em) :=
  .of_grows (((Grows.refl em).memLoadFP _ instr).emit32 _) (by omega)

theorem hFdivM_advances : Advances em (JitCompilerA64.hFdivM instr em) :=
  .of_grows ((((Grows.refl em).memLoadFP _ instr).emit32 _).emit32 _) (by omega)

theorem hCbranch_advances : Advances em (JitCompilerA64.hCbranch instr em) :=
  .changeAll (((((Grows.refl em).addImmediate _ _ _).emit32 _).emit32 _).emit32 _) (by omega)

theorem hCfround_advances : Advances em (JitCompilerA64.hCfround instr em) :=
  .of_grows (((((Grows.refl em).emit32 _).emit32 _).emit32 _).emit32 _) (by omega)

theorem hIstore_advances : Advances em (JitCompilerA64.hIstore instr em) :=
  .of_grows ((((Grows.refl em).addImmediate _ _ _).emit32 _).emit32 _) (by omega)

/-- **One instruction adds at most nine words and one reciprocal.** -/
theorem emitInstruction_advances : Advances em (emitInstruction instr em) := by
  unfold emitInstruction
  cases instr.type with
  | iaddRs => exact hIaddRs_advances instr em
  | isubR => exact hIsubR_advances instr em
  | imulR | ixorR => exact hAluImm_advances instr em _
  | iaddM | isubM | imulM | imulhM | ismulhM | ixorM => exact hMemOp_advances instr em _
  | imulhR | ismulhR => exact hMulh_advances instr em _
  | imulRcp => exact hImulRcp_advances instr em
  | inegR => exact .write ((Grows.refl em).emit32 _) (by omega) _
  | irorR => exact hIrorR_advances instr em
  | irolR => exact hIrolR_advances instr em
  | iswapR => exact hIswapR_advances instr em
  | fswapR | faddR | fsubR | fscalR | fmulR | fsqrtR => exact emit32_advances em _
  | faddM | fsubM => exact hFloatMem_advances instr em _
  | fdivM => exact hFdivM_advances instr em
  | cbranch => exact hCbranch_advances instr em
  | cfround => exact hCfround_advances instr em
  | istore => exact hIstore_advances instr em
  | nop => exact .of_grows (Grows.refl em) (by omega)

end Handlers

/-! ## The loop -/

/-- Where the emission stands after `k` instructions. -/
structure InRegions (k : Nat) (em : Emitter) : Prop where
  codePos_ge : PrologueSize ≤ em.codePos
  codePos_le : em.codePos ≤ PrologueSize + 36 * k
  literalPos_ge : ImulRcpLiteralsEnd ≤ em.literalPos + 8 * k
  literalPos_le : em.literalPos ≤ ImulRcpLiteralsEnd
  literalPos_aligned : (ImulRcpLiteralsEnd - em.literalPos) % 8 = 0
  literals_le : em.num32bitLiterals ≤ 64
  codePos_aligned : em.codePos % 4 = 0
  regChanged_le : ∀ r, em.regChangedOffset r ≤ em.codePos
  regChanged_aligned : ∀ r, em.regChangedOffset r % 4 = 0

theorem inRegions_initial (template : Nat → BitVec 32) : InRegions 0 (initialEmitter template) where
  codePos_ge := Nat.le_refl _
  codePos_le := Nat.le_refl _
  literalPos_ge := Nat.le_refl _
  literalPos_le := Nat.le_refl _
  literalPos_aligned := (by decide : (ImulRcpLiteralsEnd - ImulRcpLiteralsEnd) % 8 = 0)
  literals_le := Nat.zero_le _
  codePos_aligned := (by decide : PrologueSize % 4 = 0)
  regChanged_le _ := Nat.le_refl _
  regChanged_aligned _ := (by decide : PrologueSize % 4 = 0)

/-- A program's worth of instructions leaves room for one more. -/
theorem InRegions.ready {k : Nat} {em : Emitter} (h : InRegions k em) (hk : k ≤ 256) :
    em.Ready where
  room := by
    have hCode := h.codePos_le
    have hLiteral := h.literalPos_ge
    unfold PrologueSize at hCode
    unfold ImulRcpLiteralsEnd at hLiteral
    omega
  literalPos_le := h.literalPos_le
  literalPos_aligned := h.literalPos_aligned
  literals_le := h.literals_le
  codePos_aligned := h.codePos_aligned
  regChanged_le := h.regChanged_le
  regChanged_aligned := h.regChanged_aligned

theorem InRegions.step {k : Nat} {em em' : Emitter} (h : InRegions k em) (hk : k < 256)
    (hStep : Advances em em') : InRegions (k + 1) em' := by
  obtain ⟨w, hw, hPos⟩ := hStep.words
  obtain ⟨hGe, hLe, hLitGe, hLitLe, hLitAligned, hLiterals, hAligned, hChanged, hChangedAligned⟩ := h
  have hEnd : ImulRcpLiteralsEnd = 49728 := rfl
  have hLiteral := hStep.literalPos
  refine ⟨by omega, by omega, by omega, by omega, by omega, hStep.literals_le hLiterals, by omega,
    fun r => ?_, fun r => ?_⟩
  · have := hChanged r
    rcases hStep.regChanged r with hr | hr
    · rw [hr]
      omega
    · exact Nat.le_of_eq hr
  · have := hChangedAligned r
    rcases hStep.regChanged r with hr | hr <;> (rw [hr]; omega)

/-- **The regions stay apart along the whole loop.** -/
theorem inRegions_emitAll (program : Program) (order : List Nat) {k : Nat} {em : Emitter}
    (h : InRegions k em) (hRoom : k + order.length ≤ 256) :
    InRegions (k + order.length) (emitAll program order em) := by
  induction order generalizing k em with
  | nil => exact h
  | cons idx rest ih =>
    rw [List.length_cons] at hRoom ⊢
    have hStep := h.step (by omega)
      (emitInstruction_advances (instrAt program.programBuffer idx) em)
    have hRest := ih hStep (by omega)
    rwa [show k + 1 + rest.length = k + (rest.length + 1) by omega] at hRest

/-! ## Offsets -/

/-- A branch or load at `pos` reaches `target` with a signed field of `bits` bits
that counts words. -/
def Encodes (bits pos target : Nat) : Prop :=
  ∃ offset : Int, (target : Int) = pos + 4 * offset ∧ -2 ^ (bits - 1) ≤ offset ∧
    offset < 2 ^ (bits - 1)

theorem encodes_of_aligned {bits pos target : Nat} (hPos : pos % 4 = 0) (hTarget : target % 4 = 0)
    (hBits : 19 ≤ bits) (hPosLt : pos < 2 ^ 19) (hTargetLt : target < 2 ^ 19) :
    Encodes bits pos target := by
  have hPow : (2 : Int) ^ 18 ≤ 2 ^ (bits - 1) :=
    pow_le_pow_right₀ (by norm_num) (by omega)
  refine ⟨((target : Int) - pos) / 4, by omega, ?_, ?_⟩
  · have hLow : -2 ^ 18 ≤ ((target : Int) - pos) / 4 := by omega
    omega
  · have hHigh : ((target : Int) - pos) / 4 < 2 ^ 18 := by omega
    omega

/-- The handler of `IMUL_RCP` emits a load: the reciprocal is neither trivial nor
held in a register. -/
def LoadsReciprocal (instr : Instruction) (em : Emitter) : Prop :=
  instr.type = .imulRcp ∧ ¬(instr.imm32 &&& (instr.imm32 - 1) == 0) = true ∧
    ¬(ImulRcpLiteralsEnd - em.literalPos) / 8 < 12

/-- The position-dependent words of one instruction: each reaches its target and
decodes to an instruction that does. -/
structure OffsetsFit (instr : Instruction) (em : Emitter) : Prop where
  load : LoadsReciprocal instr em →
    Encodes 19 em.codePos (em.literalPos - 8) ∧
      decode em.codePos ((emitInstruction instr em).code em.codePos) =
        some (.ldrLit 20 (em.literalPos - 8))
  branch : instr.type = .cbranch → ∃ pos, pos + 4 = (emitInstruction instr em).codePos ∧
    Encodes 26 pos (em.regChangedOffset (regOf instr.dst)) ∧
      decode pos ((emitInstruction instr em).code pos) =
        some (.b (em.regChangedOffset (regOf instr.dst)))

theorem InRegions.offsetsFit {k : Nat} {em : Emitter} (h : InRegions k em) (hk : k < 256)
    (instr : Instruction) : OffsetsFit instr em := by
  have hReady := h.ready (Nat.le_of_lt hk)
  have hRoom := hReady.room
  have hEnd : ImulRcpLiteralsEnd = 49728 := rfl
  have hLit := h.literalPos_le
  have hLitAligned := h.literalPos_aligned
  have hAligned := h.codePos_aligned
  refine ⟨fun ⟨hType, hSkip, hHeld⟩ => ⟨?_, ?_⟩, fun hType => ?_⟩
  · exact encodes_of_aligned hAligned (by omega) (by omega) (by omega) (by omega)
  · have hEmits := hImulRcp_emits_ldr hReady hSkip hHeld
    have hEngine : emitInstruction instr em = JitCompilerA64.hImulRcp instr em := by
      rw [emitInstruction, hType]
      rfl
    rw [hEngine]
    exact hEmits.decoded 0 (by simp)
  · have hEngine : emitInstruction instr em = JitCompilerA64.hCbranch instr em := by
      rw [emitInstruction, hType]
      rfl
    have hEmits : Emits _ (JitCompilerA64.hCbranch instr em) _ := hCbranch_rest hReady
    obtain ⟨w, hw, hStart⟩ := ((Grows.refl em).addImmediate (dstReg instr) (dstReg instr)
      (branchImm instr)).words
    have hPos := hEmits.codePos_eq
    have hBack := h.regChanged_le (regOf instr.dst)
    have hBackAligned := h.regChanged_aligned (regOf instr.dst)
    rw [hEngine]
    refine ⟨_, ?_, ?_, hEmits.decoded 2 (by simp)⟩
    · rw [hPos]
      rfl
    · exact encodes_of_aligned (by omega) hBackAligned (by omega) (by omega) (by omega)

theorem emitExit_fits {em : Emitter} (h : InRegions 256 em) (readReg2 readReg3 : Fin 8)
    (exit : Exit) :
    (emitExit readReg2 readReg3 exit em).codePos ≤ (emitExit readReg2 readReg3 exit em).literalPos ∧
      (emitExit readReg2 readReg3 exit em).num32bitLiterals ≤ 64 ∧
      Encodes 26 (em.codePos + 4) exit.label ∧
      decode (em.codePos + 4) ((emitExit readReg2 readReg3 exit em).code (em.codePos + 4)) =
        some (.b exit.label) := by
  have hCode := h.codePos_le
  have hPrologue : PrologueSize = 480 := rfl
  have hRoom := (h.ready (Nat.le_refl _)).room
  have hAligned := h.codePos_aligned
  have hLabel : exit.label % 4 = 0 ∧ 49984 ≤ exit.label ∧ exit.label < 2 ^ 16 := by
    cases exit <;> decide
  obtain ⟨hLabelAligned, hLabelGe, hLabelLt⟩ := hLabel
  have hOffset : ((u32 exit.label - u32 (em.codePos + 4)) / 4).toNat =
      (exit.label - (em.codePos + 4)) / 4 := by
    have hSub : (u32 exit.label - u32 (em.codePos + 4)).toNat = exit.label - (em.codePos + 4) := by
      rw [BitVec.toNat_sub_of_le, u32_toNat (by omega), u32_toNat (by omega)]
      rw [BitVec.le_def, u32_toNat (by omega), u32_toNat (by omega)]
      omega
    rw [BitVec.toNat_udiv, hSub]
    rfl
  have hTarget : branchTarget (em.codePos + 4) ((exit.label - (em.codePos + 4)) / 4) 26 =
      exit.label := by
    rw [branchTarget, if_pos (by omega)]
    omega
  have hDecode := @decode_b (em.codePos + 4) ((u32 exit.label - u32 (em.codePos + 4)) / 4)
    (by rw [hOffset]; omega)
  rw [hOffset, hTarget] at hDecode
  refine ⟨?_, h.literals_le, ?_, ?_⟩
  · change em.codePos + 4 + 4 ≤ em.literalPos
    omega
  · exact encodes_of_aligned (by omega) hLabelAligned (by omega) (by omega) (by omega)
  · have hWord : (emitExit readReg2 readReg3 exit em).code (em.codePos + 4) =
        ARMV8A.B ||| (u32 exit.label - u32 (em.codePos + 4)) / 4 := Function.update_self ..
    rw [hWord]
    exact hDecode

/-! ## The regions -/

theorem mainOrder_length (program : Program) (useDagScheduler : Bool) (budget : Int) :
    (mainOrder program useDagScheduler budget).length = 256 := by
  unfold mainOrder
  split
  · rw [scheduleProgramDag_eq, List.length_range, program.getSize]
  · rw [(scheduleProgram_keepsOrder program.programBuffer budget).perm.length_eq,
      List.length_range, program.getSize]

/-- The emitter when the first `k` instructions of the order have been emitted. -/
def emitterAt (program : Program) (useDagScheduler : Bool) (budget : Int)
    (template : Nat → BitVec 32) (k : Nat) : Emitter :=
  emitAll program ((mainOrder program useDagScheduler budget).take k) (initialEmitter template)

theorem inRegions_emitterAt (program : Program) (useDagScheduler : Bool) (budget : Int)
    (template : Nat → BitVec 32) {k : Nat} (hk : k ≤ 256) :
    InRegions k (emitterAt program useDagScheduler budget template k) := by
  have hLength := mainOrder_length program useDagScheduler budget
  have hTake : ((mainOrder program useDagScheduler budget).take k).length = k := by
    rw [List.length_take, hLength, Nat.min_eq_left hk]
  have hRun := inRegions_emitAll program ((mainOrder program useDagScheduler budget).take k)
    (inRegions_initial template) (by omega)
  rwa [hTake, Nat.zero_add] at hRun

theorem emitterAt_last (program : Program) (useDagScheduler : Bool) (budget : Int)
    (template : Nat → BitVec 32) :
    emitterAt program useDagScheduler budget template 256 =
      emitPrologueMix program useDagScheduler budget template := by
  have hLength := mainOrder_length program useDagScheduler budget
  rw [emitterAt, emitPrologueMix, List.take_of_length_le (by omega)]

/-- **Emitted code stays in its region.** At every point of the emission the code
ends below the reciprocals and at most 64 immediates are pooled, every load and
branch reaches its target, and so it is behind the last word; the dataset-item
function fits the room behind the template, so the abort is not reached. -/
theorem emitted_code_fits (program : Program) (useDagScheduler : Bool) (budget : Int)
    (template : Nat → BitVec 32) (readReg2 readReg3 : Fin 8) (exit : Exit)
    (programs : Fin kRandomXCacheAccesses → SuperscalarProgram)
    (reciprocalCache : List (BitVec 64)) (b : Buffer) :
    (∀ k, k ≤ 256 →
      (emitterAt program useDagScheduler budget template k).codePos ≤
          (emitterAt program useDagScheduler budget template k).literalPos ∧
        (emitterAt program useDagScheduler budget template k).num32bitLiterals ≤ 64) ∧
      (∀ k, k < 256 → OffsetsFit
        (instrAt program.programBuffer ((mainOrder program useDagScheduler budget).getD k 0))
        (emitterAt program useDagScheduler budget template k)) ∧
      (let em := emitPrologueMix program useDagScheduler budget template
       let final := emitExit readReg2 readReg3 exit em
       final.codePos ≤ final.literalPos ∧ final.num32bitLiterals ≤ 64 ∧
         Encodes 26 (em.codePos + 4) exit.label ∧
         decode (em.codePos + 4) (final.code (em.codePos + 4)) = some (.b exit.label)) ∧
      4 * (calcDatasetItemSlots (List.ofFn programs) reciprocalCache).length ≤
        CalcDatasetItemSize ∧
      generateSuperscalarHash (List.ofFn programs) reciprocalCache b ≠ none := by
  have hAll {k : Nat} (hk : k ≤ 256) :=
    inRegions_emitterAt program useDagScheduler budget template hk
  refine ⟨fun k hk => ?_, fun k hk => (hAll (Nat.le_of_lt hk)).offsetsFit hk _, ?_,
    calcDatasetItemSlots_size programs reciprocalCache, ?_⟩
  · have hRoom := ((hAll hk).ready hk).room
    exact ⟨by omega, (hAll hk).literals_le⟩
  · have hLast := hAll (Nat.le_refl 256)
    rw [emitterAt_last] at hLast
    exact emitExit_fits hLast readReg2 readReg3 exit
  · rw [generateSuperscalarHash_eq]
    exact Option.some_ne_none _

end ArmRx.Jit
