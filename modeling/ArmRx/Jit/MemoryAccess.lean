import ArmRx.Jit.Emits

/-!
# Scratchpad addresses of the emitted code

For each memory instruction, the emitted words access one address. It is
compared with the offset the interpreter computes.

* `accesses_hMemOp`, `accesses_hIstore` — integer loads and stores access the
  interpreter's offset whatever `x19` and `x20` held.
* `accesses_hFloat` — floating-point loads do so only when the masked
  immediate is not zero: otherwise the address is taken from the previous
  content of `x19`.
-/

namespace ArmRx.Jit

open ArmRx.Vm ArmRx.A64

/-! ## Offsets -/

/-- The offset the interpreter accesses. -/
def accessOffset (instr : Instruction) (vm : VmState) : Nat :=
  if instr.type = .istore then (bytecodeOf instr).storeAddress vm
  else (bytecodeOf instr).getScratchpadAddress vm

/-- The level a memory operand is confined to, as a number of bits. -/
def levelBits (instr : Instruction) : Nat := if instr.getModMem ≠ 0 then 14 else 18

theorem levelBits_cases (instr : Instruction) : levelBits instr = 14 ∨ levelBits instr = 18 := by
  unfold levelBits
  split <;> simp

/-- `n` address bits, aligned to eight bytes. -/
def offsetMask (w n : Nat) : BitVec w := BitVec.ofNat w ((2 ^ (n - 3) - 1) * 8)

theorem modMemMask_eq (instr : Instruction) :
    modMemMask instr = offsetMask 32 (levelBits instr) := by
  unfold modMemMask levelBits
  split <;> rfl

theorem maskedImm_toNat (instr : Instruction) :
    (maskedImm instr).toNat = instr.imm32.toNat % 2 ^ levelBits instr := by
  unfold maskedImm levelBits
  split
  · exact and_lowMask_toNat instr.imm32 (n := 14) (by omega)
  · exact and_lowMask_toNat instr.imm32 (n := 18) (by omega)

theorem maskedImm_lt (instr : Instruction) : (maskedImm instr).toNat < 2 ^ 24 := by
  rw [maskedImm_toNat]
  rcases levelBits_cases instr with h | h <;> rw [h] <;> omega

theorem signExtend2sCompl_low (imm : BitVec 32) : (signExtend2sCompl imm).setWidth 32 = imm := by
  apply BitVec.eq_of_toNat_eq
  rw [BitVec.toNat_setWidth, signExtend2sCompl, signExtend_toNat]
  have := imm.isLt
  split <;> omega

/-- Adding the masked immediate in 64 bits and adding the whole immediate in
32 bits agree under the mask. -/
theorem offset_eq {n : Nat} (hn : n = 14 ∨ n = 18 ∨ n = 21) (a : BitVec 64) (imm imm' : BitVec 32)
    (hImm : imm'.toNat = imm.toNat % 2 ^ n) :
    (a + imm'.signExtend 64) &&& offsetMask 64 n =
      BitVec.ofNat 64 ((a.setWidth 32 + (signExtend2sCompl imm).setWidth 32) &&&
        offsetMask 32 n).toNat := by
  have hMask := and_alignedMask_toNat (a + imm'.signExtend 64) (n - 3) (by omega)
  have hMask' := and_alignedMask_toNat
    (a.setWidth 32 + (signExtend2sCompl imm).setWidth 32) (n - 3) (by omega)
  apply BitVec.eq_of_toNat_eq
  rw [offsetMask, offsetMask, hMask, hMask', BitVec.toNat_ofNat, BitVec.toNat_add,
    BitVec.toNat_add, signExtend2sCompl_low, signExtend_toNat, BitVec.toNat_setWidth, hImm]
  rcases hn with rfl | rfl | rfl
  all_goals
    simp only [Nat.reduceSub, Nat.reduceAdd]
    rw [if_neg (by omega)]
    omega

/-! ## Integer loads -/

/-- The address of an integer load with `src == dst`, in units of eight bytes. -/
def fixedIndex (instr : Instruction) : BitVec 32 := (instr.imm32 &&& kScratchpadL3Mask) >>> 3

/-- The instructions of `emitMemLoad`. -/
def memLoadInsns (num dst src : Nat) (instr : Instruction) : List Insn :=
  let mask := offsetMask 64 (levelBits instr)
  if src ≠ dst then
    if maskedImm instr ≠ 0 then
      addInsns num 20 src (maskedImm instr) ++ [.andImm 20 20 mask] ++ [.ldrReg 20 2 20 0]
    else [.andImm 20 src mask, .ldrReg 20 2 20 0]
  else movInsns num 20 (fixedIndex instr) ++ [.ldrReg 20 2 20 3]

theorem bitmask_eq_offsetMask {n : Nat} (hn : n = 14 ∨ n = 18 ∨ n = 21) :
    bitmask 64 (n - 4 + 1) 61 = offsetMask 64 n := by
  rcases hn with rfl | rfl | rfl <;> decide

theorem decode_andLevel {pc d m n bytes : Nat} (hd : d < 32) (hm : m < 32)
    (hn : n = 14 ∨ n = 18 ∨ n = 21) (hBytes : bytes = 2 ^ n) :
    decode pc (ARMV8A.AND_IMM_SHIFT ||| u32 d ||| u32 m <<< 5 |||
      u32 (Nat.log2 bytes - 4) <<< 10) = some (.andImm d m (offsetMask 64 n)) := by
  rw [hBytes, Nat.log2_two_pow, ← bitmask_eq_offsetMask hn]
  exact decode_andImm hd hm (by omega)

theorem decode_andInstr {pc d n : Nat} (instr : Instruction) (hd : d < 32) (hn : n < 32) :
    decode pc (andInstr instr d n) = some (.andImm d n (offsetMask 64 (levelBits instr))) := by
  refine decode_andLevel hd hn ((levelBits_cases instr).imp_right .inl) ?_
  unfold levelBits
  split <;> rfl

section Loads

variable {em : Emitter} {instr : Instruction} {dst src : Nat}

theorem emitMemLoad_emits (hSrc : src < 32) (hRoom : em.codePos + 20 ≤ em.literalPos)
    (hEnd : em.literalPos ≤ ImulRcpLiteralsEnd) :
    Emits em (emitMemLoad dst src instr em) (memLoadInsns em.num32bitLiterals dst src instr) := by
  unfold emitMemLoad memLoadInsns
  dsimp only
  split
  · split
    · have hAdd : Emits em (emitAddImmediate 20 src (maskedImm instr) em) _ :=
        emitAddImmediate_emits (by omega) hSrc (by omega) hEnd
      have hLen := addInsns_length_le em.num32bitLiterals 20 src (maskedImm instr)
      have hPos := hAdd.codePos_eq
      exact (hAdd.emit32 (by simp; omega) (decode_andInstr instr (by omega) (by omega))).emit32
        (by simp; omega) rfl
    · exact ((Emits.refl em).emit32 (by omega) (decode_andInstr instr (by omega) hSrc)).emit32
        (by simp; omega) rfl
  · have hMov : Emits em (emitMovImmediate 20 (fixedIndex instr) em) _ :=
      emitMovImmediate_emits (by omega) (by omega) hEnd
    have hLen := movInsns_length_le em.num32bitLiterals 20 (fixedIndex instr)
    have hPos := hMov.codePos_eq
    exact hMov.emit32 (by simp; omega) rfl

@[simp] theorem emitMemLoad_literalPos :
    (emitMemLoad dst src instr em).literalPos = em.literalPos := by
  unfold emitMemLoad
  dsimp only
  split
  · split <;> simp
  · simp

theorem memLoadInsns_length_le (num dst src : Nat) (instr : Instruction) :
    (memLoadInsns num dst src instr).length ≤ 5 := by
  unfold memLoadInsns
  have hAdd := addInsns_length_le num 20 src (maskedImm instr)
  have hMov := movInsns_length_le num 20 (fixedIndex instr)
  dsimp only
  split
  · split
    · simp
      omega
    · simp
  · simp
    omega

variable {fu : FloatUnit} {code : Code} {num : Nat} {s : State}

theorem accesses_memLoadInsns (hSrc : src ≠ 31) (hSrc' : src ≠ 20)
    (hLane : src = dst → ¬ fixedIndex instr < 0x10000 → num < 64 →
      laneS (s.v (num / 4)) (num % 4) = fixedIndex instr) :
    accesses fu code (memLoadInsns num dst src instr) s =
      [s.x 2 + if src ≠ dst then
        (s.x src + (maskedImm instr).signExtend 64) &&& offsetMask 64 (levelBits instr)
        else (fixedIndex instr).signExtend 64 <<< 3] := by
  unfold memLoadInsns
  dsimp only
  by_cases hNe : src ≠ dst
  · rw [if_pos hNe, if_pos hNe]
    by_cases hImm : maskedImm instr ≠ 0
    · obtain ⟨t, hAdd⟩ := execAll_addInsns fu code (s := s) (show 20 ≠ 31 by omega) hSrc hSrc'
        (fun hBig => absurd (BitVec.lt_def.mpr (maskedImm_lt instr)) hBig)
      rw [if_pos hImm, List.append_assoc, accesses_append, accesses_eq_nil addInsns_address, hAdd]
      simp [accesses_cons, Insn.address, exec, State.getX, State.getXsp]
    · rw [if_neg hImm]
      have hZero : maskedImm instr = 0 := not_not.mp hImm
      simp [accesses_cons, Insn.address, exec, State.getX, State.getXsp, hSrc, hZero]
  · rw [if_neg hNe, if_neg hNe, accesses_append, accesses_eq_nil movInsns_address,
      execAll_movInsns fu code (by omega) (hLane (not_not.mp hNe))]
    simp [accesses_cons, Insn.address, State.getX, State.getXsp]

theorem fixedIndex_toNat (instr : Instruction) :
    (fixedIndex instr).toNat = instr.imm32.toNat % 2 ^ 21 / 8 := by
  have hMask := and_alignedMask_toNat instr.imm32 18 (by omega)
  rw [fixedIndex, BitVec.toNat_ushiftRight, Nat.shiftRight_eq_div_pow,
    show kScratchpadL3Mask = BitVec.ofNat 32 ((2 ^ 18 - 1) * 8) from by decide, hMask]
  omega

/-- The offset of an integer load, as the emitted code computes it. -/
theorem loadOffset_eq (vm : VmState) (type : InstructionType) :
    BitVec.ofNat 64 ((compileMemOp instr type).getScratchpadAddress vm) =
      if srcReg instr ≠ dstReg instr then
        (vm.r (regOf instr.src) + (maskedImm instr).signExtend 64) &&&
          offsetMask 64 (levelBits instr)
      else (fixedIndex instr).signExtend 64 <<< 3 := by
  have hReg : srcReg instr = dstReg instr ↔ regOf instr.src = regOf instr.dst := IntRegMap_inj
  unfold compileMemOp InstructionByteCode.getScratchpadAddress
  by_cases hNe : regOf instr.src ≠ regOf instr.dst
  · rw [if_pos (mt hReg.mp hNe), offset_eq ((levelBits_cases instr).imp_right .inl) _ instr.imm32 _
      (maskedImm_toNat instr)]
    simp only [if_pos hNe, InstructionByteCode.readIsrc, modMemMask_eq]
  · have hSum : (0 : BitVec 64).setWidth 32 + (signExtend2sCompl instr.imm32).setWidth 32 =
        instr.imm32 := by
      rw [signExtend2sCompl_low]
      simp
    have hMask := and_alignedMask_toNat instr.imm32 18 (by omega)
    have hIdx := fixedIndex_toNat instr
    rw [if_neg (not_not.mpr (hReg.mpr (not_not.mp hNe)))]
    simp only [if_neg hNe, InstructionByteCode.readIsrc, hSum]
    apply BitVec.eq_of_toNat_eq
    rw [show kScratchpadL3Mask = BitVec.ofNat 32 ((2 ^ 18 - 1) * 8) from by decide, hMask,
      BitVec.toNat_ofNat, BitVec.toNat_shiftLeft, signExtend_toNat, hIdx, if_neg (by omega),
      Nat.shiftLeft_eq]

end Loads

/-! ## Floating-point loads -/

/-- The instructions of `emitMemLoadFP`. -/
def memLoadFPInsns (num src : Nat) (instr : Instruction) : List Insn :=
  (if maskedImm instr ≠ 0 then addInsns num 19 src (maskedImm instr) else []) ++
    [.andImm 19 19 (offsetMask 64 (levelBits instr)), .ldrDReg 28 2 19, .sshll 28 28, .scvtf 28 28]

section FloatLoads

variable {em : Emitter} {instr : Instruction} {src : Nat}

theorem emitMemLoadFP_emits (hSrc : src < 32) (hRoom : em.codePos + 28 ≤ em.literalPos)
    (hEnd : em.literalPos ≤ ImulRcpLiteralsEnd) :
    Emits em (emitMemLoadFP src instr em) (memLoadFPInsns em.num32bitLiterals src instr) := by
  have hBase : Emits em (if maskedImm instr ≠ 0 then
      emitAddImmediate 19 src (maskedImm instr) em else em)
      (if maskedImm instr ≠ 0 then
        addInsns em.num32bitLiterals 19 src (maskedImm instr) else []) := by
    split
    · exact emitAddImmediate_emits (by omega) hSrc (by omega) hEnd
    · exact Emits.refl em
  have hPos : (if maskedImm instr ≠ 0 then
      emitAddImmediate 19 src (maskedImm instr) em else em).codePos ≤ em.codePos + 12 := by
    have hLen := addInsns_length_le em.num32bitLiterals 19 src (maskedImm instr)
    rw [hBase.codePos_eq]
    split
    · omega
    · simp
  have hLit : (if maskedImm instr ≠ 0 then
      emitAddImmediate 19 src (maskedImm instr) em else em).literalPos = em.literalPos := by
    split <;> simp
  unfold emitMemLoadFP memLoadFPInsns
  dsimp only
  generalize (if maskedImm instr ≠ 0 then
    emitAddImmediate 19 src (maskedImm instr) em else em) = em' at hBase hPos hLit ⊢
  have hAnd := hBase.emit32 (by omega) (decode_andInstr instr (d := 19) (n := 19)
    (by omega) (by omega))
  have hLdr := hAnd.emit32 (w := ARMV8A.LDR_64_SCALAR ||| u32 19 <<< 16 ||| u32 2 <<< 5 ||| u32 28)
    (i := .ldrDReg 28 2 19) (by simp; omega) rfl
  have hSxtl := hLdr.emit32 (w := 0x0F20A400#32 ||| u32 28 <<< 5 ||| u32 28)
    (i := .sshll 28 28) (by simp; omega) rfl
  have hScvtf := hSxtl.emit32 (w := 0x4E61D800#32 ||| u32 28 ||| u32 28 <<< 5)
    (i := .scvtf 28 28) (by simp; omega) rfl
  simpa only [List.append_assoc, List.cons_append, List.nil_append] using hScvtf

@[simp] theorem emitMemLoadFP_literalPos :
    (emitMemLoadFP src instr em).literalPos = em.literalPos := by
  unfold emitMemLoadFP
  dsimp only
  split <;> simp

theorem memLoadFPInsns_length_le (num src : Nat) (instr : Instruction) :
    (memLoadFPInsns num src instr).length ≤ 7 := by
  have hLen := addInsns_length_le num 19 src (maskedImm instr)
  unfold memLoadFPInsns
  split
  · simp
    omega
  · simp

variable {fu : FloatUnit} {code : Code} {num : Nat} {s : State}

/-- The address comes from `src` when the masked immediate is not zero, and
from the previous content of `x19` when it is. -/
theorem accesses_memLoadFPInsns (hSrc : src ≠ 31) (hSrc' : src ≠ 20) :
    accesses fu code (memLoadFPInsns num src instr) s =
      [s.x 2 + ((if maskedImm instr ≠ 0 then s.x src + (maskedImm instr).signExtend 64
        else s.x 19) &&& offsetMask 64 (levelBits instr))] := by
  unfold memLoadFPInsns
  by_cases hImm : maskedImm instr ≠ 0
  · obtain ⟨t, hAdd⟩ := execAll_addInsns fu code (s := s) (show 19 ≠ 31 by omega) hSrc hSrc'
      (fun hBig => absurd (BitVec.lt_def.mpr (maskedImm_lt instr)) hBig)
    rw [if_pos hImm, if_pos hImm, accesses_append, accesses_eq_nil addInsns_address, hAdd]
    simp [accesses_cons, Insn.address, exec, State.getX, State.getXsp]
  · rw [if_neg hImm, if_neg hImm]
    simp [accesses_cons, Insn.address, exec, State.getX, State.getXsp]

end FloatLoads

/-! ## Stores -/

/-- The level `ISTORE` is confined to: L3 from condition 14 on. -/
def storeBits (instr : Instruction) : Nat := if instr.getModCond < 14 then levelBits instr else 21

theorem storeBits_cases (instr : Instruction) :
    storeBits instr = 14 ∨ storeBits instr = 18 ∨ storeBits instr = 21 := by
  unfold storeBits
  split
  · exact (levelBits_cases instr).imp_right .inl
  · exact .inr (.inr rfl)

/-- The masked immediate of `ISTORE`. -/
def storeImm (instr : Instruction) : BitVec 32 := instr.imm32 &&& u32 (2 ^ storeBits instr - 1)

theorem storeImm_toNat (instr : Instruction) :
    (storeImm instr).toNat = instr.imm32.toNat % 2 ^ storeBits instr := by
  have hBits := storeBits_cases instr
  exact and_lowMask_toNat instr.imm32 (by omega)

/-- The instructions of `ISTORE`. -/
def storeInsns (num dst src : Nat) (instr : Instruction) : List Insn :=
  addInsns num 20 dst (storeImm instr) ++
    [.andImm 20 20 (offsetMask 64 (storeBits instr)), .strReg src 2 20]

section Stores

variable {em : Emitter} {instr : Instruction}

theorem hIstore_emits (hRoom : em.codePos + 20 ≤ em.literalPos)
    (hEnd : em.literalPos ≤ ImulRcpLiteralsEnd) :
    Emits em (JitCompilerA64.hIstore instr em)
      (storeInsns em.num32bitLiterals (dstReg instr) (srcReg instr) instr) := by
  have hDst := IntRegMap_range (regOf instr.dst)
  have hSrc := IntRegMap_range (regOf instr.src)
  have hBytes : (if instr.getModCond < 14 then
      if instr.getModMem ≠ 0 then RANDOMX_SCRATCHPAD_L1 else RANDOMX_SCRATCHPAD_L2
      else RANDOMX_SCRATCHPAD_L3) = 2 ^ storeBits instr := by
    unfold storeBits levelBits
    split
    · split <;> rfl
    · rfl
  have hAdd : Emits em (emitAddImmediate 20 (dstReg instr) (storeImm instr) em) _ :=
    emitAddImmediate_emits (by omega) (by unfold dstReg; omega) (by omega) hEnd
  have hLen := addInsns_length_le em.num32bitLiterals 20 (dstReg instr) (storeImm instr)
  have hPos := hAdd.codePos_eq
  have hAnd := hAdd.emit32 (by simp; omega)
    (decode_andLevel (d := 20) (m := 20) (by omega) (by omega) (storeBits_cases instr) rfl)
  have hStr := hAnd.emit32 (by simp; omega) (decode_strReg (d := srcReg instr)
    (by unfold srcReg; omega))
  unfold JitCompilerA64.hIstore storeInsns
  dsimp only
  rw [hBytes]
  simp only [List.append_assoc, List.cons_append, List.nil_append] at hStr
  exact hStr

theorem accesses_storeInsns {fu : FloatUnit} {code : Code} {num dst src : Nat} {s : State}
    (hDst : dst ≠ 31) (hDst' : dst ≠ 20) :
    accesses fu code (storeInsns num dst src instr) s =
      [s.x 2 + ((s.x dst + (storeImm instr).signExtend 64) &&&
        offsetMask 64 (storeBits instr))] := by
  have hLt : (storeImm instr).toNat < 2 ^ 24 := by
    rw [storeImm_toNat]
    rcases storeBits_cases instr with h | h | h <;> rw [h] <;> omega
  obtain ⟨t, hAdd⟩ := execAll_addInsns fu code (s := s) (show 20 ≠ 31 by omega) hDst hDst'
    (fun hBig => absurd (BitVec.lt_def.mpr hLt) hBig)
  rw [storeInsns, accesses_append, accesses_eq_nil addInsns_address, hAdd]
  simp [accesses_cons, Insn.address, exec, State.getX, State.getXsp]

/-- The offset of a store, as the emitted code computes it. -/
theorem storeOffset_eq (vm : VmState) (h : instr.type = .istore) :
    BitVec.ofNat 64 ((bytecodeOf instr).storeAddress vm) =
      (vm.r (regOf instr.dst) + (storeImm instr).signExtend 64) &&&
        offsetMask 64 (storeBits instr) := by
  have hMask : (storeMask instr).setWidth 64 = offsetMask 64 (storeBits instr) := by
    unfold storeMask storeBits modMemMask levelBits
    split
    · split <;> decide
    · decide
  have hCode : bytecodeOf instr = (hIstore instr 0 fun _ => -1).1 := by
    rw [bytecodeOf, compileInstruction, h]
    rfl
  rw [hCode]
  simp only [hIstore, InstructionByteCode.storeAddress, BitVec.ofNat_toNat, BitVec.setWidth_eq,
    hMask]
  have hBits := storeBits_cases instr
  have hLow : ((storeImm instr).signExtend 64).toNat = instr.imm32.toNat % 2 ^ storeBits instr := by
    rw [signExtend_toNat, storeImm_toNat]
    rcases hBits with h | h | h <;> rw [h, if_neg (by omega)]
  have hHigh := signExtend_toNat instr.imm32
  have hImm := instr.imm32.isLt
  apply BitVec.eq_of_toNat_eq
  rw [offsetMask, and_alignedMask_toNat _ _ (by omega), and_alignedMask_toNat _ _ (by omega),
    Nat.sub_add_cancel (by omega), BitVec.toNat_add, BitVec.toNat_add, hLow, signExtend2sCompl]
  generalize (instr.imm32.signExtend 64).toNat = e at hHigh ⊢
  rcases hBits with h | h | h <;> rw [h] <;> split at hHigh <;> omega

end Stores

/-! ## Handlers -/

/-- The floating-point loads. -/
def isFloatMem : InstructionType → Bool
  | .faddM | .fsubM | .fdivM => true
  | _ => false

/-- The address the emitted code of a memory instruction accesses: the
interpreter's offset, or what `x19` held before. -/
def emittedAddress (instr : Instruction) (vm : VmState) (s : State) : BitVec 64 :=
  s.x 2 +
    if isFloatMem instr.type = true ∧ maskedImm instr = 0 then
      s.x 19 &&& offsetMask 64 (levelBits instr)
    else BitVec.ofNat 64 (accessOffset instr vm)

/-- The instructions of a memory instruction access one address. -/
def AccessesOne (fu : FloatUnit) (code : Code) (instr : Instruction) (em : Emitter) : Prop :=
  ∃ is, Emits em (emitInstruction instr em) is ∧
    ∀ s vm, PoolsLoaded (emitInstruction instr em) s → (∀ i, s.x (IntRegMap i) = vm.r i) →
      accesses fu code is s = [emittedAddress instr vm s]

section Handlers

variable {fu : FloatUnit} {code : Code} {em : Emitter} {instr : Instruction}

theorem regOp_address (o : RegOp) (d n m : Nat) (s : State) : (o.insn d n m).address s = none := by
  cases o <;> rfl

/-- A load with `src == dst` finds its index in the lane it was given. -/
theorem PoolsLoaded.loadLane {s : State} {em' : Emitter} {js : List Insn} {dst src : Nat}
    (h : PoolsLoaded em' s) (hEmits : Emits (emitMemLoad dst src instr em) em' js)
    (hRoom : em.codePos + 20 ≤ em.literalPos) (hEnd : em.literalPos ≤ ImulRcpLiteralsEnd)
    (hEq : src = dst) :
    ¬ fixedIndex instr < 0x10000 → em.num32bitLiterals < 64 →
      laneS (s.v (em.num32bitLiterals / 4)) (em.num32bitLiterals % 4) = fixedIndex instr := by
  have hMov : Emits em (emitMovImmediate 20 (fixedIndex instr) em) _ :=
    emitMovImmediate_emits (by omega) (by omega) hEnd
  have hLen := movInsns_length_le em.num32bitLiterals 20 (fixedIndex instr)
  have hPos := hMov.codePos_eq
  have hLdr : Emits (emitMovImmediate 20 (fixedIndex instr) em) (emitMemLoad dst src instr em)
      ([] ++ [.ldrReg 20 2 20 3]) := by
    rw [emitMemLoad, if_neg (not_not.mpr hEq)]
    exact (Emits.refl _).emit32 (by simp; omega) rfl
  exact h.movLane (hLdr.trans hEmits) hEnd

theorem hMemOp_accessesOne (o : RegOp) (type : InstructionType) (hEm : em.Ready)
    (hEngine : emitInstruction instr em = JitCompilerA64.hMemOp o.word instr em)
    (hCode : bytecodeOf instr = compileMemOp instr type) (hType : instr.type ≠ .istore)
    (hFloat : isFloatMem instr.type = false) : AccessesOne fu code instr em := by
  have hDst := dstReg_range instr
  have hSrc := srcReg_range instr
  have hRoom := hEm.room
  have hEnd := hEm.literalPos_le
  have hLoad : Emits em (emitMemLoad (dstReg instr) (srcReg instr) instr em) _ :=
    emitMemLoad_emits (by omega) (by omega) hEnd
  have hLen := memLoadInsns_length_le em.num32bitLiterals (dstReg instr) (srcReg instr) instr
  have hPos := hLoad.codePos_eq
  have hOp : Emits (emitMemLoad (dstReg instr) (srcReg instr) instr em) (emitInstruction instr em)
      ([] ++ [o.insn (dstReg instr) (dstReg instr) 20]) := by
    rw [hEngine]
    exact ((Emits.refl _).emit32 (by simp; omega)
      (decode_regOp o (by omega) (by omega) (by omega))).regChanged _
  refine ⟨_, hLoad.trans hOp, fun s vm hLoaded hRegs => ?_⟩
  have hSrcVal : s.x (srcReg instr) = vm.r (regOf instr.src) := hRegs _
  have hAddress : emittedAddress instr vm s =
      s.x 2 + BitVec.ofNat 64 ((compileMemOp instr type).getScratchpadAddress vm) := by
    rw [emittedAddress, if_neg (by simp [hFloat]), accessOffset, if_neg hType, hCode]
  rw [accesses_append, accesses_memLoadInsns (by omega) (by omega)
      (hLoaded.loadLane hOp (by omega) hEnd), hAddress, loadOffset_eq, hSrcVal,
    accesses_eq_nil (by simp [regOp_address]), List.append_nil]

theorem float_bytecode (hFloat : isFloatMem instr.type = true) :
    ∃ type fdst, bytecodeOf instr = (hFloatMem type fdst instr 0 fun _ => -1).1 := by
  unfold bytecodeOf compileInstruction
  cases hType : instr.type <;> simp only [hType, isFloatMem, Bool.false_eq_true] at hFloat
  · exact ⟨_, _, rfl⟩
  · exact ⟨_, _, rfl⟩
  · exact ⟨_, _, rfl⟩

/-- The offset of a floating-point load, as the emitted code computes it. -/
theorem accessOffset_float (vm : VmState) (hFloat : isFloatMem instr.type = true) :
    BitVec.ofNat 64 (accessOffset instr vm) =
      (vm.r (regOf instr.src) + (maskedImm instr).signExtend 64) &&&
        offsetMask 64 (levelBits instr) := by
  obtain ⟨type, fdst, hCode⟩ := float_bytecode hFloat
  have hType : instr.type ≠ .istore := fun h => by simp [h, isFloatMem] at hFloat
  rw [accessOffset, if_neg hType, hCode, offset_eq ((levelBits_cases instr).imp_right .inl) _ instr.imm32 _
    (maskedImm_toNat instr)]
  simp only [hFloatMem, InstructionByteCode.getScratchpadAddress, InstructionByteCode.readIsrc,
    modMemMask_eq]

theorem hFloat_accessesOne {em' : Emitter} {js : List Insn} (hEm : em.Ready)
    (hEngine : emitInstruction instr em = em')
    (hEmits : Emits (emitMemLoadFP (srcReg instr) instr em) em' js)
    (hJs : ∀ i ∈ js, ∀ s, i.address s = none)
    (hFloat : isFloatMem instr.type = true) : AccessesOne fu code instr em := by
  have hSrc := srcReg_range instr
  have hRoom := hEm.room
  have hLoad : Emits em (emitMemLoadFP (srcReg instr) instr em) _ :=
    emitMemLoadFP_emits (by omega) (by omega) hEm.literalPos_le
  refine ⟨_, hEngine ▸ hLoad.trans hEmits, fun s vm _ hRegs => ?_⟩
  have hSrcVal : s.x (srcReg instr) = vm.r (regOf instr.src) := hRegs _
  rw [accesses_append, accesses_memLoadFPInsns (by omega) (by omega), emittedAddress,
    accessOffset_float vm hFloat, hSrcVal, accesses_eq_nil hJs, List.append_nil]
  by_cases hImm : maskedImm instr = 0
  · rw [if_neg (not_not.mpr hImm), if_pos ⟨hFloat, hImm⟩]
  · rw [if_pos hImm, if_neg (fun h => hImm h.2)]

/-- Room behind a floating-point load. -/
theorem emitMemLoadFP_room (instr : Instruction) (hEm : em.Ready) :
    (emitMemLoadFP (srcReg instr) instr em).codePos + 20 ≤
      (emitMemLoadFP (srcReg instr) instr em).literalPos := by
  have hSrc := srcReg_range instr
  have hRoom := hEm.room
  have hLoad : Emits em (emitMemLoadFP (srcReg instr) instr em) _ :=
    emitMemLoadFP_emits (by omega) (by omega) hEm.literalPos_le
  have hLen := memLoadFPInsns_length_le em.num32bitLiterals (srcReg instr) instr
  rw [hLoad.codePos_eq, emitMemLoadFP_literalPos]
  omega

/-- `FDIV_M` masks the operand and divides. -/
theorem hFdivM_emits_rest (instr : Instruction) (hEm : em.Ready) :
    Emits (emitMemLoadFP (srcReg instr) instr em) (JitCompilerA64.hFdivM instr em)
      [.bifV 28 30 29, .fdivV ((fregOf instr.dst).val + 20) ((fregOf instr.dst).val + 20) 28] := by
  have hRoom := emitMemLoadFP_room instr hEm
  have hDst := (fregOf instr.dst).isLt
  have hReg : (fregOf instr.dst).val + 20 < 32 := by omega
  have hBif := (Emits.refl (emitMemLoadFP (srcReg instr) instr em)).emit32 (by omega)
    (decode_regOp .bifV (show 28 < 32 by omega) (show 30 < 32 by omega) (show 29 < 32 by omega))
  exact hBif.emit32 (by rw [emit32_codePos, emit32_literalPos]; omega)
    (decode_regOp .fdiv hReg hReg (show 28 < 32 by omega))

/-- **Every memory instruction's code accesses one address.** -/
theorem memory_accessesOne (hMem : instr.type.isMemory = true) (hEm : em.Ready) :
    AccessesOne fu code instr em := by
  have hRoom := emitMemLoadFP_room instr hEm
  have hFloatOp (o : RegOp) (d : Nat) (hd : d < 32) :=
    (Emits.refl (emitMemLoadFP (srcReg instr) instr em)).emit32 (by omega)
      (decode_regOp o hd hd (show 28 < 32 by omega))
  have hDst := (fregOf instr.dst).isLt
  have hBytecode : bytecodeOf instr = (kCompileHandlers instr.type instr 0 fun _ => -1).1 := rfl
  have hEngine : emitInstruction instr em = JitCompilerA64.engine instr.type instr em := rfl
  cases hType : instr.type <;> rw [hType] at hMem hBytecode hEngine <;>
    simp only [InstructionType.isMemory, Bool.false_eq_true] at hMem
  case iaddM =>
    exact hMemOp_accessesOne .add _ hEm hEngine hBytecode (by simp [hType]) (by rw [hType]; rfl)
  case isubM =>
    exact hMemOp_accessesOne .sub _ hEm hEngine hBytecode (by simp [hType]) (by rw [hType]; rfl)
  case imulM =>
    exact hMemOp_accessesOne .mul _ hEm hEngine hBytecode (by simp [hType]) (by rw [hType]; rfl)
  case imulhM =>
    exact hMemOp_accessesOne .umulh _ hEm hEngine hBytecode (by simp [hType]) (by rw [hType]; rfl)
  case ismulhM =>
    exact hMemOp_accessesOne .smulh _ hEm hEngine hBytecode (by simp [hType]) (by rw [hType]; rfl)
  case ixorM =>
    exact hMemOp_accessesOne .eor _ hEm hEngine hBytecode (by simp [hType]) (by rw [hType]; rfl)
  case faddM =>
    exact hFloat_accessesOne hEm hEngine (hFloatOp .fadd ((fregOf instr.dst).val + 16) (by omega))
      (by simp [regOp_address]) (by rw [hType]; rfl)
  case fsubM =>
    exact hFloat_accessesOne hEm hEngine (hFloatOp .fsub ((fregOf instr.dst).val + 16) (by omega))
      (by simp [regOp_address]) (by rw [hType]; rfl)
  case fdivM =>
    exact hFloat_accessesOne hEm hEngine (hFdivM_emits_rest instr hEm) (by simp [Insn.address])
      (by rw [hType]; rfl)
  case istore =>
    have hReg := dstReg_range instr
    have hEmRoom := hEm.room
    have hEmits : Emits em (emitInstruction instr em)
        (storeInsns em.num32bitLiterals (dstReg instr) (srcReg instr) instr) := by
      rw [hEngine]
      exact hIstore_emits (by omega) hEm.literalPos_le
    refine ⟨_, hEmits, fun s vm _ hRegs => ?_⟩
    have hDstVal : s.x (dstReg instr) = vm.r (regOf instr.dst) := hRegs _
    rw [accesses_storeInsns (by omega) (by omega), emittedAddress, accessOffset, if_pos hType,
      if_neg (by simp [hType, isFloatMem]), storeOffset_eq vm hType, hDstVal]

end Handlers

/-! ## Main results -/

/-- The scratchpad offset accessed by the words emitted for `instr` is the
interpreter's, for every register content, every prior content of the
temporaries and every memory. -/
def OffsetsMatch (fu : FloatUnit) (code : Code) (instr : Instruction) (em : Emitter) : Prop :=
  ∀ s vm, PoolsLoaded (emitInstruction instr em) s → (∀ i, s.x (IntRegMap i) = vm.r i) →
    (emittedInsns em (emitInstruction instr em)).map (accesses fu code · s) =
      some [s.x 2 + BitVec.ofNat 64 (accessOffset instr vm)]

/-- A floating-point load whose immediate is a multiple of its cache level's
size. -/
def ImmediateVanishes (instr : Instruction) : Prop :=
  isFloatMem instr.type = true ∧
    instr.imm32.toNat % (if instr.getModMem ≠ 0 then RANDOMX_SCRATCHPAD_L1
      else RANDOMX_SCRATCHPAD_L2) = 0

theorem immediateVanishes_iff (instr : Instruction) :
    ImmediateVanishes instr ↔ isFloatMem instr.type = true ∧ maskedImm instr = 0 := by
  have hPow : (if instr.getModMem ≠ 0 then RANDOMX_SCRATCHPAD_L1 else RANDOMX_SCRATCHPAD_L2) =
      2 ^ levelBits instr := by
    unfold levelBits
    split <;> rfl
  rw [ImmediateVanishes, hPow, ← maskedImm_toNat]
  exact and_congr_right fun _ => (BitVec.toNat_inj (y := 0#32)).symm.symm

/-- A machine with the pools of `em` in its registers, `8` in `x19` and zero in
the registers of the program. -/
def staleState (em : Emitter) : State :=
  { x := fun r =>
      if r = 19 then 8
      else
        match JitCompilerA64.literalRegs.idxOf? r with
        | some i => em.literal64 (reciprocalPos i)
        | none => 0
    sp := 0
    v := fun q =>
      let w := fun k => em.code (ImulRcpLiteralsEnd + 4 * (4 * q + k))
      packD (w 1 ++ w 0) (w 3 ++ w 2)
    flags := ⟨false, false, false, false⟩
    fpcr := 0
    mem := fun _ => 0
    pc := 0 }

theorem literalRegs_idxOf : ∀ i < 12, JitCompilerA64.literalRegs.getD i 0 ≠ 19 ∧
    JitCompilerA64.literalRegs.idxOf? (JitCompilerA64.literalRegs.getD i 0) = some i := by
  decide

theorem staleState_loaded (em : Emitter) : PoolsLoaded em (staleState em) where
  lanes i _ := by
    have hLane := laneS_pack (fun k => em.code (ImulRcpLiteralsEnd + 4 * (4 * (i / 4) + k)))
      (show i % 4 < 4 by omega)
    rwa [show 4 * (i / 4) + i % 4 = i by omega] at hLane
  reciprocals i hi _ := by
    have hReg := literalRegs_idxOf i hi
    simp only [staleState, if_neg hReg.1, hReg.2]

theorem staleState_regs (em : Emitter) (i : Fin 8) : (staleState em).x (IntRegMap i) = 0 := by
  have hReg : IntRegMap i ≠ 19 ∧ JitCompilerA64.literalRegs.idxOf? (IntRegMap i) = none := by
    revert i
    decide
  simp only [staleState, if_neg hReg.1, hReg.2]

/-- The VM state whose integer registers are all zero. -/
def zeroVm : VmState :=
  { r := fun _ => 0
    f := fun _ => ⟨0, 0⟩
    e := fun _ => ⟨0, 0⟩
    a := fun _ => ⟨0, 0⟩
    scratchpad := fun _ => 0
    lastRoundingMode := 0
    roundingHistory := [] }

/-- Where the immediate vanishes, a machine with a stale `x19` reads elsewhere. -/
theorem not_offsetsMatch {fu : FloatUnit} {code : Code} {instr : Instruction} {em : Emitter}
    (hOne : AccessesOne fu code instr em) (hVanish : ImmediateVanishes instr) :
    ¬ OffsetsMatch fu code instr em := by
  intro hMatch
  obtain ⟨is, hEmits, hOne⟩ := hOne
  obtain ⟨hFloat, hImm⟩ := (immediateVanishes_iff instr).mp hVanish
  have hStale := staleState_loaded (emitInstruction instr em)
  have hRegs : ∀ i, (staleState (emitInstruction instr em)).x (IntRegMap i) = zeroVm.r i :=
    staleState_regs _
  have hBoth := hMatch _ _ hStale hRegs
  rw [hEmits.emittedInsns_eq, Option.map_some, hOne _ _ hStale hRegs, emittedAddress,
    if_pos ⟨hFloat, hImm⟩, accessOffset_float zeroVm hFloat, hImm] at hBoth
  -- `x19` contributes its 8, the interpreter's offset is 0
  have hEq := (BitVec.add_right_inj _).mp (List.cons.inj (Option.some.inj hBoth)).1
  change (8 : BitVec 64) &&& _ = (0 : BitVec 64) + _ &&& _ at hEq
  rcases levelBits_cases instr with h | h <;> rw [h] at hEq <;> exact absurd hEq (by decide)

/-- **Emitted code accesses the interpreter's offset** in every state, exactly
unless the instruction is a floating-point load whose immediate vanishes under
the mask. -/
theorem memory_offsets_match_iff (fu : FloatUnit) (code : Code) (instr : Instruction)
    (em : Emitter) (hMem : instr.type.isMemory = true) (hEm : em.Ready) :
    OffsetsMatch fu code instr em ↔ ¬ ImmediateVanishes instr := by
  have hAll : AccessesOne fu code instr em := memory_accessesOne hMem hEm
  refine ⟨fun hMatch hVanish => not_offsetsMatch hAll hVanish hMatch, ?_⟩
  intro hNot s vm hLoaded hRegs
  obtain ⟨is, hEmits, hOne⟩ := hAll
  rw [hEmits.emittedInsns_eq, Option.map_some, hOne s vm hLoaded hRegs, emittedAddress,
    if_neg (mt (immediateVanishes_iff instr).mpr hNot)]

def emptyCode : Code := ⟨fun _ => none, fun _ => 0, 0⟩

/-- `FADD_M f0, L1[r0 + 8]` reads at the interpreter's offset. -/
theorem memory_offsets_match_displaced :
    OffsetsMatch leftUnit emptyCode ⟨140, 0, 0, 1, 8⟩ (initialEmitter fun _ => 0) :=
  (memory_offsets_match_iff leftUnit emptyCode ⟨140, 0, 0, 1, 8⟩ (initialEmitter fun _ => 0)
    (by decide +kernel) (initialEmitter_ready _)).mpr (fun h => absurd h.2 (by decide))

/-- `FADD_M f0, L1[r0 + 0]` reads at the offset `x19` was left with. -/
theorem memory_offsets_mismatch :
    ¬ OffsetsMatch leftUnit emptyCode ⟨140, 0, 0, 1, 0⟩ (initialEmitter fun _ => 0) :=
  not_offsetsMatch (memory_accessesOne (by decide +kernel) (initialEmitter_ready _))
    ⟨by decide +kernel, by decide⟩

end ArmRx.Jit
