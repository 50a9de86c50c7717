import ArmRx.A64.Arith
import ArmRx.Jit.Emit

/-!
# What has been emitted

`Emits em em' is` says that going from `em` to `em'` appended exactly the
instructions `is` and left earlier code and earlier literals alone. It
composes, so a handler is described by the instructions of its parts, and a
whole program by the instructions of its handlers.

* `emitMovImmediate_emits`, `emitAddImmediate_emits` — the instructions of an
  immediate, by its size and the fill of the vector-lane pool.
* `execAll_movInsns`, `execAll_addInsns` — all encodings load the
  sign-extended immediate.
* `Code.Holds.block` — code that holds what was emitted contains the
  instructions as a block.
-/

namespace ArmRx.Jit

open ArmRx.Vm ArmRx.A64

/-! ## Emitter fields -/

section Fields

variable (em : Emitter) (w : BitVec 32) (r : Fin 8) (v : BitVec 64)

@[simp] theorem emit32_codePos : (em.emit32 w).codePos = em.codePos + 4 := rfl
@[simp] theorem emit32_literalPos : (em.emit32 w).literalPos = em.literalPos := rfl
@[simp] theorem emit32_num32bitLiterals :
    (em.emit32 w).num32bitLiterals = em.num32bitLiterals := rfl
@[simp] theorem emit32_regChangedOffset :
    (em.emit32 w).regChangedOffset = em.regChangedOffset := rfl

@[simp] theorem placeLiteral32_codePos : (em.placeLiteral32 w).codePos = em.codePos := rfl
@[simp] theorem placeLiteral32_literalPos : (em.placeLiteral32 w).literalPos = em.literalPos := rfl
@[simp] theorem placeLiteral32_num32bitLiterals :
    (em.placeLiteral32 w).num32bitLiterals = em.num32bitLiterals + 1 := rfl
@[simp] theorem placeLiteral32_regChangedOffset :
    (em.placeLiteral32 w).regChangedOffset = em.regChangedOffset := rfl

@[simp] theorem placeReciprocal_codePos : (em.placeReciprocal v).codePos = em.codePos := rfl
@[simp] theorem placeReciprocal_literalPos :
    (em.placeReciprocal v).literalPos = em.literalPos - 8 := rfl
@[simp] theorem placeReciprocal_num32bitLiterals :
    (em.placeReciprocal v).num32bitLiterals = em.num32bitLiterals := rfl
@[simp] theorem placeReciprocal_regChangedOffset :
    (em.placeReciprocal v).regChangedOffset = em.regChangedOffset := rfl

@[simp] theorem regChanged_code : (em.regChanged r).code = em.code := rfl
@[simp] theorem regChanged_codePos : (em.regChanged r).codePos = em.codePos := rfl
@[simp] theorem regChanged_literalPos : (em.regChanged r).literalPos = em.literalPos := rfl
@[simp] theorem regChanged_num32bitLiterals :
    (em.regChanged r).num32bitLiterals = em.num32bitLiterals := rfl

theorem placeReciprocal_code_of_ne {k : Nat} (hLo : k ≠ em.literalPos - 8)
    (hHi : k ≠ em.literalPos - 8 + 4) : (em.placeReciprocal v).code k = em.code k := by
  simp only [Emitter.placeReciprocal]
  rw [Function.update_of_ne hHi, Function.update_of_ne hLo]

end Fields

/-- The integer registers avoid the zero register and every register the
emitted code uses for itself. -/
theorem IntRegMap_range (i : Fin 8) :
    4 ≤ IntRegMap i ∧ IntRegMap i ≤ 7 ∨ 12 ≤ IntRegMap i ∧ IntRegMap i ≤ 15 := by
  revert i
  decide

theorem IntRegMap_inj {i j : Fin 8} : IntRegMap i = IntRegMap j ↔ i = j := by
  revert i j
  decide

theorem dstReg_range (instr : Instruction) :
    4 ≤ dstReg instr ∧ dstReg instr ≤ 7 ∨ 12 ≤ dstReg instr ∧ dstReg instr ≤ 15 :=
  IntRegMap_range _

theorem srcReg_range (instr : Instruction) :
    4 ≤ srcReg instr ∧ srcReg instr ≤ 7 ∨ 12 ≤ srcReg instr ∧ srcReg instr ≤ 15 :=
  IntRegMap_range _

/-! ## The relation -/

/-- From `em` to `em'` the instructions `is` were appended; earlier code and
earlier literals are as they were. -/
structure Emits (em em' : Emitter) (is : List Insn) : Prop where
  codePos_eq : em'.codePos = em.codePos + 4 * is.length
  decoded : ∀ j (h : j < is.length),
    decode (em.codePos + 4 * j) (em'.code (em.codePos + 4 * j)) = some is[j]
  below : ∀ k, k < em.codePos → em'.code k = em.code k
  literalPos_le : em'.literalPos ≤ em.literalPos
  literals_le : em.num32bitLiterals ≤ em'.num32bitLiterals
  pools : ∀ k, em.literalPos ≤ k → k < ImulRcpLiteralsEnd + 4 * em.num32bitLiterals →
    em'.code k = em.code k

namespace Emits

variable {em em' em'' : Emitter} {is js : List Insn}

theorem refl (em : Emitter) : Emits em em [] where
  codePos_eq := rfl
  decoded j h := absurd h (Nat.not_lt_zero j)
  below _ _ := rfl
  literalPos_le := Nat.le_refl _
  literals_le := Nat.le_refl _
  pools _ _ _ := rfl

theorem trans (h : Emits em em' is) (h' : Emits em' em'' js) : Emits em em'' (is ++ js) where
  codePos_eq := by
    rw [h'.codePos_eq, h.codePos_eq, List.length_append]
    omega
  decoded j hj := by
    rw [List.length_append] at hj
    by_cases hIn : j < is.length
    · have hBelow : em.codePos + 4 * j < em'.codePos := by
        rw [h.codePos_eq]
        omega
      rw [h'.below _ hBelow, h.decoded j hIn, List.getElem_append_left hIn]
    · have hPos : em.codePos + 4 * j = em'.codePos + 4 * (j - is.length) := by
        rw [h.codePos_eq]
        omega
      rw [hPos, h'.decoded _ (by omega), List.getElem_append_right (by omega)]
  below k hk := by
    have hLe := h.codePos_eq
    rw [h'.below k (by omega), h.below k hk]
  literalPos_le := Nat.le_trans h'.literalPos_le h.literalPos_le
  literals_le := Nat.le_trans h.literals_le h'.literals_le
  pools k hLo hHi := by
    have hLit := h.literalPos_le
    have hNum := h.literals_le
    rw [h'.pools k (by omega) (by omega), h.pools k hLo hHi]

/-- One more word, below the literals. -/
theorem emit32 {w : BitVec 32} {i : Insn} (h : Emits em em' is)
    (hRoom : em'.codePos < em'.literalPos) (hw : decode em'.codePos w = some i) :
    Emits em (em'.emit32 w) (is ++ [i]) := by
  refine h.trans ⟨rfl, ?_, ?_, Nat.le_refl _, Nat.le_refl _, ?_⟩
  · intro j hj
    have hZero : j = 0 := by simpa using hj
    subst hZero
    simpa [Emitter.emit32] using hw
  · intro k hk
    exact Function.update_of_ne (Nat.ne_of_lt hk) _ _
  · intro k hLo _
    exact Function.update_of_ne (by omega) _ _

/-- A literal lies behind the code and behind the literals already placed. -/
theorem placeLiteral32 (imm : BitVec 32) (h : Emits em em' is)
    (hRoom : em'.codePos ≤ em'.literalPos) (hEnd : em'.literalPos ≤ ImulRcpLiteralsEnd) :
    Emits em (em'.placeLiteral32 imm) is := by
  have hStep : Emits em' (em'.placeLiteral32 imm) [] := by
    refine ⟨rfl, fun j hj => absurd hj (Nat.not_lt_zero j), ?_, Nat.le_refl _, Nat.le_succ _, ?_⟩
    · intro k hk
      exact Function.update_of_ne (by omega) _ _
    · intro k _ hHi
      exact Function.update_of_ne (by omega) _ _
  simpa using h.trans hStep

/-- A reciprocal lies between the code and the literals already placed. -/
theorem placeReciprocal (v : BitVec 64) (h : Emits em em' is)
    (hRoom : em'.codePos + 8 ≤ em'.literalPos) : Emits em (em'.placeReciprocal v) is := by
  have hStep : Emits em' (em'.placeReciprocal v) [] := by
    refine ⟨rfl, fun j hj => absurd hj (Nat.not_lt_zero j), ?_, Nat.sub_le _ _, Nat.le_refl _, ?_⟩
    · intro k hk
      exact placeReciprocal_code_of_ne _ _ (by omega) (by omega)
    · intro k hLo _
      exact placeReciprocal_code_of_ne _ _ (by omega) (by omega)
  simpa using h.trans hStep

/-- The record of changed registers is not code. -/
theorem withRegChanged (f : Fin 8 → Nat) (h : Emits em em' is) :
    Emits em { em' with regChangedOffset := f } is :=
  ⟨h.codePos_eq, h.decoded, h.below, h.literalPos_le, h.literals_le, h.pools⟩

theorem regChanged (r : Fin 8) (h : Emits em em' is) : Emits em (em'.regChanged r) is :=
  h.withRegChanged _

end Emits

/-! ## Reading the emitted words back -/

/-- Decode `n` words from offset `k` on. -/
def decodeFrom (code : Nat → BitVec 32) : Nat → Nat → Option (List Insn)
  | _, 0 => some []
  | k, n + 1 =>
    match decode k (code k), decodeFrom code (k + 4) n with
    | some i, some is => some (i :: is)
    | _, _ => none

/-- The instructions between the code positions of `em` and `em'`. -/
def emittedInsns (em em' : Emitter) : Option (List Insn) :=
  decodeFrom em'.code em.codePos ((em'.codePos - em.codePos) / 4)

theorem decodeFrom_eq {code : Nat → BitVec 32} {k : Nat} {is : List Insn}
    (h : ∀ j (hj : j < is.length), decode (k + 4 * j) (code (k + 4 * j)) = some is[j]) :
    decodeFrom code k is.length = some is := by
  induction is generalizing k with
  | nil => rfl
  | cons i is ih =>
    have hHead : decode k (code k) = some i := h 0 (Nat.succ_pos _)
    have hTail : decodeFrom code (k + 4) is.length = some is := by
      refine ih fun j hj => ?_
      have := h (j + 1) (Nat.succ_lt_succ hj)
      rwa [show k + 4 * (j + 1) = k + 4 + 4 * j by omega] at this
    rw [List.length_cons, decodeFrom, hHead, hTail]

theorem Emits.emittedInsns_eq {em em' : Emitter} {is : List Insn} (h : Emits em em' is) :
    emittedInsns em em' = some is := by
  have hLen : (em'.codePos - em.codePos) / 4 = is.length := by
    rw [h.codePos_eq]
    omega
  rw [emittedInsns, hLen]
  exact decodeFrom_eq h.decoded

/-- The emitter has room for one more instruction: its words and a reciprocal.
Any number of reciprocals and up to 64 lane literals may be placed. -/
structure Emitter.Ready (em : Emitter) : Prop where
  room : em.codePos + 48 ≤ em.literalPos
  literalPos_le : em.literalPos ≤ ImulRcpLiteralsEnd
  literalPos_aligned : (ImulRcpLiteralsEnd - em.literalPos) % 8 = 0
  literals_le : em.num32bitLiterals ≤ 64
  codePos_aligned : em.codePos % 4 = 0
  regChanged_le : ∀ r, em.regChangedOffset r ≤ em.codePos
  regChanged_aligned : ∀ r, em.regChangedOffset r % 4 = 0

theorem initialEmitter_ready (template : Nat → BitVec 32) : (initialEmitter template).Ready where
  room := (by decide : PrologueSize + 48 ≤ ImulRcpLiteralsEnd)
  literalPos_le := Nat.le_refl _
  literalPos_aligned := (by decide : (ImulRcpLiteralsEnd - ImulRcpLiteralsEnd) % 8 = 0)
  literals_le := Nat.zero_le _
  codePos_aligned := (by decide : PrologueSize % 4 = 0)
  regChanged_le _ := Nat.le_refl _
  regChanged_aligned _ := (by decide : PrologueSize % 4 = 0)

/-! ## The code and the machine that runs it -/

/-- `code` contains what was emitted between `em` and `em'`. -/
structure Holds (code : Code) (em em' : Emitter) : Prop where
  insn : ∀ k, em.codePos ≤ k → k < em'.codePos → code.insn k = decode k (em'.code k)
  word : ∀ k, em'.literalPos ≤ k → k < ImulRcpLiteralsEnd → code.word k = em'.code k

theorem Holds.block {code : Code} {em em' : Emitter} {is : List Insn} (h : Holds code em em')
    (hEmits : Emits em em' is) : Block code em.codePos is := by
  intro j hj
  rw [h.insn _ (by omega) (by rw [hEmits.codePos_eq]; omega), hEmits.decoded j hj]

/-- The offset of the `i`-th reciprocal. -/
def reciprocalPos (i : Nat) : Nat := ImulRcpLiteralsEnd - 8 * (i + 1)

/-- The eight bytes at an offset of the code buffer. -/
def Emitter.literal64 (em : Emitter) (k : Nat) : BitVec 64 := em.code (k + 4) ++ em.code k

theorem halves_append (v : BitVec 64) :
    ((v >>> 32).setWidth 32 ++ v.setWidth 32 : BitVec 64) = v := by
  apply BitVec.eq_of_getLsbD_eq
  intro i hi
  rw [BitVec.getLsbD_append]
  by_cases hLow : i < 32
  · simp [hLow]
  · simp [hLow, show i - 32 < 32 by omega, show 32 + (i - 32) = i by omega]

theorem placeReciprocal_literal64 (em : Emitter) (v : BitVec 64) :
    (em.placeReciprocal v).literal64 (em.literalPos - 8) = v := by
  simp only [Emitter.literal64, Emitter.placeReciprocal]
  rw [Function.update_self, Function.update_of_ne (by omega), Function.update_self]
  exact halves_append v

/-- The registers the prologue fills hold what has been placed in the pools. -/
structure PoolsLoaded (em : Emitter) (s : State) : Prop where
  lanes : ∀ i, i < em.num32bitLiterals →
    laneS (s.v (i / 4)) (i % 4) = em.code (ImulRcpLiteralsEnd + 4 * i)
  reciprocals : ∀ i, i < 12 → em.literalPos ≤ reciprocalPos i →
    s.x (JitCompilerA64.literalRegs.getD i 0) = em.literal64 (reciprocalPos i)

/-- Registers filled from the final pools are filled from the earlier ones. -/
theorem PoolsLoaded.mono {em em' : Emitter} {is : List Insn} {s : State}
    (h : PoolsLoaded em' s) (hEmits : Emits em em' is) (hEnd : em.literalPos ≤ ImulRcpLiteralsEnd) :
    PoolsLoaded em s where
  lanes i hi := by
    rw [h.lanes i (Nat.lt_of_lt_of_le hi hEmits.literals_le),
      hEmits.pools _ (by omega) (by omega)]
  reciprocals i hi hPos := by
    have hLe : reciprocalPos i + 8 ≤ ImulRcpLiteralsEnd := by
      unfold reciprocalPos ImulRcpLiteralsEnd
      omega
    rw [h.reciprocals i hi (Nat.le_trans hEmits.literalPos_le hPos), Emitter.literal64,
      Emitter.literal64, hEmits.pools _ hPos (by omega), hEmits.pools _ (by omega) (by omega)]

/-! ## Immediates -/

/-- An immediate by halves. -/
def movHalves (dst : Nat) (imm : BitVec 32) : List Insn :=
  [if imm.msb then .movn dst ((~~~imm >>> 16).setWidth 16) 1
    else .movz dst ((imm >>> 16).setWidth 16) 1,
   .movk dst ((imm &&& 0xFFFF).setWidth 16) 0]

/-- The instructions of `emitMovImmediate`, `num` literals being placed. -/
def movInsns (num dst : Nat) (imm : BitVec 32) : List Insn :=
  if imm < 0x10000 then [.movz dst (imm.setWidth 16) 0]
  else if num < 64 then
    [if imm.msb then .smovS dst (num / 4) (num % 4) else .umovS dst (num / 4) (num % 4)]
  else movHalves dst imm

/-- The instructions of `emitAddImmediate`. -/
def addInsns (num dst src : Nat) (imm : BitVec 32) : List Insn :=
  if imm < 0x1000000 then
    let immLo := imm &&& 0xFFF
    let immHi := imm >>> 12
    if immLo ≠ 0 ∧ immHi ≠ 0 then
      [.addImm dst src (immLo.setWidth 64), .addImm dst dst (immHi.setWidth 64 <<< 12)]
    else if immLo ≠ 0 then [.addImm dst src (immLo.setWidth 64)]
    else [.addImm dst src (immHi.setWidth 64 <<< 12)]
  else movInsns num 20 imm ++ [.addReg dst src 20 0]

section Immediates

variable {em : Emitter} {dst src : Nat} {imm : BitVec 32}

theorem emitMovImmediate_emits (hDst : dst < 32) (hRoom : em.codePos + 8 ≤ em.literalPos)
    (hEnd : em.literalPos ≤ ImulRcpLiteralsEnd) :
    Emits em (emitMovImmediate dst imm em) (movInsns em.num32bitLiterals dst imm) := by
  unfold emitMovImmediate movInsns
  have hHigh (x : BitVec 32) : (x >>> 16).toNat < 2 ^ 16 := by
    rw [BitVec.toNat_ushiftRight, Nat.shiftRight_eq_div_pow]
    omega
  have hLow : (imm &&& 0xFFFF).toNat < 2 ^ 16 := by
    rw [BitVec.toNat_and]
    exact Nat.lt_of_le_of_lt Nat.and_le_right (by decide)
  split
  · rename_i hSmall
    exact (Emits.refl em).emit32 (by omega) (decode_movz hDst (BitVec.lt_def.mp hSmall))
  · split
    · refine ((Emits.refl em).emit32 (by omega) ?_).placeLiteral32 imm (by simp; omega) hEnd
      split
      · exact decode_smov hDst (by omega) (by omega)
      · exact decode_umov hDst (by omega) (by omega)
    · refine ((Emits.refl em).emit32 (by omega) ?_).emit32 (by simp; omega)
        (decode_movk hDst hLow)
      split
      · exact decode_movn_hi hDst (hHigh _)
      · exact decode_movz_hi hDst (hHigh _)

@[simp] theorem emitMovImmediate_literalPos :
    (emitMovImmediate dst imm em).literalPos = em.literalPos := by
  unfold emitMovImmediate
  split
  · rfl
  · split <;> rfl

@[simp] theorem emitMovImmediate_regChangedOffset :
    (emitMovImmediate dst imm em).regChangedOffset = em.regChangedOffset := by
  unfold emitMovImmediate
  split
  · rfl
  · split <;> rfl

theorem movInsns_length_le (num dst : Nat) (imm : BitVec 32) :
    (movInsns num dst imm).length ≤ 2 := by
  unfold movInsns movHalves
  split
  · simp
  · split <;> simp

theorem emitAddImmediate_emits (hDst : dst < 32) (hSrc : src < 32)
    (hRoom : em.codePos + 12 ≤ em.literalPos) (hEnd : em.literalPos ≤ ImulRcpLiteralsEnd) :
    Emits em (emitAddImmediate dst src imm em) (addInsns em.num32bitLiterals dst src imm) := by
  unfold emitAddImmediate addInsns
  have hLo : (imm &&& 0xFFF).toNat < 2 ^ 12 := by
    rw [BitVec.toNat_and]
    exact Nat.lt_of_le_of_lt Nat.and_le_right (by decide)
  split
  · rename_i hSmall
    have hHi : (imm >>> 12).toNat < 2 ^ 12 := by
      have := BitVec.lt_def.mp hSmall
      rw [BitVec.toNat_ushiftRight, Nat.shiftRight_eq_div_pow]
      simp only [BitVec.reduceToNat] at this
      omega
    dsimp only
    split
    · exact ((Emits.refl em).emit32 (by omega) (decode_addImm_lo hDst hSrc hLo)).emit32
        (by simp; omega) (decode_addImm_hi hDst hDst hHi)
    · split
      · exact (Emits.refl em).emit32 (by omega) (decode_addImm_lo hDst hSrc hLo)
      · exact (Emits.refl em).emit32 (by omega) (decode_addImm_hi hDst hSrc hHi)
  · have hMov : Emits em (emitMovImmediate 20 imm em) (movInsns em.num32bitLiterals 20 imm) :=
      emitMovImmediate_emits (by omega) (by omega) hEnd
    have hLen := movInsns_length_le em.num32bitLiterals 20 imm
    exact hMov.emit32 (by rw [hMov.codePos_eq, emitMovImmediate_literalPos]; omega)
      (decode_regOp .add hDst hSrc (by omega))

@[simp] theorem emitAddImmediate_literalPos :
    (emitAddImmediate dst src imm em).literalPos = em.literalPos := by
  unfold emitAddImmediate
  split
  · dsimp only
    split
    · rfl
    · split <;> rfl
  · simp

@[simp] theorem emitAddImmediate_regChangedOffset :
    (emitAddImmediate dst src imm em).regChangedOffset = em.regChangedOffset := by
  unfold emitAddImmediate
  split
  · dsimp only
    split
    · rfl
    · split <;> rfl
  · simp

theorem addInsns_length_le (num dst src : Nat) (imm : BitVec 32) :
    (addInsns num dst src imm).length ≤ 3 := by
  unfold addInsns
  have := movInsns_length_le num 20 imm
  split
  · dsimp only
    split
    · simp
    · split <;> simp
  · simp
    omega

/-! ### Execution -/

variable (fu : FloatUnit) (code : Code) {num : Nat} {s : State}

/-- The halves make up the sign-extended immediate. -/
theorem execAll_movHalves (hDst : dst ≠ 31) :
    execAll fu code (movHalves dst imm) s = (s.setX dst (imm.signExtend 64)).jump (s.pc + 8) := by
  unfold movHalves
  by_cases hMsb : imm.msb = true
  · rw [if_pos hMsb]
    simp only [execAll_cons, execAll_nil, exec, State.next_eq_jump, State.getX_of_ne hDst,
      State.jump_setX, State.setX_setX, State.jump_jump, State.jump_x, State.setX_x,
      Function.update_self, Nat.mul_zero, Nat.mul_one, halves_signExtend_neg hMsb]
    rfl
  · rw [if_neg hMsb]
    simp only [execAll_cons, execAll_nil, exec, State.next_eq_jump, State.getX_of_ne hDst,
      State.jump_setX, State.setX_setX, State.jump_jump, State.jump_x, State.setX_x,
      Function.update_self, Nat.mul_zero, Nat.mul_one, halves_signExtend_nonneg hMsb]
    rfl

/-- Every encoding of a move loads the sign-extended immediate. -/
theorem execAll_movInsns (hDst : dst ≠ 31)
    (hLane : ¬ imm < 0x10000 → num < 64 → laneS (s.v (num / 4)) (num % 4) = imm) :
    execAll fu code (movInsns num dst imm) s =
      (s.setX dst (imm.signExtend 64)).jump (s.pc + 4 * (movInsns num dst imm).length) := by
  unfold movInsns
  by_cases hSmall : imm < 0x10000
  · have hLt : imm.toNat < 2 ^ 16 := BitVec.lt_def.mp hSmall
    have hVal : ((imm.setWidth 16).setWidth 64 : BitVec 64) <<< 0 = imm.signExtend 64 := by
      rw [← setWidth_eq_signExtend (by omega)]
      apply BitVec.eq_of_toNat_eq
      simp
      omega
    rw [if_pos hSmall]
    simp only [execAll_cons, execAll_nil, exec, Nat.mul_zero, hVal]
    rfl
  rw [if_neg hSmall]
  by_cases hNum : num < 64
  · have hV := hLane hSmall hNum
    rw [if_pos hNum]
    by_cases hMsb : imm.msb = true
    · rw [if_pos hMsb]
      simp only [execAll_cons, execAll_nil, exec, hV]
      rfl
    · rw [if_neg hMsb]
      simp only [execAll_cons, execAll_nil, exec, hV,
        setWidth_eq_signExtend (toNat_lt_of_not_msb hMsb)]
      rfl
  rw [if_neg hNum]
  exact execAll_movHalves fu code hDst

/-- An immediate of 24 bits is added without a temporary register. -/
theorem execAll_addInsns_small (hDst : dst ≠ 31) (hSrc : src ≠ 31) (hSmall : imm < 0x1000000) :
    execAll fu code (addInsns num dst src imm) s =
      (s.setX dst (s.x src + imm.signExtend 64)).jump
        (s.pc + 4 * (addInsns num dst src imm).length) := by
  unfold addInsns
  rw [if_pos hSmall, addends_signExtend (BitVec.lt_def.mp hSmall)]
  by_cases hLo : imm &&& 0xFFF = 0
  · simp only [hLo, ne_eq, not_true, false_and, if_false, execAll_cons, execAll_nil, exec,
      State.setXsp_of_ne hDst, State.getXsp_of_ne hSrc]
    simp only [BitVec.ofNat_eq_ofNat, BitVec.setWidth_zero, BitVec.zero_add]
    rfl
  · by_cases hHi : imm >>> 12 = 0
    · simp only [hLo, hHi, ne_eq, not_true, not_false_eq_true, and_false, if_false, if_true,
        execAll_cons, execAll_nil, exec, State.setXsp_of_ne hDst, State.getXsp_of_ne hSrc]
      simp only [BitVec.ofNat_eq_ofNat, BitVec.setWidth_zero, BitVec.zero_shiftLeft,
        BitVec.add_zero]
      rfl
    · simp only [hLo, hHi, ne_eq, not_false_eq_true, and_self, if_true, execAll_cons,
        execAll_nil, exec, State.setXsp_of_ne hDst, State.getXsp_of_ne hSrc,
        State.getXsp_of_ne hDst, State.next_eq_jump, State.jump_setX, State.setX_setX,
        State.jump_jump, State.jump_x, State.setX_x, Function.update_self, BitVec.add_assoc]
      rfl

/-- Every encoding of an addition adds the sign-extended immediate; at most
`x20` changes besides the destination. -/
theorem execAll_addInsns (hDst : dst ≠ 31) (hSrc : src ≠ 31) (hSrc' : src ≠ 20)
    (hLane : ¬ imm < 0x1000000 → num < 64 → laneS (s.v (num / 4)) (num % 4) = imm) :
    ∃ t, execAll fu code (addInsns num dst src imm) s =
      ((s.setX 20 t).setX dst (s.x src + imm.signExtend 64)).jump
        (s.pc + 4 * (addInsns num dst src imm).length) := by
  by_cases hSmall : imm < 0x1000000
  · refine ⟨s.x 20, ?_⟩
    rw [State.setX_self]
    exact execAll_addInsns_small fu code hDst hSrc hSmall
  · refine ⟨imm.signExtend 64, ?_⟩
    unfold addInsns
    rw [if_neg hSmall, execAll_append, execAll_movInsns fu code (by omega) fun _ => hLane hSmall]
    simp only [execAll_cons, execAll_nil, exec, State.next_eq_jump, State.getX_of_ne hSrc,
      State.getX_of_ne (show 20 ≠ 31 by omega), State.jump_setX, State.jump_jump, State.jump_x,
      State.setX_x, Function.update_self, Function.update_of_ne hSrc', BitVec.shiftLeft_zero,
      List.length_append]
    rfl

theorem movInsns_address : ∀ i ∈ movInsns num dst imm, ∀ s, i.address s = none := by
  unfold movInsns movHalves
  split
  · simp [Insn.address]
  · split
    · split <;> simp [Insn.address]
    · split <;> simp [Insn.address]

theorem addInsns_address : ∀ i ∈ addInsns num dst src imm, ∀ s, i.address s = none := by
  unfold addInsns
  split
  · dsimp only
    split
    · simp [Insn.address]
    · split <;> simp [Insn.address]
  · intro i hi
    rcases List.mem_append.mp hi with hMov | hAdd
    · exact movInsns_address i hMov
    · simp only [List.mem_singleton] at hAdd
      subst hAdd
      exact fun _ => rfl

theorem movHalves_straight : ∀ i ∈ movHalves dst imm, i.straight = true := by
  unfold movHalves
  split <;> simp [Insn.straight]

theorem movInsns_straight : ∀ i ∈ movInsns num dst imm, i.straight = true := by
  unfold movInsns
  split
  · simp [Insn.straight]
  · split
    · split <;> simp [Insn.straight]
    · exact movHalves_straight

theorem addInsns_straight : ∀ i ∈ addInsns num dst src imm, i.straight = true := by
  unfold addInsns
  split
  · dsimp only
    split
    · simp [Insn.straight]
    · split <;> simp [Insn.straight]
  · intro i hi
    rcases List.mem_append.mp hi with hMov | hAdd
    · exact movInsns_straight i hMov
    · simp only [List.mem_singleton] at hAdd
      subst hAdd
      rfl

/-! ### The literals they read -/

/-- Where `emitMovImmediate` uses a lane, it has placed the literal. -/
theorem emitMovImmediate_lane (dst : Nat) (hBig : ¬ imm < 0x10000) (hNum : em.num32bitLiterals < 64) :
    (emitMovImmediate dst imm em).num32bitLiterals = em.num32bitLiterals + 1 ∧
      (emitMovImmediate dst imm em).code (ImulRcpLiteralsEnd + 4 * em.num32bitLiterals) = imm := by
  unfold emitMovImmediate
  rw [if_neg hBig, if_pos hNum]
  exact ⟨rfl, Function.update_self ..⟩

/-- A machine loaded from later pools has the literal of a move in its lane. -/
theorem PoolsLoaded.movLane {em' : Emitter} {js : List Insn} {s : State} (h : PoolsLoaded em' s)
    (hEmits : Emits (emitMovImmediate dst imm em) em' js)
    (hEnd : em.literalPos ≤ ImulRcpLiteralsEnd) (hBig : ¬ imm < 0x10000)
    (hNum : em.num32bitLiterals < 64) :
    laneS (s.v (em.num32bitLiterals / 4)) (em.num32bitLiterals % 4) = imm := by
  obtain ⟨hNext, hCode⟩ := emitMovImmediate_lane dst hBig hNum
  rw [(h.mono hEmits (by simpa using hEnd)).lanes _ (by omega), hCode]

/-- A machine loaded from later pools has the literal of an addition in its lane. -/
theorem PoolsLoaded.addLane {em' : Emitter} {js : List Insn} {s : State} (h : PoolsLoaded em' s)
    (hEmits : Emits (emitAddImmediate dst src imm em) em' js) (hDst : dst < 32) (hSrc : src < 32)
    (hRoom : em.codePos + 12 ≤ em.literalPos) (hEnd : em.literalPos ≤ ImulRcpLiteralsEnd)
    (hBig : ¬ imm < 0x1000000) (hNum : em.num32bitLiterals < 64) :
    laneS (s.v (em.num32bitLiterals / 4)) (em.num32bitLiterals % 4) = imm := by
  have hMov : Emits em (emitMovImmediate 20 imm em) (movInsns em.num32bitLiterals 20 imm) :=
    emitMovImmediate_emits (by omega) (by omega) hEnd
  have hLen := movInsns_length_le em.num32bitLiterals 20 imm
  have hPos := hMov.codePos_eq
  have hAdd : Emits (emitMovImmediate 20 imm em) (emitAddImmediate dst src imm em)
      ([] ++ [.addReg dst src 20 0]) := by
    rw [emitAddImmediate, if_neg hBig]
    exact (Emits.refl _).emit32 (by simp; omega) (decode_regOp .add hDst hSrc (by omega))
  refine h.movLane (hAdd.trans hEmits) hEnd (fun hSmall => hBig ?_) hNum
  exact BitVec.lt_def.mpr (Nat.lt_trans (BitVec.lt_def.mp hSmall) (by decide))

end Immediates

end ArmRx.Jit
