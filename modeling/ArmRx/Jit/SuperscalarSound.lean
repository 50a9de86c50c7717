import ArmRx.A64.Effects
import ArmRx.Jit.Emits
import ArmRx.Jit.Superscalar

/-!
# Scheduled superscalar programs

The emitted words of a superscalar program compute what `execute_superscalar`
does, although they are emitted in another order: only neighbours without a
hazard trade places (`executeSuperscalar_emissionOrder`), and no `IMUL_RCP`
does, so the reciprocals are consumed in the order they were placed
(`filter_emissionOrder`).

* `superscalarInsns_exec` — one instruction.
* `emitSuperscalar_reaches` — a whole program.
-/

namespace ArmRx.Jit

open ArmRx.Lib ArmRx.Vm ArmRx.A64

/-! ## The order -/

/-- The scheduler's rearrangement, on the instructions themselves. -/
def reorder : List Instruction → List Instruction
  | p :: q :: r :: rest =>
    if swapsSuperscalar (superscalarFootprint p) (superscalarFootprint q)
        (superscalarFootprint r) then
      p :: r :: q :: reorder rest
    else p :: reorder (q :: r :: rest)
  | l => l

theorem getD_of_drop_cons {α : Type} {all l : List α} {i : Nat} {x : α} (d : α)
    (h : all.drop i = x :: l) : all.getD i d = x ∧ all.drop (i + 1) = l := by
  have hLt : i < all.length := by
    by_contra hGe
    rw [List.drop_eq_nil_of_le (by omega)] at h
    cases h
  rw [List.drop_eq_getElem_cons hLt] at h
  rw [List.getD_eq_getElem _ _ hLt]
  exact ⟨(List.cons.inj h).1, (List.cons.inj h).2⟩

theorem scheduleSuperscalarFrom_map {all l : List Instruction} {i : Nat} (h : all.drop i = l) :
    (scheduleSuperscalarFrom i (l.map superscalarFootprint)).map (fun j => all.getD j default) =
      reorder l := by
  -- the recursion of the scheduler, three instructions at a time
  match l with
  | [] => rfl
  | [p] =>
    obtain ⟨hp, -⟩ := getD_of_drop_cons default h
    rw [List.map_cons, List.map_nil, scheduleSuperscalarFrom, List.map_cons, hp]
    rfl
  | [p, q] =>
    obtain ⟨hp, h₁⟩ := getD_of_drop_cons default h
    obtain ⟨hq, -⟩ := getD_of_drop_cons default h₁
    simp only [List.map_cons, List.map_nil, scheduleSuperscalarFrom, hp, hq]
    rfl
  | p :: q :: r :: rest =>
    obtain ⟨hp, h₁⟩ := getD_of_drop_cons default h
    obtain ⟨hq, h₂⟩ := getD_of_drop_cons default h₁
    obtain ⟨hr, h₃⟩ := getD_of_drop_cons default h₂
    simp only [List.map_cons, scheduleSuperscalarFrom, reorder]
    split
    · rw [List.map_cons, List.map_cons, List.map_cons, hp, hq, hr,
        scheduleSuperscalarFrom_map h₃]
    · rw [List.map_cons, hp]
      exact congrArg (p :: ·) (scheduleSuperscalarFrom_map h₁)
termination_by l.length

theorem emissionOrder_eq (instructions : List Instruction) :
    emissionOrder instructions = reorder instructions :=
  scheduleSuperscalarFrom_map List.drop_zero

/-- Induction along the scheduler's windows. -/
theorem reorder_induction {P : List Instruction → List Instruction → Prop}
    (hNil : P [] []) (hCons : ∀ p l l', P l l' → P (p :: l) (p :: l'))
    (hSwap : ∀ p q r l l', P l l' → swapsSuperscalar (superscalarFootprint p)
      (superscalarFootprint q) (superscalarFootprint r) = true →
      P (p :: q :: r :: l) (p :: r :: q :: l')) (l : List Instruction) : P l (reorder l) := by
  match l with
  | [] => exact hNil
  | [p] => exact hCons p _ _ hNil
  | [p, q] => exact hCons p _ _ (hCons q _ _ hNil)
  | p :: q :: r :: rest =>
    rw [reorder]
    split
    · rename_i hIf
      exact hSwap p q r _ _ (reorder_induction hNil hCons hSwap rest) hIf
    · exact hCons p _ _ (reorder_induction hNil hCons hSwap (q :: r :: rest))
termination_by l.length

theorem swapsSuperscalar_spec {p q r : InstrFootprint} (h : swapsSuperscalar p q r = true) :
    q.isImulRcp = false ∧ r.isImulRcp = false ∧ hasHazard q r = false := by
  simp only [swapsSuperscalar, Bool.and_eq_true, Bool.not_eq_true'] at h
  exact ⟨h.1.1.1.1.2, h.1.1.1.2, h.2⟩

theorem isImulRcp_eq (instr : Instruction) :
    isImulRcp instr = (superscalarFootprint instr).isImulRcp := by
  unfold isImulRcp superscalarFootprint
  cases instr.superscalarType with
  | none => rfl
  | some type => cases type <;> rfl

/-- The reciprocals keep their order. -/
theorem filter_emissionOrder (instructions : List Instruction) :
    (emissionOrder instructions).filter isImulRcp = instructions.filter isImulRcp := by
  rw [emissionOrder_eq]
  refine reorder_induction (P := fun l l' => l'.filter isImulRcp = l.filter isImulRcp) rfl
    ?_ ?_ instructions
  · intro p l l' ih
    rw [List.filter_cons, List.filter_cons, ih]
  · intro p q r l l' ih hSwap
    obtain ⟨hq, hr, -⟩ := swapsSuperscalar_spec hSwap
    rw [← isImulRcp_eq] at hq hr
    simp [List.filter_cons, hq, hr, ih]

theorem emissionOrder_perm (instructions : List Instruction) :
    (emissionOrder instructions).Perm instructions := by
  rw [emissionOrder_eq]
  refine reorder_induction (P := fun l l' => l'.Perm l) (List.Perm.refl _) ?_ ?_ instructions
  · intro p l l' ih
    exact ih.cons p
  · intro p q r l l' ih _
    exact ((List.Perm.swap q r l').trans ((ih.cons r).cons q)).cons p

theorem mem_emissionOrder {instructions : List Instruction} {instr : Instruction}
    (h : instr ∈ emissionOrder instructions) : instr ∈ instructions :=
  (emissionOrder_perm instructions).mem_iff.mp h

/-! ## Instructions without a hazard commute -/

section Commute

variable {reciprocals : List (BitVec 64)} {i j : Instruction}
  {f g : BitVec 64 → BitVec 64 → BitVec 64}

/-- An instruction reads `src` only when its footprint says so. -/
theorem superscalarOp_congr_src (h : superscalarOp reciprocals i = some f) {d s s' : BitVec 64}
    (hSrc : (superscalarFootprint i).intRead = bit i.dst ||| bit i.src → s = s') :
    f d s = f d s' := by
  unfold superscalarOp at h
  unfold superscalarFootprint computeSuperscalarFootprint at hSrc
  cases hType : i.superscalarType with
  | none => simp [hType] at h
  | some type =>
    rw [hType] at h hSrc
    cases type
    case isubR | ixorR | iaddRs | imulR | imulhR | ismulhR => rw [hSrc rfl]
    case imulRcp =>
      simp only [Option.bind_eq_bind, Option.bind_some, Option.bind_eq_some_iff,
        Option.some.injEq] at h
      obtain ⟨_, -, rfl⟩ := h
      rfl
    all_goals
      simp only [Option.bind_eq_bind, Option.bind_some, Option.some.injEq] at h
      subst h
      rfl

/-- The effect of an instruction on the register file. -/
def applyOp (f : BitVec 64 → BitVec 64 → BitVec 64) (instr : Instruction)
    (r : DatasetRegisters) : DatasetRegisters :=
  Function.update r (regOf instr.dst) (f (r (regOf instr.dst)) (r (regOf instr.src)))

theorem regOf_val {b : BitVec 8} (h : b < 8) : (regOf b).val = b.toNat :=
  Nat.mod_eq_of_lt (BitVec.lt_def.mp h)

theorem superscalarFootprint_masks (h : superscalarOp reciprocals i = some f) :
    (superscalarFootprint i).intWrite = bit i.dst ∧
      ((superscalarFootprint i).intRead = bit i.dst ∨
        (superscalarFootprint i).intRead = bit i.dst ||| bit i.src) := by
  unfold superscalarOp at h
  unfold superscalarFootprint computeSuperscalarFootprint
  cases hType : i.superscalarType with
  | none => simp [hType] at h
  | some type => cases type <;> simp

theorem applyOp_hasFootprint (h : superscalarOp reciprocals i = some f) (hDst : i.dst < 8)
    (hSrc : i.src < 8) :
    HasFootprint (fun (k : Fin 8) (r : DatasetRegisters) => r k) (applyOp f i)
      {k | (superscalarFootprint i).intRead.getLsbD k = true}
      {k | (superscalarFootprint i).intWrite.getLsbD k = true} := by
  obtain ⟨hWrite, hRead⟩ := superscalarFootprint_masks h
  have hBit {b : BitVec 8} (hb : b < 8) (k : Fin 8) :
      (bit b).getLsbD k = true ↔ k = regOf b := by
    rw [bit_getLsbD b k.isLt, decide_eq_true_iff, Fin.ext_iff, regOf_val hb]
  have hOnly : {k : Fin 8 | (superscalarFootprint i).intWrite.getLsbD k = true} =
      {regOf i.dst} := by
    ext k
    rw [hWrite]
    exact hBit hDst k
  rw [hOnly]
  refine HasFootprint.single (fun r k hk => Function.update_of_ne hk _ _) ?_
  intro r t hAgree
  simp only [applyOp, Function.update_self]
  have hD : r (regOf i.dst) = t (regOf i.dst) := by
    refine hAgree _ ?_
    show (superscalarFootprint i).intRead.getLsbD (regOf i.dst) = true
    rcases hRead with hRead | hRead <;> rw [hRead]
    · exact (hBit hDst _).mpr rfl
    · rw [BitVec.getLsbD_or, (hBit hDst _).mpr rfl, Bool.true_or]
  rw [hD]
  refine superscalarOp_congr_src h fun hMask => hAgree _ ?_
  show (superscalarFootprint i).intRead.getLsbD (regOf i.src) = true
  rw [hMask, BitVec.getLsbD_or, (hBit hSrc _).mpr rfl, Bool.or_true]

theorem applyOp_commute (hi : superscalarOp reciprocals i = some f)
    (hj : superscalarOp reciprocals j = some g) (hDst : i.dst < 8 ∧ i.src < 8)
    (hDst' : j.dst < 8 ∧ j.src < 8)
    (hHazard : hasHazard (superscalarFootprint i) (superscalarFootprint j) = false)
    (r : DatasetRegisters) : applyOp f i (applyOp g j r) = applyOp g j (applyOp f i r) := by
  obtain ⟨-, -, hWR, hRW, hWW⟩ := not_hasHazard hHazard
  exact HasFootprint.commute (fun _ _ h => funext h)
    (applyOp_hasFootprint hi hDst.1 hDst.2) (applyOp_hasFootprint hj hDst'.1 hDst'.2)
    (fun k hk => hWR (.r k) hk) (fun k hk => hRW (.r k) hk) (fun k hk => hWW (.r k) hk) r

theorem superscalarStep_eq (reciprocals : List (BitVec 64)) (r : DatasetRegisters)
    (instr : Instruction) : superscalarStep reciprocals r instr =
      (superscalarOp reciprocals instr).map fun f => applyOp f instr r := by
  unfold superscalarStep
  cases superscalarOp reciprocals instr <;> rfl

theorem superscalarStep_commute (hDst : i.dst < 8 ∧ i.src < 8) (hDst' : j.dst < 8 ∧ j.src < 8)
    (hHazard : hasHazard (superscalarFootprint i) (superscalarFootprint j) = false)
    (r : DatasetRegisters) :
    (superscalarStep reciprocals r j).bind (superscalarStep reciprocals · i) =
      (superscalarStep reciprocals r i).bind (superscalarStep reciprocals · j) := by
  simp only [superscalarStep_eq]
  cases hi : superscalarOp reciprocals i with
  | none => cases superscalarOp reciprocals j <;> rfl
  | some f =>
    cases hj : superscalarOp reciprocals j with
    | none => rfl
    | some g =>
      simp only [Option.map_some, Option.bind_some]
      rw [applyOp_commute hi hj hDst hDst' hHazard]

/-- The emission order has the effect of the program order. -/
theorem executeSuperscalar_emissionOrder {instructions : List Instruction}
    (hRegs : ∀ instr ∈ instructions, instr.dst < 8 ∧ instr.src < 8) (r : DatasetRegisters) :
    executeSuperscalar reciprocals (emissionOrder instructions) r =
      executeSuperscalar reciprocals instructions r := by
  rw [emissionOrder_eq]
  refine reorder_induction (P := fun l l' => (∀ instr ∈ l, instr.dst < 8 ∧ instr.src < 8) →
    ∀ r, executeSuperscalar reciprocals l' r = executeSuperscalar reciprocals l r)
    (fun _ _ => rfl) ?_ ?_ instructions hRegs r
  · intro p l l' ih hRegs r
    simp only [executeSuperscalar, List.foldlM_cons]
    refine congrArg _ (funext fun r => ?_)
    exact ih (fun instr h => hRegs instr (List.mem_cons_of_mem _ h)) r
  · intro p q s l l' ih hSwap hRegs r
    obtain ⟨-, -, hHazard⟩ := swapsSuperscalar_spec hSwap
    have hq := hRegs q (by simp)
    have hs := hRegs s (by simp)
    have hTail := ih fun instr h => hRegs instr (by simp [h])
    have hComm (r : DatasetRegisters) :
        (superscalarStep reciprocals r s).bind (superscalarStep reciprocals · q) =
          (superscalarStep reciprocals r q).bind (superscalarStep reciprocals · s) :=
      superscalarStep_commute hq hs hHazard r
    simp only [executeSuperscalar, List.foldlM_cons, Option.bind_eq_bind] at hTail ⊢
    refine congrArg _ (funext fun r => ?_)
    rw [← Option.bind_assoc, ← Option.bind_assoc, hComm r]
    refine congrArg _ (funext fun r => ?_)
    exact hTail r

end Commute

/-! ## One instruction on any registers -/

/-- The words for one instruction on the machine registers `dst` and `src`, by
way of `tmp`. The emitters differ in how they add and xor a constant. -/
def opWords (instr : Instruction) (dst src tmp : Nat) (offset : BitVec 32)
    (addConst xorConst : List (BitVec 32)) : List (BitVec 32) :=
  match instr.superscalarType with
  | some .isubR => [op3 ARMV8A.SUB dst src]
  | some .ixorR => [op3 ARMV8A.EOR dst src]
  | some .iaddRs =>
    [ARMV8A.ADD ||| u32 dst ||| u32 dst <<< 5 ||| u32 instr.getModShift <<< 10 ||| u32 src <<< 16]
  | some .imulR => [op3 ARMV8A.MUL dst src]
  | some .irorC =>
    [ARMV8A.ROR_IMM ||| u32 dst ||| u32 dst <<< 5 ||| (instr.imm32 &&& 63) <<< 10 |||
      u32 dst <<< 16]
  | some .iaddC7 | some .iaddC8 | some .iaddC9 => addConst
  | some .ixorC7 | some .ixorC8 | some .ixorC9 => xorConst
  | some .imulhR => [op3 ARMV8A.UMULH dst src]
  | some .ismulhR => [op3 ARMV8A.SMULH dst src]
  | some .imulRcp => [ARMV8A.LDR_LITERAL ||| u32 tmp ||| offset <<< 5, op3 ARMV8A.MUL dst tmp]
  | none => []

/-- What `opWords` decodes to. -/
def opInsns (instr : Instruction) (dst src tmp literalPos : Nat)
    (addConst xorConst : List Insn) : List Insn :=
  match instr.superscalarType with
  | some .isubR => [RegOp.sub.insn dst dst src]
  | some .ixorR => [RegOp.eor.insn dst dst src]
  | some .iaddRs => [.addReg dst dst src instr.getModShift]
  | some .imulR => [RegOp.mul.insn dst dst src]
  | some .irorC => [.extr dst dst dst (instr.imm32.toNat % 64)]
  | some .iaddC7 | some .iaddC8 | some .iaddC9 => addConst
  | some .ixorC7 | some .ixorC8 | some .ixorC9 => xorConst
  | some .imulhR => [RegOp.umulh.insn dst dst src]
  | some .ismulhR => [RegOp.smulh.insn dst dst src]
  | some .imulRcp => [.ldrLit tmp literalPos, RegOp.mul.insn dst dst tmp]
  | none => []

section Op

variable {instr : Instruction} {dst src tmp literalPos codePos : Nat}
  {addConst xorConst : List Insn}

/-- A backward distance survives the unsigned division and the 19-bit field. -/
theorem literalOffset_target (hLt : literalPos < codePos) (hBound : codePos < 2 ^ 20)
    (hAligned : (codePos - literalPos) % 4 = 0) :
    (literalOffset literalPos codePos).toNat < 2 ^ 19 ∧
      branchTarget codePos (literalOffset literalPos codePos).toNat 19 = literalPos := by
  have hSub : (u32 literalPos - u32 codePos).toNat = 2 ^ 32 - (codePos - literalPos) := by
    rw [BitVec.toNat_sub, u32_toNat (by omega), u32_toNat (by omega)]
    omega
  have hNat : (literalOffset literalPos codePos).toNat = 2 ^ 19 - (codePos - literalPos) / 4 := by
    rw [literalOffset, and_lowMask_toNat _ (by omega), BitVec.toNat_udiv, hSub]
    show (2 ^ 32 - (codePos - literalPos)) / 4 % 2 ^ 19 = _
    omega
  rw [hNat, branchTarget]
  refine ⟨by omega, ?_⟩
  rw [if_neg (by omega)]
  omega

theorem opWords_decodes {addWords xorWords : List (BitVec 32)} (hd : dst < 32) (hs : src < 32)
    (ht : tmp < 32) (hLt : isImulRcp instr = true → literalPos < codePos)
    (hBound : codePos < 2 ^ 20) (hAligned : (codePos - literalPos) % 4 = 0)
    (hAdd : Buffer.Decodes codePos addWords addConst)
    (hXor : Buffer.Decodes codePos xorWords xorConst) :
    Buffer.Decodes codePos
      (opWords instr dst src tmp (literalOffset literalPos codePos) addWords xorWords)
      (opInsns instr dst src tmp literalPos addConst xorConst) := by
  have hShift := instr.getModShift_lt
  unfold opWords opInsns
  cases hType : instr.superscalarType with
  | none => trivial
  | some type =>
    cases type with
    | isubR => exact ⟨decode_regOp .sub hd hd hs, trivial⟩
    | ixorR => exact ⟨decode_regOp .eor hd hd hs, trivial⟩
    | imulR => exact ⟨decode_regOp .mul hd hd hs, trivial⟩
    | imulhR => exact ⟨decode_regOp .umulh hd hd hs, trivial⟩
    | ismulhR => exact ⟨decode_regOp .smulh hd hd hs, trivial⟩
    | iaddRs =>
      have hNat : (u32 instr.getModShift).toNat = instr.getModShift := u32_toNat (by omega)
      refine ⟨?_, trivial⟩
      exact (decode_addReg_shift (y := u32 instr.getModShift) hd hd hs (by omega)).trans
        (by rw [hNat])
    | irorC =>
      have hNat : (instr.imm32 &&& 63).toNat = instr.imm32.toNat % 64 :=
        and_63_toNat instr.imm32 (by omega)
      refine ⟨?_, trivial⟩
      exact (decode_extr (y := instr.imm32 &&& 63) hd hd hd (by omega)).trans (by rw [hNat])
    | iaddC7 | iaddC8 | iaddC9 => exact hAdd
    | ixorC7 | ixorC8 | ixorC9 => exact hXor
    | imulRcp =>
      obtain ⟨hShort, hTarget⟩ :=
        literalOffset_target (hLt (by simp [isImulRcp, hType])) hBound hAligned
      refine ⟨?_, decode_regOp .mul hd hd ht, trivial⟩
      exact (decode_ldrLit ht hShort).trans (by rw [hTarget])

theorem opInsns_straight (hAdd : ∀ i ∈ addConst, i.straight = true)
    (hXor : ∀ i ∈ xorConst, i.straight = true) :
    ∀ i ∈ opInsns instr dst src tmp literalPos addConst xorConst, i.straight = true := by
  unfold opInsns
  cases instr.superscalarType with
  | none => simp
  | some type =>
    cases type with
    | iaddC7 | iaddC8 | iaddC9 => exact hAdd
    | ixorC7 | ixorC8 | ixorC9 => exact hXor
    | _ => simp [Insn.straight, RegOp.insn]

/-- A constant in `tmp`, behind the code that loads it, meets `dst`. -/
theorem constOp_straight {mov : List Insn} (h : ∀ i ∈ mov, i.straight = true) (o : RegOp) :
    ∀ i ∈ mov ++ [o.insn dst dst tmp], i.straight = true := by
  intro i hi
  rcases List.mem_append.mp hi with hMov | hOp
  · exact h i hMov
  · rw [List.mem_singleton.mp hOp]
    exact o.insn_straight _ _ _

variable (fu : FloatUnit) (code : Code) {reciprocals : List (BitVec 64)}
  {op : BitVec 64 → BitVec 64 → BitVec 64} {s : State}

theorem execAll_constOp {mov : List Insn} {o : RegOp} {c : BitVec 64} {k : Nat}
    (hMov : execAll fu code mov s = (s.setX tmp c).jump k) (ho : o.isInteger = true)
    (hDst : dst ≠ 31) (hTmp : tmp ≠ 31) (hApart : dst ≠ tmp) :
    (execAll fu code (mov ++ [o.insn dst dst tmp]) s).x dst = o.value (s.x dst) c ∧
      Keeps [dst, tmp] s (execAll fu code (mov ++ [o.insn dst dst tmp]) s) := by
  rw [execAll_append, hMov, execAll_cons, execAll_nil, RegOp.exec_insn ho,
    State.getX_of_ne hDst, State.getX_of_ne hTmp, State.jump_x, State.setX_x,
    Function.update_self, Function.update_of_ne hApart]
  refine ⟨Function.update_self _ _ _, ?_⟩
  exact (((Keeps.setX s c (by simp)).trans (Keeps.jump _ k)).trans
    (Keeps.setX _ _ (by simp))).trans (Keeps.jump _ _)

/-- One instruction leaves `dst` as the interpreter leaves `r[dst]`, and changes
`tmp` at most besides. -/
theorem opInsns_exec (hOp : superscalarOp reciprocals instr = some op) (hDst : dst ≠ 31)
    (hSrc : src ≠ 31) (hTmp : tmp ≠ 31) (hApart : dst ≠ tmp)
    (hAdd : (execAll fu code addConst s).x dst = s.x dst + instr.imm32.signExtend 64)
    (hXor : (execAll fu code xorConst s).x dst = s.x dst ^^^ instr.imm32.signExtend 64)
    (hLiteral : isImulRcp instr = true →
      code.word (literalPos + 4) ++ code.word literalPos =
        reciprocals.getD instr.imm32.toNat 0) :
    (execAll fu code (opInsns instr dst src tmp literalPos addConst xorConst) s).x dst =
      op (s.x dst) (s.x src) := by
  have hReg {o : RegOp} (ho : o.isInteger = true) :
      (execAll fu code [o.insn dst dst src] s).x dst = o.value (s.x dst) (s.x src) := by
    rw [execAll_cons, execAll_nil, RegOp.exec_insn ho, State.getX_of_ne hDst,
      State.getX_of_ne hSrc, State.next_x, State.setX_x, Function.update_self]
  unfold superscalarOp at hOp
  unfold opInsns
  cases hType : instr.superscalarType with
  | none => simp [hType] at hOp
  | some type =>
    rw [hType] at hOp
    simp only [Option.bind_eq_bind, Option.bind_some] at hOp
    cases type
    case isubR =>
      cases hOp
      exact hReg (o := .sub) rfl
    case ixorR =>
      cases hOp
      exact hReg (o := .eor) rfl
    case imulR =>
      cases hOp
      exact hReg (o := .mul) rfl
    case imulhR =>
      cases hOp
      exact hReg (o := .umulh) rfl
    case ismulhR =>
      cases hOp
      exact hReg (o := .smulh) rfl
    case iaddRs =>
      cases hOp
      simp only [execAll_cons, execAll_nil, exec, State.getX_of_ne hDst, State.getX_of_ne hSrc,
        State.next_x, State.setX_x, Function.update_self]
    case irorC =>
      cases hOp
      simp only [execAll_cons, execAll_nil, exec, State.getX_of_ne hDst, State.next_x,
        State.setX_x, Function.update_self]
      exact extract_self _ (Nat.mod_lt _ (by omega))
    case iaddC7 | iaddC8 | iaddC9 =>
      cases hOp
      exact hAdd
    case ixorC7 | ixorC8 | ixorC9 =>
      cases hOp
      exact hXor
    case imulRcp =>
      -- the literal is the reciprocal that the interpreter looks up by its index
      obtain ⟨reciprocal, hGet, hEq⟩ := Option.bind_eq_some_iff.mp hOp
      cases hEq
      have hValue := hLiteral (by simp [isImulRcp, hType])
      rw [List.getD_eq_getElem?_getD, hGet, Option.getD_some] at hValue
      rw [execAll_cons, execAll_cons, execAll_nil, RegOp.exec_insn rfl, State.getX_of_ne hDst,
        State.getX_of_ne hTmp]
      simp only [exec, State.next_x, State.setX_x, Function.update_self,
        Function.update_of_ne hApart, hValue]
      rfl

theorem opInsns_keeps {ds : List Nat} (hDst : dst ∈ ds) (hTmp : tmp ∈ ds)
    (hAdd : Keeps ds s (execAll fu code addConst s))
    (hXor : Keeps ds s (execAll fu code xorConst s)) :
    Keeps ds s
      (execAll fu code (opInsns instr dst src tmp literalPos addConst xorConst) s) := by
  have hOnly {is : List Insn} (h : is.all Insn.registersOnly = true)
      (hDests : ∀ r ∈ is.flatMap Insn.xDests, r = dst ∨ r = tmp) :
      Keeps ds s (execAll fu code is s) := by
    refine execAll_keeps fu code s h fun r hr => ?_
    rcases hDests r hr with rfl | rfl
    · exact hDst
    · exact hTmp
  unfold opInsns
  cases instr.superscalarType with
  | none => exact Keeps.refl _ _
  | some type =>
    cases type with
    | iaddC7 | iaddC8 | iaddC9 => exact hAdd
    | ixorC7 | ixorC8 | ixorC9 => exact hXor
    | imulRcp => exact hOnly rfl (by simp [Insn.xDests, RegOp.insn, or_comm])
    | _ => exact hOnly rfl (by simp [Insn.xDests, RegOp.insn])

end Op

/-! ## The words of one instruction -/

/-- What `superscalarWords` decodes to. -/
def superscalarInsns (instr : Instruction) (literalPos : Nat) : List Insn :=
  let dst := instr.dst.toNat
  opInsns instr dst instr.src.toNat 12 literalPos
    (movHalves 13 instr.imm32 ++ [RegOp.add.insn dst dst 13])
    (movHalves 12 instr.imm32 ++ [RegOp.eor.insn dst dst 12])

section Words

variable {instr : Instruction} {literalPos codePos : Nat}

theorem superscalarWords_eq (instr : Instruction) (literalPos codePos : Nat) :
    superscalarWords instr literalPos codePos =
      opWords instr instr.dst.toNat instr.src.toNat 12 (literalOffset literalPos codePos)
        (emitCpoolImmediate 13 instr.imm32 ++ [op3 ARMV8A.ADD instr.dst.toNat 13])
        (emitCpoolImmediate 12 instr.imm32 ++ [op3 ARMV8A.EOR instr.dst.toNat 12]) := by
  unfold superscalarWords opWords
  cases instr.superscalarType with
  | none => rfl
  | some type => cases type <;> rfl

theorem emitCpoolImmediate_decodes {dst : Nat} (hDst : dst < 32) (imm : BitVec 32) :
    Buffer.Decodes codePos (emitCpoolImmediate dst imm) (movHalves dst imm) := by
  have hHigh (x : BitVec 32) : (x >>> 16).toNat < 2 ^ 16 := by
    rw [BitVec.toNat_ushiftRight, Nat.shiftRight_eq_div_pow]
    omega
  have hLow : (imm &&& 0xFFFF).toNat < 2 ^ 16 := by
    rw [BitVec.toNat_and]
    exact Nat.lt_of_le_of_lt Nat.and_le_right (by decide)
  unfold emitCpoolImmediate movHalves
  refine ⟨?_, decode_movk hDst hLow, trivial⟩
  split
  · exact decode_movn_hi hDst (hHigh _)
  · exact decode_movz_hi hDst (hHigh _)

theorem superscalarWords_decodes (hDst : instr.dst < 8) (hSrc : instr.src < 8)
    (hLt : isImulRcp instr = true → literalPos < codePos) (hBound : codePos < 2 ^ 20)
    (hAligned : (codePos - literalPos) % 4 = 0) :
    Buffer.Decodes codePos (superscalarWords instr literalPos codePos)
      (superscalarInsns instr literalPos) := by
  have hd : instr.dst.toNat < 8 := BitVec.lt_def.mp hDst
  have hs : instr.src.toNat < 8 := BitVec.lt_def.mp hSrc
  have hConst {o : RegOp} {t : Nat} (ht : t < 32) : Buffer.Decodes codePos
      (emitCpoolImmediate t instr.imm32 ++ [op3 o.word instr.dst.toNat t])
      (movHalves t instr.imm32 ++ [o.insn instr.dst.toNat instr.dst.toNat t]) :=
    (emitCpoolImmediate_decodes ht _).append
      ⟨decode_regOp o (by omega) (by omega) ht, trivial⟩
  rw [superscalarWords_eq]
  exact opWords_decodes (by omega) (by omega) (by omega) hLt hBound hAligned
    (hConst (o := .add) (by omega)) (hConst (o := .eor) (by omega))

theorem superscalarInsns_straight : ∀ i ∈ superscalarInsns instr literalPos,
    i.straight = true :=
  opInsns_straight (constOp_straight movHalves_straight .add)
    (constOp_straight movHalves_straight .eor)

end Words

/-! ## Running the words -/

/-- The registers a superscalar program may change. -/
def superscalarDests : List Nat := [0, 1, 2, 3, 4, 5, 6, 7, 12, 13]

section Runs

variable (fu : FloatUnit) (code : Code) {reciprocals : List (BitVec 64)} {instr : Instruction}
  {op : BitVec 64 → BitVec 64 → BitVec 64} {literalPos : Nat} {s : State}

/-- One instruction leaves `r[dst]` as the interpreter does. -/
theorem superscalarInsns_exec (hOp : superscalarOp reciprocals instr = some op)
    (hDst : instr.dst < 8) (hSrc : instr.src < 8)
    (hLiteral : isImulRcp instr = true →
      code.word (literalPos + 4) ++ code.word literalPos =
        reciprocals.getD instr.imm32.toNat 0) :
    (execAll fu code (superscalarInsns instr literalPos) s).x instr.dst.toNat =
        op (s.x instr.dst.toNat) (s.x instr.src.toNat) ∧
      Keeps [instr.dst.toNat, 12, 13] s
        (execAll fu code (superscalarInsns instr literalPos) s) := by
  have hd : instr.dst.toNat < 8 := BitVec.lt_def.mp hDst
  have hs : instr.src.toNat < 8 := BitVec.lt_def.mp hSrc
  have hConst {o : RegOp} {t : Nat} (ho : o.isInteger = true) (ht : 8 ≤ t) (ht' : t < 31) :
      (execAll fu code (movHalves t instr.imm32 ++
          [o.insn instr.dst.toNat instr.dst.toNat t]) s).x instr.dst.toNat =
          o.value (s.x instr.dst.toNat) (instr.imm32.signExtend 64) ∧
        Keeps [instr.dst.toNat, t] s (execAll fu code (movHalves t instr.imm32 ++
          [o.insn instr.dst.toNat instr.dst.toNat t]) s) :=
    execAll_constOp fu code (execAll_movHalves fu code (by omega)) ho (by omega) (by omega)
      (by omega)
  have hAdd := hConst (o := .add) (t := 13) rfl (by omega) (by omega)
  have hXor := hConst (o := .eor) (t := 12) rfl (by omega) (by omega)
  refine ⟨opInsns_exec fu code hOp (by omega) (by omega) (by omega) (by omega) hAdd.1 hXor.1
    hLiteral, opInsns_keeps fu code (by simp) (by simp) (hAdd.2.mono ?_) (hXor.2.mono ?_)⟩ <;>
  · intro r hr
    simp only [List.mem_cons, List.not_mem_nil, or_false] at hr ⊢
    omega

/-- One instruction, on the whole register file. -/
theorem superscalarInsns_step {r : DatasetRegisters}
    (hOp : superscalarOp reciprocals instr = some op) (hDst : instr.dst < 8)
    (hSrc : instr.src < 8)
    (hLiteral : isImulRcp instr = true →
      code.word (literalPos + 4) ++ code.word literalPos = reciprocals.getD instr.imm32.toNat 0)
    (hx : ∀ i : Fin 8, s.x i = r i) :
    (∀ i : Fin 8, (execAll fu code (superscalarInsns instr literalPos) s).x i =
        applyOp op instr r i) ∧
      Keeps superscalarDests s (execAll fu code (superscalarInsns instr literalPos) s) := by
  obtain ⟨hExec, hKeeps⟩ := superscalarInsns_exec fu code (s := s) hOp hDst hSrc hLiteral
  have hd : (regOf instr.dst).val = instr.dst.toNat := regOf_val hDst
  have hs : (regOf instr.src).val = instr.src.toNat := regOf_val hSrc
  refine ⟨fun i => ?_, hKeeps.mono ?_⟩
  · unfold applyOp
    by_cases hi : i = regOf instr.dst
    · subst hi
      rw [Function.update_self, hd, hExec, ← hd, ← hs, hx, hx]
    · have hNe : i.val ≠ instr.dst.toNat := fun h => hi (Fin.ext (h.trans hd.symm))
      have hNotIn : i.val ∉ [instr.dst.toNat, 12, 13] := by
        simp only [List.mem_cons, List.not_mem_nil, or_false, not_or]
        omega
      rw [Function.update_of_ne hi, hKeeps.x _ hNotIn, hx]
  · have hLt : instr.dst.toNat < 8 := BitVec.lt_def.mp hDst
    intro k hk
    simp only [List.mem_cons, List.not_mem_nil, or_false] at hk
    simp only [superscalarDests, List.mem_cons, List.not_mem_nil, or_false]
    omega

end Runs

section Programs

variable {fu : FloatUnit} {b : Buffer} {base : BitVec 64} {reciprocals : List (BitVec 64)}

theorem quad_length (v : BitVec 64) : (quad v).length = 2 := rfl

theorem word_quad {k : Nat} {v : BitVec 64} (h : b.At k (quad v)) :
    (b.code base).word (k + 4) ++ (b.code base).word k = v := by
  have hLow : b k = .word (v.setWidth 32) := h 0 (by simp [quad_length])
  have hHigh : b (k + 4) = .word ((v >>> 32).setWidth 32) := h 1 (by simp [quad_length])
  simp only [Buffer.code, hLow, hHigh]
  exact halves_append v

/-- An `IMUL_RCP` takes the first reciprocal of the pool, any other instruction
leaves the pool to the rest. -/
theorem literalPool_cons {instr : Instruction} {rest : List Instruction} {literalPos codePos : Nat}
    (hPool : b.At literalPos ((literalPool reciprocals (instr :: rest)).flatMap quad))
    (hFront : literalPos + 8 * (literalPool reciprocals (instr :: rest)).length ≤ codePos)
    (hAligned : (codePos - literalPos) % 4 = 0) :
    (isImulRcp instr = true → literalPos < codePos ∧
        b.At literalPos (quad (reciprocals.getD instr.imm32.toNat 0))) ∧
      b.At (if isImulRcp instr then literalPos + 8 else literalPos)
        ((literalPool reciprocals rest).flatMap quad) ∧
      (if isImulRcp instr then literalPos + 8 else literalPos) +
        8 * (literalPool reciprocals rest).length ≤ codePos ∧
      (codePos - if isImulRcp instr then literalPos + 8 else literalPos) % 4 = 0 := by
  unfold literalPool at *
  rw [List.filter_cons] at hPool hFront
  by_cases hRcp : isImulRcp instr = true
  · simp only [hRcp, if_true, List.map_cons, List.flatMap_cons, List.length_cons] at *
    exact ⟨fun _ => ⟨by omega, hPool.append_left⟩, hPool.append_right, by omega, by omega⟩
  · simp only [hRcp, Bool.false_eq_true, if_false] at *
    exact ⟨nofun, hPool, hFront, hAligned⟩

/-- **A program's words compute what the interpreter does**, the pool in front
of them holding the reciprocals in the order they are consumed. -/
theorem emitSuperscalar_reaches {instructions : List Instruction} {literalPos codePos : Nat}
    {r r' : DatasetRegisters} {s : State}
    (hAt : b.At codePos ((emitSuperscalar instructions literalPos codePos).map .word))
    (hPool : b.At literalPos ((literalPool reciprocals instructions).flatMap quad))
    (hFront : literalPos + 8 * (literalPool reciprocals instructions).length ≤ codePos)
    (hAligned : (codePos - literalPos) % 4 = 0)
    (hBound : codePos + 4 * (emitSuperscalar instructions literalPos codePos).length < 2 ^ 20)
    (hRegs : ∀ instr ∈ instructions, instr.dst < 8 ∧ instr.src < 8)
    (hExec : executeSuperscalar reciprocals instructions r = some r')
    (hPc : s.pc = codePos) (hx : ∀ i : Fin 8, s.x i = r i) :
    ∃ t, Reaches fu (b.code base) s t ∧
      t.pc = codePos + 4 * (emitSuperscalar instructions literalPos codePos).length ∧
      (∀ i : Fin 8, t.x i = r' i) ∧ Keeps superscalarDests s t := by
  induction instructions generalizing literalPos codePos r s with
  | nil =>
    cases hExec
    exact ⟨s, Reaches.refl s, hPc, hx, Keeps.refl _ _⟩
  | cons instr rest ih =>
    obtain ⟨hDst, hSrc⟩ := hRegs instr (List.mem_cons_self ..)
    obtain ⟨hFirst, hLater, hFront', hAligned'⟩ := literalPool_cons hPool hFront hAligned
    rw [executeSuperscalar, List.foldlM_cons, superscalarStep_eq] at hExec
    obtain ⟨r₁, hStep, hRest⟩ := Option.bind_eq_some_iff.mp hExec
    obtain ⟨op, hOp, rfl⟩ := Option.map_eq_some_iff.mp hStep
    rw [emitSuperscalar, List.map_append] at hAt
    rw [emitSuperscalar, List.length_append] at hBound ⊢
    -- the head's own words
    have hDecodes := superscalarWords_decodes hDst hSrc (fun h => (hFirst h).1) (by omega) hAligned
    have hBlock := hAt.append_left.block_words base hDecodes
    rw [← hPc] at hBlock
    obtain ⟨hx₁, hKeeps⟩ := superscalarInsns_step fu (b.code base) hOp hDst hSrc
      (fun h => word_quad (hFirst h).2) hx
    have hPc₁ : (execAll fu (b.code base) (superscalarInsns instr literalPos) s).pc = _ :=
      Block.execAll_pc superscalarInsns_straight
    rw [← hDecodes.length_eq, hPc] at hPc₁
    -- the words of the rest
    have hTail := hAt.append_right
    rw [List.length_map] at hTail
    obtain ⟨t, hReach, hEnd, hxt, hKeepsT⟩ := ih hTail hLater (by omega) (by omega) (by omega)
      (fun i hi => hRegs i (List.mem_cons_of_mem _ hi)) hRest hPc₁ hx₁
    refine ⟨t, (hBlock.reaches superscalarInsns_straight).trans hReach, ?_, hxt,
      hKeeps.trans hKeepsT⟩
    rw [hEnd]
    omega

end Programs

end ArmRx.Jit
