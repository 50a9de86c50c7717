import ArmRx.Jit.CalcDatasetItem
import ArmRx.Jit.Dataset2Way
import ArmRx.Lib.Reorder

/-!
# Interleaved streams

The function `JitDataset2Way::generate` emits derives two items as if each were
derived alone; here one superscalar program of it. A valid order has the effect
of the program order and consumes the reciprocals in the order of the pool; the
copies of an instruction write their own stream's registers only, so neither
stream sees the other.

* `scheduleSuperscalarProgram_validOrder` — the scheduler of the single-stream
  function gives a valid order.
* `emitInterleaved_reaches` — one program, on both streams.
-/

namespace ArmRx.Jit

open ArmRx.Lib ArmRx.Vm ArmRx.A64

namespace JitDataset2Way

/-! ## Orders -/

section Orders

variable {reciprocals : List (BitVec 64)} {instructions : List Instruction} {order : List Nat}

theorem ValidOrder.rearranges (h : ValidOrder instructions order) :
    Rearranges Dependent instructions (order.map fun i => instructions.getD i default) :=
  rearranges_of_pairwise default h.perm h.ascending

/-- A valid order has the effect of the program order. -/
theorem ValidOrder.executeSuperscalar_eq (h : ValidOrder instructions order)
    (hRegs : ∀ instr ∈ instructions, instr.dst < 8 ∧ instr.src < 8) (r : DatasetRegisters) :
    executeSuperscalar reciprocals (order.map fun i => instructions.getD i default) r =
      executeSuperscalar reciprocals instructions r := by
  refine h.rearranges.foldlM_eq (fun i hi j hj hFree r => ?_) r
  have hHazard : hasHazard (superscalarFootprint i) (superscalarFootprint j) = false := by
    rw [Bool.eq_false_iff]
    exact fun hTrue => hFree (Or.inl hTrue)
  exact (superscalarStep_commute (hRegs i hi) (hRegs j hj) hHazard r).symm

/-- A valid order consumes the reciprocals as the pool holds them. -/
theorem ValidOrder.literalPool_eq (h : ValidOrder instructions order) :
    literalPool reciprocals (order.map fun i => instructions.getD i default) =
      literalPool reciprocals instructions := by
  unfold literalPool
  rw [h.rearranges.filter_eq fun _ _ hi hj => Or.inr ⟨hi, hj⟩]

theorem hasHazard_comm (a b : InstrFootprint) : hasHazard a b = hasHazard b a := by
  have hMasks (x y z w : BitVec 8) : (x &&& y != 0 || z &&& w != 0 || x &&& w != 0) =
      (w &&& z != 0 || y &&& x != 0 || w &&& x != 0) := by
    rw [BitVec.and_comm x y, BitVec.and_comm z w, BitVec.and_comm x w,
      Bool.or_comm (y &&& x != 0) (w &&& z != 0)]
  unfold hasHazard
  rw [Bool.or_comm a.isBarrier, Bool.and_comm a.isMemoryOp, hMasks, hMasks a.fWrite,
    hMasks a.eWrite]

/-- The positions a scheduled rest consists of. -/
theorem scheduleSuperscalarFrom_perm (i : Nat) (l : List InstrFootprint) :
    (scheduleSuperscalarFrom i l).Perm (List.range' i l.length) := by
  match l with
  | [] => exact List.Perm.refl _
  | [_] => exact List.Perm.refl _
  | [_, _] => exact List.Perm.refl _
  | p :: q :: r :: rest =>
    rw [scheduleSuperscalarFrom]
    split
    · have hRest := scheduleSuperscalarFrom_perm (i + 3) rest
      exact ((List.Perm.swap (i + 1) (i + 2) _).trans ((hRest.cons _).cons _)).cons i
    · exact (scheduleSuperscalarFrom_perm (i + 1) (q :: r :: rest)).cons i
termination_by l.length

/-- Only an independent pair is emitted out of order. -/
theorem scheduleSuperscalarFrom_ascending {dep : Nat → Nat → Prop} {i : Nat}
    {l : List InstrFootprint}
    (hFree : ∀ k p q r rest, l.drop k = p :: q :: r :: rest → swapsSuperscalar p q r = true →
      ¬dep (i + k + 2) (i + k + 1)) :
    (scheduleSuperscalarFrom i l).Pairwise fun a b => dep a b → a < b := by
  match l with
  | [] => exact List.Pairwise.nil
  | [_] => exact List.pairwise_singleton _ _
  | [_, _] =>
    refine List.pairwise_cons.mpr ⟨fun b hb _ => ?_, List.pairwise_singleton _ _⟩
    rw [List.mem_singleton.mp hb]
    exact Nat.lt_succ_self i
  | p :: q :: r :: rest =>
    -- whatever is scheduled later stands at a later position
    have hLater (n : Nat) (fs : List InstrFootprint) (b : Nat)
        (hb : b ∈ scheduleSuperscalarFrom n fs) : n ≤ b := by
      have hIn := (scheduleSuperscalarFrom_perm n fs).subset hb
      rw [List.mem_range'_1] at hIn
      exact hIn.1
    rw [scheduleSuperscalarFrom]
    split
    · rename_i hSwap
      have hIndep : ¬dep (i + 2) (i + 1) := hFree 0 p q r rest rfl hSwap
      have hRest : (scheduleSuperscalarFrom (i + 3) rest).Pairwise fun a b => dep a b → a < b := by
        refine scheduleSuperscalarFrom_ascending fun k p' q' r' rest' hDrop hSwap' => ?_
        have := hFree (k + 3) p' q' r' rest' hDrop hSwap'
        rwa [show i + (k + 3) = i + 3 + k by omega] at this
      refine List.pairwise_cons.mpr ⟨fun b hb _ => ?_, List.pairwise_cons.mpr ⟨fun b hb hDep => ?_,
        List.pairwise_cons.mpr ⟨fun b hb _ => ?_, hRest⟩⟩⟩
      · rcases List.mem_cons.mp hb with rfl | hb
        · omega
        · rcases List.mem_cons.mp hb with rfl | hb
          · omega
          · have := hLater (i + 3) rest b hb
            omega
      · rcases List.mem_cons.mp hb with rfl | hb
        · exact absurd hDep hIndep
        · have := hLater (i + 3) rest b hb
          omega
      · have := hLater (i + 3) rest b hb
        omega
    · refine List.pairwise_cons.mpr ⟨fun b hb _ => ?_,
        scheduleSuperscalarFrom_ascending fun k p' q' r' rest' hDrop hSwap' => ?_⟩
      · have := hLater (i + 1) (q :: r :: rest) b hb
        omega
      · have := hFree (k + 1) p' q' r' rest' hDrop hSwap'
        rwa [show i + (k + 1) = i + 1 + k by omega] at this
termination_by l.length

/-- **The single-stream scheduler is one of the schedulers the module may be
given.** -/
theorem scheduleSuperscalarProgram_validOrder (instructions : List Instruction) :
    ValidOrder instructions (scheduleSuperscalarProgram instructions) where
  perm := by
    have hPerm := scheduleSuperscalarFrom_perm 0 (instructions.map superscalarFootprint)
    rwa [List.length_map, ← List.range_eq_range'] at hPerm
  ascending := by
    refine scheduleSuperscalarFrom_ascending fun k p q r rest hDrop hSwap hDep => ?_
    rw [← List.map_drop] at hDrop
    obtain ⟨a, l₁, hA, rfl, hDrop₁⟩ := List.map_eq_cons_iff.mp hDrop
    obtain ⟨b, l₂, rfl, rfl, hDrop₂⟩ := List.map_eq_cons_iff.mp hDrop₁
    obtain ⟨c, l₃, rfl, rfl, -⟩ := List.map_eq_cons_iff.mp hDrop₂
    obtain ⟨-, h₁⟩ := getD_of_drop_cons default hA
    obtain ⟨hB, h₂⟩ := getD_of_drop_cons default h₁
    obtain ⟨hC, -⟩ := getD_of_drop_cons default h₂
    rw [Nat.zero_add] at hDep
    rw [show k + 2 = k + 1 + 1 from rfl, hB, hC] at hDep
    obtain ⟨hNotB, hNotC, hHazard⟩ := swapsSuperscalar_spec hSwap
    rw [← isImulRcp_eq] at hNotB
    rcases hDep with hDep | ⟨-, hDep⟩
    · rw [hasHazard_comm, hHazard] at hDep
      cases hDep
    · rw [hNotB] at hDep
      cases hDep

end Orders

/-! ## Size -/

section Size

theorem emitMovImmediate2Way_length (dst : Nat) (imm : BitVec 32) :
    (emitMovImmediate2Way dst imm).length ≤ 2 := by
  unfold emitMovImmediate2Way
  split <;> simp

/-- A copy of an instruction takes three words at most. -/
theorem Stream.emit_length (st : Stream) (instr : Instruction) (literalPos pos : Nat) :
    (st.emit instr literalPos pos).length ≤ 3 := by
  have hAdd (dst src : Nat) : (emitAddImmediate2Way dst src instr.imm32 st.tmp).length ≤ 3 := by
    have hMov := emitMovImmediate2Way_length st.tmp instr.imm32
    unfold emitAddImmediate2Way
    split
    · dsimp only
      split
      · simp
      · split <;> simp
    · rw [List.length_append, List.length_singleton]
      omega
  have hMov := emitMovImmediate2Way_length st.tmp instr.imm32
  unfold emit emitSuperscalarInstr
  cases instr.superscalarType with
  | none => simp
  | some type =>
    cases type with
    | iaddC7 | iaddC8 | iaddC9 => exact hAdd _ _
    | ixorC7 | ixorC8 | ixorC9 =>
      simp only [List.length_append, List.length_singleton]
      omega
    | _ => simp

theorem emitInterleaved_size (reciprocals : List (BitVec 64)) (instructions : List Instruction)
    (literalPosA literalPosB pos : Nat) :
    4 * (emitInterleaved instructions literalPosA literalPosB pos).length +
      8 * (literalPool reciprocals instructions).length ≤ 32 * instructions.length := by
  induction instructions generalizing literalPosA literalPosB pos with
  | nil => simp [emitInterleaved, literalPool]
  | cons instr rest ih =>
    have hA := streamA.emit_length instr literalPosA pos
    have hB := streamB.emit_length instr literalPosB
      (pos + 4 * (streamA.emit instr literalPosA pos).length)
    have hRest := ih (nextLiteral instr literalPosA) (nextLiteral instr literalPosB)
      (pos + 4 * (streamA.emit instr literalPosA pos).length + 4 * (streamB.emit instr literalPosB
        (pos + 4 * (streamA.emit instr literalPosA pos).length)).length)
    have hPool : (literalPool reciprocals (instr :: rest)).length ≤
        (literalPool reciprocals rest).length + 1 := by
      unfold literalPool
      rw [List.filter_cons]
      split <;> simp
    simp only [emitInterleaved, List.length_append, List.length_cons]
    omega

variable {scheduler : SuperscalarScheduler}

/-- A round fits its share of the buffer; the branch over the pool is paid for by
the room the instructions leave. -/
theorem round_size (reciprocals : List (BitVec 64)) {program : SuperscalarProgram}
    (hOrder : ValidOrder program.instructions (scheduler program)) (codePos : Nat) :
    4 * (round reciprocals scheduler program codePos).length ≤
      24 + (kSuperscalarMaxSize * 16 * 2 + kSuperscalarMaxSize * 8) + 104 := by
  have hBody := emitInterleaved_size reciprocals (emitOrder scheduler program) (codePos + 28)
    (codePos + 28) (codePos + 28 + 8 * (literalPool reciprocals program.instructions).length)
  have hPool : literalPool reciprocals (emitOrder scheduler program) = _ := hOrder.literalPool_eq
  have hLength : (emitOrder scheduler program).length = program.instructions.length :=
    hOrder.rearranges.perm.length_eq
  have hSize : program.instructions.length ≤ 512 := program.size_le
  have hMax : kSuperscalarMaxSize = 512 := rfl
  have hPos : codePos + 24 + 4 = codePos + 28 := rfl
  rw [hPool, hLength] at hBody
  simp only [round, hPos, List.length_append, List.length_map, flatMap_quad_length,
    List.length_cons, List.length_nil, calcDatasetItem2WayPrefetch, calcDatasetItem2WayMix, hMax]
  omega

theorem rounds_size (reciprocals : List (BitVec 64)) {programs : List SuperscalarProgram}
    (hOrders : ∀ program ∈ programs, ValidOrder program.instructions (scheduler program))
    (codePos : Nat) :
    4 * (rounds reciprocals scheduler programs codePos).length ≤
      programs.length * (24 + (kSuperscalarMaxSize * 16 * 2 + kSuperscalarMaxSize * 8) + 104) := by
  induction programs generalizing codePos with
  | nil => simp [rounds]
  | cons program rest ih =>
    have hHead := round_size reciprocals (hOrders program List.mem_cons_self) codePos
    have hRest := ih (fun p hp => hOrders p (List.mem_cons_of_mem _ hp))
      (codePos + 4 * (round reciprocals scheduler program codePos).length)
    rw [rounds, List.length_append, List.length_cons, Nat.add_mul, Nat.one_mul]
    omega

theorem slots_size {programs : Fin kRandomXCacheAccesses → SuperscalarProgram}
    (reciprocals : List (BitVec 64))
    (hOrders : ∀ i, ValidOrder (programs i).instructions (scheduler (programs i))) :
    4 * (slots (List.ofFn programs) reciprocals scheduler).length ≤ calcDataset2WaySize := by
  have hEach (program : SuperscalarProgram) (hIn : program ∈ List.ofFn programs) :
      ValidOrder program.instructions (scheduler program) := by
    obtain ⟨i, rfl⟩ := List.mem_ofFn.mp hIn
    exact hOrders i
  have hRounds := rounds_size reciprocals hEach (4 * calcDatasetItem2WayHead.length)
  rw [List.length_ofFn] at hRounds
  have hHead : calcDatasetItem2WayHead.length = 61 := rfl
  have hTail : (calcDatasetItem2WayStoreResult.map Slot.asm ++ [Slot.asm .ret]).length = 15 := rfl
  have hTotal : calcDataset2WaySize = 244 + kRandomXCacheAccesses *
      (24 + (kSuperscalarMaxSize * 16 * 2 + kSuperscalarMaxSize * 8) + 104) + 60 := rfl
  rw [slots, List.length_append, List.length_append, hTail, hTotal, hHead]
  rw [hHead] at hRounds
  omega

end Size

/-! ## A stream's copy of one instruction -/

/-- What `emitAddImmediate2Way` decodes to. -/
def addInsns2Way (dst src tmp : Nat) (imm : BitVec 32) : List Insn :=
  if imm < 0x1000000 then addInsns 64 dst src imm
  else movInsns 64 tmp imm ++ [RegOp.add.insn dst src tmp]

/-- What a stream's copy decodes to. -/
def Stream.insns (st : Stream) (instr : Instruction) (literalPos : Nat) : List Insn :=
  let dst := st.reg instr.dst.toNat
  opInsns instr dst (st.reg instr.src.toNat) st.tmp literalPos
    (addInsns2Way dst dst st.tmp instr.imm32)
    (movInsns 64 st.tmp instr.imm32 ++ [RegOp.eor.insn dst dst st.tmp])

/-- The registers of a stream hold the register file `r`. -/
def Stream.Holds (st : Stream) (r : DatasetRegisters) (s : State) : Prop :=
  ∀ i : Fin 8, s.x (st.reg i) = r i

theorem Stream.Holds.keeps {st : Stream} {r : DatasetRegisters} {s t : State} {ds : List Nat}
    (h : st.Holds r s) (hKeeps : Keeps ds s t) (hApart : ∀ i < 8, st.reg i ∉ ds) :
    st.Holds r t := fun i => (hKeeps.x _ (hApart i i.isLt)).trans (h i)

section Copy

variable {st : Stream} {instr : Instruction} {dst src tmp literalPos pos : Nat} {imm : BitVec 32}

theorem emitMovImmediate2Way_decodes (hDst : dst < 32) (imm : BitVec 32) :
    Buffer.Decodes pos (emitMovImmediate2Way dst imm) (movInsns 64 dst imm) := by
  unfold emitMovImmediate2Way movInsns
  split
  · rename_i hSmall
    exact ⟨decode_movz hDst (BitVec.lt_def.mp hSmall), trivial⟩
  · exact emitCpoolImmediate_decodes hDst imm

theorem emitAddImmediate2Way_decodes (hDst : dst < 32) (hSrc : src < 32) (hTmp : tmp < 32)
    (imm : BitVec 32) :
    Buffer.Decodes pos (emitAddImmediate2Way dst src imm tmp) (addInsns2Way dst src tmp imm) := by
  have hLo : (imm &&& 0xFFF).toNat < 2 ^ 12 := by
    rw [BitVec.toNat_and]
    exact Nat.lt_of_le_of_lt Nat.and_le_right (by decide)
  unfold emitAddImmediate2Way addInsns2Way
  split
  · rename_i hSmall
    have hHi : (imm >>> 12).toNat < 2 ^ 12 := by
      have := BitVec.lt_def.mp hSmall
      rw [BitVec.toNat_ushiftRight, Nat.shiftRight_eq_div_pow]
      simp only [BitVec.reduceToNat] at this
      omega
    unfold addInsns
    rw [if_pos hSmall]
    dsimp only
    split
    · exact ⟨decode_addImm_lo hDst hSrc hLo, decode_addImm_hi hDst hDst hHi, trivial⟩
    · split
      · exact ⟨decode_addImm_lo hDst hSrc hLo, trivial⟩
      · exact ⟨decode_addImm_hi hDst hSrc hHi, trivial⟩
  · exact (emitMovImmediate2Way_decodes hTmp imm).append
      ⟨decode_regOp .add hDst hSrc hTmp, trivial⟩

theorem Stream.emit_eq (st : Stream) (instr : Instruction) (literalPos pos : Nat) :
    st.emit instr literalPos pos =
      opWords instr (st.reg instr.dst.toNat) (st.reg instr.src.toNat) st.tmp
        (literalOffset literalPos pos)
        (emitAddImmediate2Way (st.reg instr.dst.toNat) (st.reg instr.dst.toNat) instr.imm32 st.tmp)
        (emitMovImmediate2Way st.tmp instr.imm32 ++
          [op3 ARMV8A.EOR (st.reg instr.dst.toNat) st.tmp]) := by
  unfold emit emitSuperscalarInstr opWords
  cases instr.superscalarType with
  | none => rfl
  | some type => cases type <;> rfl

theorem Stream.emit_decodes (st : Stream) (hDst : instr.dst < 8) (hSrc : instr.src < 8)
    (hLt : isImulRcp instr = true → literalPos < pos) (hBound : pos < 2 ^ 20)
    (hAligned : (pos - literalPos) % 4 = 0) :
    Buffer.Decodes pos (st.emit instr literalPos pos) (st.insns instr literalPos) := by
  have hd := st.reg_lt _ (BitVec.lt_def.mp hDst)
  have hs := st.reg_lt _ (BitVec.lt_def.mp hSrc)
  have ht := st.tmp_lt
  rw [st.emit_eq]
  refine opWords_decodes (by omega) (by omega) (by omega) hLt hBound hAligned
    (emitAddImmediate2Way_decodes (by omega) (by omega) (by omega) _) ?_
  exact (emitMovImmediate2Way_decodes (by omega) _).append
    ⟨decode_regOp .eor (by omega) (by omega) (by omega), trivial⟩

theorem Stream.insns_straight (st : Stream) :
    ∀ i ∈ st.insns instr literalPos, i.straight = true := by
  refine opInsns_straight ?_ (constOp_straight movInsns_straight .eor)
  unfold addInsns2Way
  split
  · exact addInsns_straight
  · exact constOp_straight movInsns_straight .add

variable (fu : FloatUnit) (code : Code) {reciprocals : List (BitVec 64)}
  {op : BitVec 64 → BitVec 64 → BitVec 64} {s : State}

/-- The addition writes its destination and at most the temporary. -/
theorem execAll_addInsns2Way (hDst : dst ≠ 31) (hTmp : tmp ≠ 31) (hApart : dst ≠ tmp) :
    (execAll fu code (addInsns2Way dst dst tmp imm) s).x dst = s.x dst + imm.signExtend 64 ∧
      Keeps [dst, tmp] s (execAll fu code (addInsns2Way dst dst tmp imm) s) := by
  unfold addInsns2Way
  split
  · rename_i hSmall
    rw [execAll_addInsns_small fu code hDst hDst hSmall]
    exact ⟨Function.update_self _ _ _, (Keeps.setX s _ (by simp)).trans (Keeps.jump _ _)⟩
  · exact execAll_constOp (o := .add) fu code (execAll_movInsns fu code hTmp (by omega)) rfl hDst
      hTmp hApart

/-- A stream's copy of an instruction does to the stream what the interpreter
does, and changes one of its registers and its temporary at most. -/
theorem Stream.insns_step (st : Stream) {r : DatasetRegisters}
    (hOp : superscalarOp reciprocals instr = some op) (hDst : instr.dst < 8)
    (hSrc : instr.src < 8)
    (hLiteral : isImulRcp instr = true →
      code.word (literalPos + 4) ++ code.word literalPos = reciprocals.getD instr.imm32.toNat 0)
    (hx : st.Holds r s) :
    st.Holds (applyOp op instr r) (execAll fu code (st.insns instr literalPos) s) ∧
      Keeps [st.reg instr.dst.toNat, st.tmp] s (execAll fu code (st.insns instr literalPos) s) := by
  have hd8 : instr.dst.toNat < 8 := BitVec.lt_def.mp hDst
  have hs8 : instr.src.toNat < 8 := BitVec.lt_def.mp hSrc
  have hd := st.reg_lt _ hd8
  have hs := st.reg_lt _ hs8
  have ht := st.tmp_lt
  have hApart := st.tmp_apart _ hd8
  have hAdd : (execAll fu code (addInsns2Way _ _ st.tmp instr.imm32) s).x
        (st.reg instr.dst.toNat) = _ ∧ Keeps [st.reg instr.dst.toNat, st.tmp] s _ :=
    execAll_addInsns2Way fu code (by omega) (by omega) hApart
  have hXor : (execAll fu code (movInsns 64 st.tmp instr.imm32 ++ [RegOp.eor.insn _ _ st.tmp])
        s).x (st.reg instr.dst.toNat) = _ ∧ Keeps [st.reg instr.dst.toNat, st.tmp] s _ :=
    execAll_constOp fu code (execAll_movInsns fu code (by omega) (by omega)) rfl (by omega)
      (by omega) hApart
  have hExec : (execAll fu code (st.insns instr literalPos) s).x (st.reg instr.dst.toNat) =
      op (s.x (st.reg instr.dst.toNat)) (s.x (st.reg instr.src.toNat)) :=
    opInsns_exec fu code hOp (by omega) (by omega) (by omega) hApart hAdd.1 hXor.1 hLiteral
  have hKeeps : Keeps [st.reg instr.dst.toNat, st.tmp] s
      (execAll fu code (st.insns instr literalPos) s) :=
    opInsns_keeps fu code (by simp) (by simp) hAdd.2 hXor.2
  refine ⟨fun i => ?_, hKeeps⟩
  have hdVal : (regOf instr.dst).val = instr.dst.toNat := regOf_val hDst
  have hsVal : (regOf instr.src).val = instr.src.toNat := regOf_val hSrc
  unfold applyOp
  by_cases hi : i = regOf instr.dst
  · subst hi
    rw [Function.update_self, hdVal, hExec, ← hdVal, ← hsVal, hx, hx]
  · have hNe : st.reg i ≠ st.reg instr.dst.toNat := fun h =>
      hi (Fin.ext ((st.reg_inj _ i.isLt _ hd8 h).trans hdVal.symm))
    have hNotIn : st.reg i ∉ [st.reg instr.dst.toNat, st.tmp] := by
      simp [hNe, st.tmp_apart i i.isLt]
    rw [Function.update_of_ne hi, hKeeps.x _ hNotIn, hx]

variable {fu}

/-- The words of a copy, where they lie. -/
theorem Stream.emit_reaches (st : Stream) {b : Buffer} {base : BitVec 64} {r : DatasetRegisters}
    (hAt : b.At pos ((st.emit instr literalPos pos).map .word))
    (hOp : superscalarOp reciprocals instr = some op) (hDst : instr.dst < 8)
    (hSrc : instr.src < 8)
    (hPool : isImulRcp instr = true → literalPos < pos ∧
      b.At literalPos (quad (reciprocals.getD instr.imm32.toNat 0)))
    (hBound : pos < 2 ^ 20) (hAligned : (pos - literalPos) % 4 = 0) (hPc : s.pc = pos)
    (hx : st.Holds r s) :
    ∃ t, Reaches fu (b.code base) s t ∧ t.pc = pos + 4 * (st.emit instr literalPos pos).length ∧
      st.Holds (applyOp op instr r) t ∧ Keeps [st.reg instr.dst.toNat, st.tmp] s t := by
  have hDecodes := st.emit_decodes hDst hSrc (fun h => (hPool h).1) hBound hAligned
  have hBlock : Block (b.code base) s.pc (st.insns instr literalPos) :=
    hPc ▸ hAt.block_words base hDecodes
  obtain ⟨hHolds, hKeeps⟩ := st.insns_step fu (b.code base) hOp hDst hSrc
    (fun h => word_quad (hPool h).2) hx
  refine ⟨_, hBlock.reaches st.insns_straight, ?_, hHolds, hKeeps⟩
  rw [Block.execAll_pc st.insns_straight, hDecodes.length_eq, hPc]

end Copy

/-! ## A program on both streams -/

/-- The registers an interleaved program may change. -/
def interleavedDests : List Nat :=
  [0, 1, 2, 3, 4, 5, 6, 7, 12, 16, 19, 20, 21, 22, 23, 24, 25, 26]

theorem streamA_apart : ∀ d < 8, ∀ i < 8, streamA.reg i ∉ [streamB.reg d, streamB.tmp] := by decide

theorem streamB_apart : ∀ d < 8, ∀ i < 8, streamB.reg i ∉ [streamA.reg d, streamA.tmp] := by decide

theorem streamA_dests : ∀ d < 8, ∀ r ∈ [streamA.reg d, streamA.tmp], r ∈ interleavedDests := by
  decide

theorem streamB_dests : ∀ d < 8, ∀ r ∈ [streamB.reg d, streamB.tmp], r ∈ interleavedDests := by
  decide

/-- **An interleaved program does to each stream what the interpreter does.** -/
theorem emitInterleaved_reaches {fu : FloatUnit} {b : Buffer} {base : BitVec 64}
    {reciprocals : List (BitVec 64)} {instructions : List Instruction} {literalPos pos : Nat}
    {rA rA' rB rB' : DatasetRegisters} {s : State}
    (hAt : b.At pos ((emitInterleaved instructions literalPos literalPos pos).map .word))
    (hPool : b.At literalPos ((literalPool reciprocals instructions).flatMap quad))
    (hFront : literalPos + 8 * (literalPool reciprocals instructions).length ≤ pos)
    (hAligned : (pos - literalPos) % 4 = 0)
    (hBound : pos + 4 * (emitInterleaved instructions literalPos literalPos pos).length < 2 ^ 20)
    (hRegs : ∀ instr ∈ instructions, instr.dst < 8 ∧ instr.src < 8)
    (hExecA : executeSuperscalar reciprocals instructions rA = some rA')
    (hExecB : executeSuperscalar reciprocals instructions rB = some rB')
    (hPc : s.pc = pos) (hA : streamA.Holds rA s) (hB : streamB.Holds rB s) :
    ∃ t, Reaches fu (b.code base) s t ∧
      t.pc = pos + 4 * (emitInterleaved instructions literalPos literalPos pos).length ∧
      streamA.Holds rA' t ∧ streamB.Holds rB' t ∧ Keeps interleavedDests s t := by
  induction instructions generalizing literalPos pos rA rB s with
  | nil =>
    cases hExecA
    cases hExecB
    exact ⟨s, Reaches.refl s, hPc, hA, hB, Keeps.refl _ _⟩
  | cons instr rest ih =>
    obtain ⟨hDst, hSrc⟩ := hRegs instr List.mem_cons_self
    have hd8 : instr.dst.toNat < 8 := BitVec.lt_def.mp hDst
    obtain ⟨hFirst, (hLater : b.At (nextLiteral instr literalPos) _),
      (hFront' : nextLiteral instr literalPos + _ ≤ pos),
      (hAligned' : (pos - nextLiteral instr literalPos) % 4 = 0)⟩ :=
        literalPool_cons hPool hFront hAligned
    rw [executeSuperscalar, List.foldlM_cons, superscalarStep_eq] at hExecA hExecB
    obtain ⟨_, hStepA, hRestA⟩ := Option.bind_eq_some_iff.mp hExecA
    obtain ⟨_, hStepB, hRestB⟩ := Option.bind_eq_some_iff.mp hExecB
    obtain ⟨op, hOp, rfl⟩ := Option.map_eq_some_iff.mp hStepA
    obtain ⟨_, hOp', rfl⟩ := Option.map_eq_some_iff.mp hStepB
    obtain rfl := Option.some.inj (hOp.symm.trans hOp')
    simp only [emitInterleaved, List.map_append] at hAt
    simp only [emitInterleaved, List.length_append] at hBound ⊢
    -- stream A's copy leaves stream B alone
    obtain ⟨s₁, (hReach₁ : Reaches fu (b.code base) s s₁), hPc₁, hA₁, hKeeps₁⟩ :=
      streamA.emit_reaches hAt.append_left hOp hDst hSrc hFirst (by omega) hAligned hPc hA
    have hB₁ : streamB.Holds rB s₁ := hB.keeps hKeeps₁ (streamB_apart _ hd8)
    -- and the other way round
    have hAtB := hAt.append_right
    rw [List.length_map] at hAtB
    obtain ⟨s₂, (hReach₂ : Reaches fu (b.code base) s₁ s₂), hPc₂, hB₂, hKeeps₂⟩ :=
      streamB.emit_reaches hAtB.append_left hOp hDst hSrc
        (fun h => ⟨by have := (hFirst h).1; omega, (hFirst h).2⟩) (by omega) (by omega) hPc₁ hB₁
    have hA₂ := hA₁.keeps hKeeps₂ (streamA_apart _ hd8)
    have hAtRest := hAtB.append_right
    rw [List.length_map] at hAtRest
    obtain ⟨t, hReach, hEnd, hAt', hBt', hKeeps⟩ := ih hAtRest hLater (by omega) (by omega)
      (by omega)
      (fun i hi => hRegs i (List.mem_cons_of_mem _ hi)) hRestA hRestB hPc₂ hA₂ hB₂
    refine ⟨t, (hReach₁.trans hReach₂).trans hReach, ?_, hAt', hBt', ?_⟩
    · rw [hEnd]
      omega
    · exact ((hKeeps₁.mono (streamA_dests _ hd8)).trans
        (hKeeps₂.mono (streamB_dests _ hd8))).trans hKeeps

end JitDataset2Way

end ArmRx.Jit
