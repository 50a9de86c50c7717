import ArmRx.A64.Pairs
import ArmRx.Jit.SuperscalarSound

/-!
# The dataset-item function

The size of the code `generateSuperscalarHash` assembles, and its rounds. A
round masks the register value to a cache line, runs the superscalar program
and mixes the line in; the rounds sit between a frame that saves `x0` to `x13`
and one that restores them.

* `generateSuperscalarHash_eq` — the code always fits its slot.
* `superscalarProgram_reaches` — one round is `datasetRound`.
-/

namespace ArmRx.Jit

open ArmRx.Lib ArmRx.Vm ArmRx.A64

/-! ## Size -/

section Size

/-- An instruction and its reciprocal take sixteen bytes at most. -/
theorem superscalarWords_size (instr : Instruction) (literalPos codePos : Nat) :
    4 * (superscalarWords instr literalPos codePos).length +
      (if isImulRcp instr then 8 else 0) ≤ 16 := by
  unfold superscalarWords isImulRcp
  cases instr.superscalarType with
  | none => simp
  | some type => cases type <;> simp [emitCpoolImmediate]

theorem emitSuperscalar_size (reciprocals : List (BitVec 64)) (instructions : List Instruction)
    (literalPos codePos : Nat) :
    4 * (emitSuperscalar instructions literalPos codePos).length +
      8 * (literalPool reciprocals instructions).length ≤ 16 * instructions.length := by
  induction instructions generalizing literalPos codePos with
  | nil => simp [emitSuperscalar, literalPool]
  | cons instr rest ih =>
    have hHead := superscalarWords_size instr literalPos codePos
    have hRest := ih (if isImulRcp instr then literalPos + 8 else literalPos)
      (codePos + 4 * (superscalarWords instr literalPos codePos).length)
    have hPool : (literalPool reciprocals (instr :: rest)).length =
        (literalPool reciprocals rest).length + if isImulRcp instr then 1 else 0 := by
      unfold literalPool
      rw [List.filter_cons]
      split <;> simp
    rw [emitSuperscalar, List.length_append, List.length_cons, hPool]
    by_cases hRcp : isImulRcp instr = true
    · simp only [hRcp, if_true] at *
      omega
    · simp only [hRcp, Bool.false_eq_true, if_false] at *
      omega

theorem literalPool_emissionOrder (reciprocals : List (BitVec 64))
    (instructions : List Instruction) :
    literalPool reciprocals (emissionOrder instructions) =
      literalPool reciprocals instructions := by
  rw [literalPool, filter_emissionOrder]
  rfl

theorem flatMap_quad_length (vs : List (BitVec 64)) : (vs.flatMap quad).length = 2 * vs.length := by
  induction vs with
  | nil => rfl
  | cons v vs ih =>
    rw [List.flatMap_cons, List.length_append, ih, quad_length, List.length_cons]
    omega

/-- The room for one program: the figure in `CalcDatasetItemSize`. -/
theorem superscalarProgram_size (reciprocals : List (BitVec 64)) (program : SuperscalarProgram)
    (codePos : Nat) :
    4 * (superscalarProgram reciprocals program codePos).length ≤
      12 + 4 + kSuperscalarMaxSize * 16 + 48 + 4 := by
  have hWords := emitSuperscalar_size reciprocals (emissionOrder program.instructions)
    (codePos + 12 + 4)
    (codePos + 12 + 4 + 8 * (literalPool reciprocals program.instructions).length)
  rw [literalPool_emissionOrder, (emissionOrder_perm _).length_eq] at hWords
  have hSize := program.size_le
  simp only [superscalarProgram, List.length_append, List.length_map, flatMap_quad_length,
    List.length_cons, List.length_nil, calcDatasetItemPrefetch, calcDatasetItemMix]
  omega

theorem superscalarPrograms_size (reciprocals : List (BitVec 64))
    (programs : List SuperscalarProgram) (codePos : Nat) :
    4 * (superscalarPrograms reciprocals programs codePos).length ≤
      programs.length * (12 + 4 + kSuperscalarMaxSize * 16 + 48 + 4) := by
  induction programs generalizing codePos with
  | nil => simp [superscalarPrograms]
  | cons program rest ih =>
    have hHead := superscalarProgram_size reciprocals program codePos
    have hRest := ih (codePos + 4 * (superscalarProgram reciprocals program codePos).length)
    rw [superscalarPrograms, List.length_append, List.length_cons, Nat.add_mul, Nat.one_mul]
    omega

theorem calcDatasetItemHead_length : calcDatasetItemHead.length = 44 := rfl

theorem calcDatasetItemSlots_size (programs : Fin kRandomXCacheAccesses → SuperscalarProgram)
    (reciprocals : List (BitVec 64)) :
    4 * (calcDatasetItemSlots (List.ofFn programs) reciprocals).length ≤ CalcDatasetItemSize := by
  have hPrograms := superscalarPrograms_size reciprocals (List.ofFn programs)
    (CodeSize + 4 * calcDatasetItemHead.length)
  rw [List.length_ofFn] at hPrograms
  have hTail : calcDatasetItemStoreResult.length = 12 := rfl
  have hTotal : CalcDatasetItemSize = 176 +
      kRandomXCacheAccesses * (12 + 4 + kSuperscalarMaxSize * 16 + 48 + 4) + 52 := rfl
  rw [calcDatasetItemHead_length] at hPrograms
  simp only [calcDatasetItemSlots, List.length_append, List.length_map, hTail,
    List.length_singleton, calcDatasetItemHead_length]
  omega

/-- **The code always fits**: the abort behind the emission is never reached. -/
theorem generateSuperscalarHash_eq (programs : Fin kRandomXCacheAccesses → SuperscalarProgram)
    (reciprocals : List (BitVec 64)) (b : Buffer) :
    generateSuperscalarHash (List.ofFn programs) reciprocals b =
      some (b.place CodeSize (calcDatasetItemSlots (List.ofFn programs) reciprocals)) := by
  have hSize := calcDatasetItemSlots_size programs reciprocals
  rw [generateSuperscalarHash]
  exact if_neg (by omega)

end Size

/-! ## One round -/

section Round

variable {fu : FloatUnit} {b : Buffer} {base cacheBase : BitVec 64} {cache : Argon2dCache}
  {s : State} {r r' : DatasetRegisters} {v v' : BitVec 64} {codePos : Nat}

/-- The registers between two rounds: `r0` to `r7`, the cache memory and the
register value that selects the next line. -/
structure BetweenRounds (cacheBase : BitVec 64) (r : DatasetRegisters) (v : BitVec 64)
    (s : State) : Prop where
  registers : ∀ i : Fin 8, s.x i = r i
  cacheMemory : s.x 8 = cacheBase
  registerValue : s.x 10 = v

/-- What a round writes: the registers, the value, the line and two temporaries. -/
def roundDests : List Nat := [0, 1, 2, 3, 4, 5, 6, 7, 10, 11, 12, 13]

/-- The code in front of a program's jump: the address of the selected line. -/
def lineAddress : List Insn := .andImm 11 10 (bitmask 64 22 0) :: calcDatasetItemPrefetch

theorem cacheLineMask_decode :
    decode codePos cacheLineMask = some (.andImm 11 10 (bitmask 64 22 0)) := rfl

/-- The masked register value, times the line size. -/
theorem lineOffset_eq (v : BitVec 64) :
    (v &&& bitmask 64 22 0) <<< 6 = BitVec.ofNat 64 (64 * (v.toNat % 2 ^ 22)) := by
  have hMask : bitmask 64 22 0 = 0x3FFFFF#64 := by decide
  have hAnd : (v &&& 0x3FFFFF#64).toNat = v.toNat % 2 ^ 22 := by
    rw [BitVec.toNat_and]
    exact Nat.and_two_pow_sub_one_eq_mod v.toNat 22
  apply BitVec.eq_of_toNat_eq
  rw [hMask, BitVec.toNat_shiftLeft, hAnd, Nat.shiftLeft_eq, BitVec.toNat_ofNat]
  omega

variable (fu) in
theorem execAll_lineAddress (code : Code) (s : State) :
    (execAll fu code lineAddress s).x 11 =
        s.x 8 + BitVec.ofNat 64 (64 * ((s.x 10).toNat % 2 ^ 22)) ∧
      Keeps [11] s (execAll fu code lineAddress s) := by
  refine ⟨?_, execAll_keeps fu code s rfl (by decide)⟩
  rw [← lineOffset_eq]
  rfl

variable (fu) in
/-- The mix xors the line at `x11` into `r0` to `r7`. -/
theorem execAll_calcDatasetItemMix (code : Code) (s : State) :
    (∀ i : Fin 8, (execAll fu code calcDatasetItemMix s).x i =
        s.x i ^^^ s.mem.load64 (s.x 11 + BitVec.ofNat 64 (8 * i))) ∧
      Keeps superscalarDests s (execAll fu code calcDatasetItemMix s) := by
  refine ⟨fun i => ?_, execAll_keeps fu code s rfl (by decide)⟩
  have hReg : (regsOf [(0, 1), (2, 3), (4, 5), (6, 7)])[i.val]? = some i.val := by
    revert i
    decide
  have hWord := execAll_xorPairs fu code (t := 12) (u := 13) (n := 11) (s := s) 0 (by decide)
    (by decide) hReg
  rw [Nat.zero_add] at hWord
  exact hWord

/-- The branch over the reciprocals. -/
theorem decode_branchOver {jmpPos words : Nat} (h : words < 2 ^ 25) :
    decode jmpPos (ARMV8A.B ||| u32 words) = some (.b (jmpPos + 4 * words)) := by
  have hNat : (u32 words).toNat = words := u32_toNat (by omega)
  refine (decode_b (y := u32 words) (by omega)).trans ?_
  rw [branchTarget, hNat, if_pos h]

/-- Where the parts of a program lie. -/
structure ProgramAt (b : Buffer) (base : BitVec 64) (reciprocals : List (BitVec 64))
    (program : SuperscalarProgram) (codePos bodyPos mixPos : Nat) : Prop where
  bodyPos_eq : bodyPos = codePos + 16 + 8 * (literalPool reciprocals program.instructions).length
  mixPos_eq : mixPos = bodyPos + 4 *
    (emitSuperscalar (emissionOrder program.instructions) (codePos + 16) bodyPos).length
  line : Block (b.code base) codePos lineAddress
  jump : (b.code base).insn (codePos + 12) = some (.b bodyPos)
  pool : b.At (codePos + 16) ((literalPool reciprocals program.instructions).flatMap quad)
  body : b.At bodyPos
    ((emitSuperscalar (emissionOrder program.instructions) (codePos + 16) bodyPos).map .word)
  mix : Block (b.code base) mixPos calcDatasetItemMix
  value : (b.code base).insn (mixPos + 48) = some (.orrReg 10 31 program.addressRegister)
  length : codePos + 4 * (superscalarProgram reciprocals program codePos).length = mixPos + 52

theorem superscalarProgram_at {reciprocals : List (BitVec 64)} {program : SuperscalarProgram}
    (hAt : b.At codePos (superscalarProgram reciprocals program codePos)) (base : BitVec 64) :
    ∃ bodyPos mixPos, ProgramAt b base reciprocals program codePos bodyPos mixPos := by
  have hPool : 8 * (literalPool reciprocals program.instructions).length ≤ 16 * 512 := by
    have := emitSuperscalar_size reciprocals program.instructions 0 0
    have hSize : program.instructions.length ≤ 512 := program.size_le
    omega
  -- taken apart from the back
  have hPos : codePos + 12 + 4 = codePos + 16 := rfl
  simp only [superscalarProgram, hPos] at hAt
  have hValue := hAt.append_right
  have hMix := hAt.append_left.append_right
  have hBody := hAt.append_left.append_left.append_right
  have hQuads := hAt.append_left.append_left.append_left.append_right
  have hJump := hAt.append_left.append_left.append_left.append_left.append_right
  have hFetch := hAt.append_left.append_left.append_left.append_left.append_left.append_right
  have hMask := hAt.append_left.append_left.append_left.append_left.append_left.append_left
  have hFetchLength : calcDatasetItemPrefetch.length = 2 := rfl
  have hMixLength : calcDatasetItemMix.length = 12 := rfl
  simp only [List.length_append, List.length_map, flatMap_quad_length, List.length_cons,
    List.length_nil, hFetchLength, hMixLength] at hValue hMix hBody hQuads hJump hFetch
  refine ⟨_, _, rfl, rfl, ?_, ?_, ?_, ?_, ?_, ?_, ?_⟩
  · exact block_cons (hMask.insn_word base cacheLineMask_decode) (hFetch.block_asm base)
  · refine hJump.insn_word base ((decode_branchOver (by omega)).trans ?_)
    congr 2
    omega
  · exact hQuads
  · exact hBody.of_eq (by omega)
  · exact (hMix.block_asm base).of_eq (by omega)
  · exact (hValue.of_eq (by omega)).insn_word base (decode_movReg (by omega) (by omega))
  · simp only [superscalarProgram, hPos, List.length_append, List.length_map, flatMap_quad_length,
      List.length_cons, List.length_nil, hFetchLength, hMixLength]
    omega

/-- From the start of a program to its first instruction: `x11` is the line. -/
theorem ProgramAt.line_reaches {reciprocals : List (BitVec 64)} {program : SuperscalarProgram}
    {bodyPos mixPos : Nat} (hCode : ProgramAt b base reciprocals program codePos bodyPos mixPos)
    (hPc : s.pc = codePos) :
    ∃ t, Reaches fu (b.code base) s t ∧ t.pc = bodyPos ∧
      t.x 11 = s.x 8 + BitVec.ofNat 64 (64 * ((s.x 10).toNat % 2 ^ 22)) ∧ Keeps [11] s t := by
  obtain ⟨hLine, hKeeps⟩ := execAll_lineAddress fu (b.code base) s
  have hBlock : Block (b.code base) s.pc lineAddress := hPc ▸ hCode.line
  have hReach : Reaches fu (b.code base) s _ := hBlock.reaches (by decide)
  have hPc₁ : (execAll fu (b.code base) lineAddress s).pc = codePos + 12 := by
    rw [Block.execAll_pc (by decide), hPc]
    rfl
  generalize execAll fu (b.code base) lineAddress s = s₁ at hLine hKeeps hReach hPc₁
  -- the branch over the reciprocals
  have hJump : Reaches fu (b.code base) s₁ (exec fu (b.code base) (.b bodyPos) s₁) :=
    Reaches.step (hPc₁ ▸ hCode.jump)
  exact ⟨s₁.jump bodyPos, hReach.trans hJump, rfl, hLine, hKeeps.trans (Keeps.jump s₁ bodyPos)⟩

/-- From behind the last instruction of a program to its end: the line is mixed
in and the next register value is chosen. -/
theorem ProgramAt.mix_reaches {reciprocals : List (BitVec 64)} {program : SuperscalarProgram}
    {bodyPos mixPos : Nat} (hCode : ProgramAt b base reciprocals program codePos bodyPos mixPos)
    (hPc : s.pc = mixPos) :
    ∃ t, Reaches fu (b.code base) s t ∧ t.pc = mixPos + 52 ∧
      (∀ i : Fin 8, t.x i = s.x i ^^^ s.mem.load64 (s.x 11 + BitVec.ofNat 64 (8 * i))) ∧
      t.x 10 = t.x program.addressRegister ∧ Keeps (10 :: superscalarDests) s t := by
  obtain ⟨hx, hKeeps⟩ := execAll_calcDatasetItemMix fu (b.code base) s
  have hBlock : Block (b.code base) s.pc calcDatasetItemMix := hPc ▸ hCode.mix
  have hReach : Reaches fu (b.code base) s _ := hBlock.reaches (by decide)
  have hPc₁ : (execAll fu (b.code base) calcDatasetItemMix s).pc = mixPos + 48 := by
    rw [Block.execAll_pc (by decide), hPc]
    rfl
  generalize execAll fu (b.code base) calcDatasetItemMix s = s₁ at hx hKeeps hReach hPc₁
  have hStep : Reaches fu (b.code base) s₁
      (exec fu (b.code base) (.orrReg 10 31 program.addressRegister) s₁) :=
    Reaches.step (hPc₁ ▸ hCode.value)
  have hExec : exec fu (b.code base) (.orrReg 10 31 program.addressRegister) s₁ =
      (s₁.setX 10 (s₁.x program.addressRegister)).next := by
    have hNe : program.addressRegister.val ≠ 31 := by omega
    simp only [exec, State.getX, if_true, if_neg hNe, BitVec.ofNat_eq_ofNat, BitVec.zero_or]
  rw [hExec] at hStep
  have hOther (i : Fin 8) : (s₁.setX 10 (s₁.x program.addressRegister)).next.x i = s₁.x i := by
    have hNe : i.val ≠ 10 := by omega
    exact Function.update_of_ne hNe _ _
  refine ⟨_, hReach.trans hStep, ?_, fun i => (hOther i).trans (hx i), ?_, ?_⟩
  · rw [State.next_pc, State.setX_pc, hPc₁]
  · rw [hOther, State.next_x, State.setX_x, Function.update_self]
  · exact ((hKeeps.mono fun _ => List.mem_cons_of_mem 10).trans
      (Keeps.setX s₁ _ List.mem_cons_self)).trans (Keeps.jump _ _)

/-- The word of a line that a round mixes into a register. -/
theorem load64_line (hDefault : cache.Default) {m : Mem}
    (hCache : Backs cacheBase kRandomXCacheBytes m cache.bytes) (v : BitVec 64) (i : Fin 8) :
    m.load64 (cacheBase + BitVec.ofNat 64 (64 * (v.toNat % 2 ^ 22)) + BitVec.ofNat 64 (8 * i)) =
      cache.loadCacheLine (v.toNat % cache.lineCount) i := by
  have hWord : m.load64 (cacheBase + BitVec.ofNat 64 (64 * (v.toNat % 2 ^ 22) + 8 * i)) =
      cache.bytes.load64 (64 * (v.toNat % 2 ^ 22) + 8 * i) :=
    hCache.load64 (by unfold kRandomXCacheBytes; omega)
  rw [BitVec.add_assoc, ← BitVec.ofNat_add, hWord, cache.loadCacheLine_eq,
    Argon2dCache.lineCount_of_default hDefault, Nat.mod_mod]

/-- **A round of the code is a round of `generate_dataset_item`.** -/
theorem superscalarProgram_reaches {program : SuperscalarProgram}
    (hAt : b.At codePos (superscalarProgram cache.reciprocalCache program codePos))
    (hBound : codePos + 4 * (superscalarProgram cache.reciprocalCache program codePos).length <
      2 ^ 20)
    (hDefault : cache.Default) (hCache : Backs cacheBase kRandomXCacheBytes s.mem cache.bytes)
    (hRound : datasetRound cache (r, v) program = some (r', v'))
    (hPc : s.pc = codePos) (hs : BetweenRounds cacheBase r v s) :
    ∃ t, Reaches fu (b.code base) s t ∧
      t.pc = codePos + 4 * (superscalarProgram cache.reciprocalCache program codePos).length ∧
      BetweenRounds cacheBase r' v' t ∧ Keeps roundDests s t := by
  obtain ⟨bodyPos, mixPos, hCode⟩ := superscalarProgram_at hAt base
  rw [hCode.length] at hBound ⊢
  obtain ⟨hBodyPos, hMixPos⟩ := And.intro hCode.bodyPos_eq hCode.mixPos_eq
  -- the run of the program in the interpreter, in the order it was emitted
  obtain ⟨rl, hExec, hr', hv'⟩ := datasetRound_eq_some hRound
  rw [← executeSuperscalar_emissionOrder program.registers] at hExec
  obtain ⟨s₁, (hReach₁ : Reaches fu (b.code base) s s₁), hPc₁, hLine, hKeeps₁⟩ :=
    hCode.line_reaches hPc
  rw [← literalPool_emissionOrder] at hBodyPos
  obtain ⟨s₂, (hReach₂ : Reaches fu (b.code base) s₁ s₂), hPc₂, hx₂, hKeeps₂⟩ :=
    emitSuperscalar_reaches hCode.body (by rw [literalPool_emissionOrder]; exact hCode.pool)
      (by omega) (by omega) (by omega)
      (fun i hi => program.registers i (mem_emissionOrder hi)) hExec hPc₁
      (fun i => (hKeeps₁.x i (by simp; omega)).trans (hs.registers i))
  have hKeeps₁₂ : Keeps (11 :: superscalarDests) s s₂ :=
    (hKeeps₁.mono (by decide)).trans (hKeeps₂.mono (by decide))
  obtain ⟨s₃, (hReach₃ : Reaches fu (b.code base) s₂ s₃), hPc₃, hx₃, hValue, hKeeps₃⟩ :=
    hCode.mix_reaches (hPc₂.trans hMixPos.symm)
  have hx₃' (i : Fin 8) : s₃.x i = r' i := by
    rw [hx₃, hx₂, hKeeps₂.x 11 (by decide), hLine, hKeeps₁₂.mem, hs.cacheMemory,
      hs.registerValue, load64_line hDefault hCache, hr']
  refine ⟨s₃, (hReach₁.trans hReach₂).trans hReach₃, hPc₃, ⟨hx₃', ?_, ?_⟩, ?_⟩
  · have hEight : s₃.x 8 = s.x 8 := (hKeeps₃.x 8 (by decide)).trans (hKeeps₁₂.x 8 (by decide))
    exact hEight.trans hs.cacheMemory
  · rw [hValue, hx₃', hv']
  · exact (hKeeps₁₂.mono (by decide)).trans (hKeeps₃.mono (by decide))

end Round

end ArmRx.Jit
