import ArmRx.Jit.Dataset2WaySound

/-!
# A call of the two-item function

The rounds of both streams, and the code around them: the frame that saves `x19`
to `x28`, the seed registers of both items, the two stored items, and the frame
that restores what was saved.

* `round_reaches` — a round of the code is a round of `generate_dataset_item` on
  each stream.
* `slots_reaches` — the contract of a call.
* `generate_correct` — the emitted function.
-/

namespace ArmRx.Jit

open ArmRx.Lib ArmRx.Vm ArmRx.A64

namespace JitDataset2Way

variable {fu : FloatUnit} {b : Buffer} {base cacheBase : BitVec 64} {cache : Argon2dCache}
  {scheduler : SuperscalarScheduler} {s : State}

/-! ## One round -/

/-- The registers between two rounds. -/
structure Between (cacheBase : BitVec 64) (a c : DatasetRegisters × BitVec 64) (s : State) :
    Prop where
  registersA : streamA.Holds a.1 s
  registersB : streamB.Holds c.1 s
  cacheMemory : s.x 8 = cacheBase
  valueA : s.x 10 = a.2
  valueB : s.x 28 = c.2

/-- What a round writes. -/
def pairDests : List Nat :=
  [0, 1, 2, 3, 4, 5, 6, 7, 10, 11, 12, 13, 14, 16, 17, 19, 20, 21, 22, 23, 24, 25, 26, 28]

/-- The pairs of stream B's registers. -/
def itemPairsB : List (Nat × Nat) := [(19, 20), (21, 22), (23, 24), (25, 26)]

/-- The code in front of a round's jump. -/
def lineAddresses : List Insn :=
  .andImm 11 10 (bitmask 64 22 0) :: .andImm 17 28 (bitmask 64 22 0) :: calcDatasetItem2WayPrefetch

theorem maskWords_decode {k : Nat} : Buffer.Decodes k [streamA.maskWord, streamB.maskWord]
    [.andImm 11 10 (bitmask 64 22 0), .andImm 17 28 (bitmask 64 22 0)] := ⟨rfl, rfl, trivial⟩

/-- The next register values. -/
def valueInsns (program : SuperscalarProgram) : List Insn :=
  [.orrReg 10 31 (streamA.reg program.addressRegister),
   .orrReg 28 31 (streamB.reg program.addressRegister)]

theorem valueWords_decode {k : Nat} (program : SuperscalarProgram) :
    Buffer.Decodes k [streamA.valueWord program, streamB.valueWord program]
      (valueInsns program) := by
  have hRegA := streamA.reg_lt _ program.addressRegister.isLt
  have hRegB := streamB.reg_lt _ program.addressRegister.isLt
  exact ⟨decode_movReg (by decide) (by omega), decode_movReg (by decide) (by omega), trivial⟩

variable (fu) in
theorem execAll_lineAddresses (code : Code) (s : State) :
    (execAll fu code lineAddresses s).x 11 =
        s.x 8 + BitVec.ofNat 64 (64 * ((s.x 10).toNat % 2 ^ 22)) ∧
      (execAll fu code lineAddresses s).x 17 =
        s.x 8 + BitVec.ofNat 64 (64 * ((s.x 28).toNat % 2 ^ 22)) ∧
      Keeps [11, 17] s (execAll fu code lineAddresses s) := by
  refine ⟨?_, ?_, execAll_keeps fu code s rfl (by decide)⟩ <;> rw [← lineOffset_eq] <;> rfl

variable (fu) in
/-- The mix xors each stream's line into its registers. -/
theorem execAll_calcDatasetItem2WayMix (code : Code) (s : State) :
    (∀ i : Fin 8, (execAll fu code calcDatasetItem2WayMix s).x (streamA.reg i) =
        s.x (streamA.reg i) ^^^ s.mem.load64 (s.x 11 + BitVec.ofNat 64 (8 * i))) ∧
      (∀ i : Fin 8, (execAll fu code calcDatasetItem2WayMix s).x (streamB.reg i) =
        s.x (streamB.reg i) ^^^ s.mem.load64 (s.x 17 + BitVec.ofNat 64 (8 * i))) ∧
      Keeps pairDests s (execAll fu code calcDatasetItem2WayMix s) := by
  have hSplit : calcDatasetItem2WayMix =
      xorPairs 12 13 11 0 itemPairs ++ xorPairs 16 14 17 0 itemPairsB := rfl
  have hKeepsA := execAll_xorPairs_keeps fu code 12 13 11 0 itemPairs s
  rw [hSplit, execAll_append]
  have hRegA : ∀ i : Fin 8, (regsOf itemPairs)[i.val]? = some (streamA.reg i) := by decide
  have hRegB : ∀ i : Fin 8, (regsOf itemPairsB)[i.val]? = some (streamB.reg i) := by decide
  have hA (i : Fin 8) := execAll_xorPairs fu code (t := 12) (u := 13) (n := 11) (s := s) 0
    (by decide) (by decide) (hRegA i)
  generalize execAll fu code (xorPairs 12 13 11 0 itemPairs) s = s₁ at hA hKeepsA ⊢
  have hKeepsB := execAll_xorPairs_keeps fu code 16 14 17 0 itemPairsB s₁
  have hB (i : Fin 8) := execAll_xorPairs fu code (t := 16) (u := 14) (n := 17) (s := s₁) 0
    (by decide) (by decide) (hRegB i)
  generalize execAll fu code (xorPairs 16 14 17 0 itemPairsB) s₁ = s₂ at hB hKeepsB ⊢
  simp only [Nat.zero_add, State.getXsp_of_ne (show 11 ≠ 31 by decide),
    State.getXsp_of_ne (show 17 ≠ 31 by decide)] at hA hB
  have hApartA : ∀ i < 8, streamA.reg i ∉ 16 :: 14 :: regsOf itemPairsB := by decide
  have hApartB : ∀ i < 8, streamB.reg i ∉ 12 :: 13 :: regsOf itemPairs := by decide
  refine ⟨fun i => (hKeepsB.x _ (hApartA i i.isLt)).trans (hA i), fun i => ?_, ?_⟩
  · rw [hB, hKeepsA.x _ (hApartB i i.isLt), hKeepsA.mem, hKeepsA.x 17 (by decide)]
  · exact (hKeepsA.mono (by decide)).trans (hKeepsB.mono (by decide))

/-- Where the parts of a round lie. -/
structure RoundAt (b : Buffer) (base : BitVec 64) (reciprocals : List (BitVec 64))
    (order : List Instruction) (program : SuperscalarProgram) (codePos bodyPos mixPos : Nat) :
    Prop where
  bodyPos_eq : bodyPos = codePos + 28 + 8 * (literalPool reciprocals program.instructions).length
  mixPos_eq : mixPos = bodyPos + 4 *
    (emitInterleaved order (codePos + 28) (codePos + 28) bodyPos).length
  lines : Block (b.code base) codePos lineAddresses
  jump : (b.code base).insn (codePos + 24) = some (.b bodyPos)
  pool : b.At (codePos + 28) ((literalPool reciprocals program.instructions).flatMap quad)
  body : b.At bodyPos ((emitInterleaved order (codePos + 28) (codePos + 28) bodyPos).map .word)
  mix : Block (b.code base) mixPos calcDatasetItem2WayMix
  values : Block (b.code base) (mixPos + 96) (valueInsns program)

theorem round_at {reciprocals : List (BitVec 64)} {program : SuperscalarProgram} {codePos : Nat}
    (hAt : b.At codePos (round reciprocals scheduler program codePos)) (base : BitVec 64) :
    ∃ bodyPos mixPos, RoundAt b base reciprocals (emitOrder scheduler program) program codePos
        bodyPos mixPos ∧
      codePos + 4 * (round reciprocals scheduler program codePos).length = mixPos + 104 := by
  have hPool : 8 * (literalPool reciprocals program.instructions).length ≤ 32 * 512 := by
    have := emitInterleaved_size reciprocals program.instructions 0 0 0
    have hSize : program.instructions.length ≤ 512 := program.size_le
    omega
  have hPos : codePos + 24 + 4 = codePos + 28 := rfl
  simp only [round, hPos] at hAt ⊢
  -- taken apart from the back
  have hValue := hAt.append_right
  have hMix := hAt.append_left.append_right
  have hBody := hAt.append_left.append_left.append_right
  have hQuads := hAt.append_left.append_left.append_left.append_right
  have hJump := hAt.append_left.append_left.append_left.append_left.append_right
  have hFetch := hAt.append_left.append_left.append_left.append_left.append_left.append_right
  have hMasks := hAt.append_left.append_left.append_left.append_left.append_left.append_left
  have hFetchLength : calcDatasetItem2WayPrefetch.length = 4 := rfl
  have hMixLength : calcDatasetItem2WayMix.length = 24 := rfl
  simp only [List.length_append, List.length_map, flatMap_quad_length, List.length_cons,
    List.length_nil, hFetchLength, hMixLength] at hValue hMix hBody hQuads hJump hFetch ⊢
  refine ⟨_, _, ⟨rfl, rfl, ?_, ?_, ?_, ?_, ?_, ?_⟩, ?_⟩
  · exact block_append (hMasks.block_words base maskWords_decode) (hFetch.block_asm base)
  · refine hJump.insn_word base ((decode_branchOver (by omega)).trans ?_)
    congr 2
    omega
  · exact hQuads
  · exact hBody.of_eq (by omega)
  · exact (hMix.block_asm base).of_eq (by omega)
  · exact (hValue.of_eq (by omega)).block_words base (valueWords_decode program)
  · omega

section Rounds

variable {a a' c c' : DatasetRegisters × BitVec 64} {program : SuperscalarProgram}
  {codePos bodyPos mixPos : Nat} {reciprocals : List (BitVec 64)} {order : List Instruction}

/-- From the start of a round to its first instruction: both lines are known. -/
theorem RoundAt.lines_reaches
    (hCode : RoundAt b base reciprocals order program codePos bodyPos mixPos)
    (hPc : s.pc = codePos) :
    ∃ t, Reaches fu (b.code base) s t ∧ t.pc = bodyPos ∧
      t.x 11 = s.x 8 + BitVec.ofNat 64 (64 * ((s.x 10).toNat % 2 ^ 22)) ∧
      t.x 17 = s.x 8 + BitVec.ofNat 64 (64 * ((s.x 28).toNat % 2 ^ 22)) ∧ Keeps [11, 17] s t := by
  obtain ⟨hLineA, hLineB, hKeeps⟩ := execAll_lineAddresses fu (b.code base) s
  have hBlock : Block (b.code base) s.pc lineAddresses := hPc ▸ hCode.lines
  have hReach : Reaches fu (b.code base) s _ := hBlock.reaches (by decide)
  have hPc₁ : (execAll fu (b.code base) lineAddresses s).pc = codePos + 24 := by
    rw [Block.execAll_pc (by decide), hPc]
    rfl
  generalize execAll fu (b.code base) lineAddresses s = s₁ at hLineA hLineB hKeeps hReach hPc₁
  have hJump : Reaches fu (b.code base) s₁ (s₁.jump bodyPos) := Reaches.step (hPc₁ ▸ hCode.jump)
  exact ⟨s₁.jump bodyPos, hReach.trans hJump, rfl, hLineA, hLineB,
    hKeeps.trans (Keeps.jump s₁ bodyPos)⟩

variable (fu) in
theorem execAll_valueInsns (code : Code) (program : SuperscalarProgram) (s : State) :
    (execAll fu code (valueInsns program) s).x 10 = s.x (streamA.reg program.addressRegister) ∧
      (execAll fu code (valueInsns program) s).x 28 = s.x (streamB.reg program.addressRegister) ∧
      Keeps [10, 28] s (execAll fu code (valueInsns program) s) := by
  have hA : streamA.reg program.addressRegister ≠ 31 :=
    Nat.ne_of_lt (streamA.reg_lt _ program.addressRegister.isLt)
  have hB : streamB.reg program.addressRegister ≠ 31 :=
    Nat.ne_of_lt (streamB.reg_lt _ program.addressRegister.isLt)
  have hTen : ∀ i < 8, streamB.reg i ≠ 10 := by decide
  refine ⟨?_, ?_, execAll_keeps fu code s rfl fun r hr => hr⟩
  · simp only [valueInsns, execAll_cons, execAll_nil, exec, State.getX, if_true, if_neg hA,
      State.next_x, State.setX_x, BitVec.ofNat_eq_ofNat, BitVec.zero_or]
    rw [Function.update_of_ne (show (10 : Nat) ≠ 28 by decide), Function.update_self]
  · simp only [valueInsns, execAll_cons, execAll_nil, exec, State.getX, if_true, if_neg hB,
      State.next_x, State.setX_x, Function.update_self, BitVec.ofNat_eq_ofNat, BitVec.zero_or,
      Function.update_of_ne (hTen _ program.addressRegister.isLt)]

/-- From behind the last instruction of a round to its end: both lines are mixed
in and the next register values are chosen. -/
theorem RoundAt.mix_reaches
    (hCode : RoundAt b base reciprocals order program codePos bodyPos mixPos)
    (hPc : s.pc = mixPos) :
    ∃ t, Reaches fu (b.code base) s t ∧ t.pc = mixPos + 104 ∧
      (∀ i : Fin 8, t.x (streamA.reg i) =
        s.x (streamA.reg i) ^^^ s.mem.load64 (s.x 11 + BitVec.ofNat 64 (8 * i))) ∧
      (∀ i : Fin 8, t.x (streamB.reg i) =
        s.x (streamB.reg i) ^^^ s.mem.load64 (s.x 17 + BitVec.ofNat 64 (8 * i))) ∧
      t.x 10 = t.x (streamA.reg program.addressRegister) ∧
      t.x 28 = t.x (streamB.reg program.addressRegister) ∧ Keeps pairDests s t := by
  obtain ⟨hA, hB, hKeeps⟩ := execAll_calcDatasetItem2WayMix fu (b.code base) s
  have hBlock : Block (b.code base) s.pc calcDatasetItem2WayMix := hPc ▸ hCode.mix
  have hReach : Reaches fu (b.code base) s _ := hBlock.reaches (by decide)
  have hPc₁ : (execAll fu (b.code base) calcDatasetItem2WayMix s).pc = mixPos + 96 := by
    rw [Block.execAll_pc (by decide), hPc]
    rfl
  generalize execAll fu (b.code base) calcDatasetItem2WayMix s = s₁ at hA hB hKeeps hReach hPc₁
  -- the registers are not among the register values
  obtain ⟨hTen, hTwentyEight, hKeeps'⟩ := execAll_valueInsns fu (b.code base) program s₁
  have hBlock' : Block (b.code base) s₁.pc (valueInsns program) := hPc₁ ▸ hCode.values
  have hStraight : ∀ i ∈ valueInsns program, i.straight = true := by
    intro i hi
    fin_cases hi <;> rfl
  have hReach' : Reaches fu (b.code base) s₁ _ := hBlock'.reaches hStraight
  have hPc₂ : (execAll fu (b.code base) (valueInsns program) s₁).pc = mixPos + 104 := by
    rw [Block.execAll_pc hStraight, hPc₁]
    rfl
  generalize execAll fu (b.code base) (valueInsns program) s₁ = t at *
  have hApartA : ∀ i < 8, streamA.reg i ∉ [10, 28] := by decide
  have hApartB : ∀ i < 8, streamB.reg i ∉ [10, 28] := by decide
  have hSameA (i : Fin 8) : t.x (streamA.reg i) = s₁.x (streamA.reg i) :=
    hKeeps'.x _ (hApartA i i.isLt)
  have hSameB (i : Fin 8) : t.x (streamB.reg i) = s₁.x (streamB.reg i) :=
    hKeeps'.x _ (hApartB i i.isLt)
  refine ⟨t, hReach.trans hReach', hPc₂, fun i => (hSameA i).trans (hA i),
    fun i => (hSameB i).trans (hB i), ?_, ?_, hKeeps.trans (hKeeps'.mono (by decide))⟩
  · rw [hTen, hSameA]
  · rw [hTwentyEight, hSameB]

/-- **A round of the code is a round of `generate_dataset_item` on each stream.** -/
theorem round_reaches
    (hAt : b.At codePos (round cache.reciprocalCache scheduler program codePos))
    (hBound : codePos + 4 * (round cache.reciprocalCache scheduler program codePos).length < 2 ^ 20)
    (hOrder : ValidOrder program.instructions (scheduler program)) (hDefault : cache.Default)
    (hCache : Backs cacheBase kRandomXCacheBytes s.mem cache.bytes)
    (hRoundA : datasetRound cache a program = some a')
    (hRoundB : datasetRound cache c program = some c')
    (hPc : s.pc = codePos) (hs : Between cacheBase a c s) :
    ∃ t, Reaches fu (b.code base) s t ∧
      t.pc = codePos + 4 * (round cache.reciprocalCache scheduler program codePos).length ∧
      Between cacheBase a' c' t ∧ Keeps pairDests s t := by
  obtain ⟨bodyPos, mixPos, hCode, hLength⟩ := round_at hAt base
  rw [hLength] at hBound ⊢
  obtain ⟨hBodyPos, hMixPos⟩ := And.intro hCode.bodyPos_eq hCode.mixPos_eq
  obtain ⟨rA, hExecA, hA', hvA'⟩ := datasetRound_eq_some hRoundA
  obtain ⟨rB, hExecB, hB', hvB'⟩ := datasetRound_eq_some hRoundB
  -- both runs of the interpreter, in the order the instructions were emitted
  have hSame (r : DatasetRegisters) : executeSuperscalar cache.reciprocalCache
      (emitOrder scheduler program) r = executeSuperscalar cache.reciprocalCache
      program.instructions r := hOrder.executeSuperscalar_eq program.registers r
  rw [← hSame] at hExecA hExecB
  have hPool : literalPool cache.reciprocalCache (emitOrder scheduler program) = _ :=
    hOrder.literalPool_eq
  obtain ⟨s₁, (hReach₁ : Reaches fu (b.code base) s s₁), hPc₁, hLineA, hLineB, hKeeps₁⟩ :=
    hCode.lines_reaches hPc
  obtain ⟨s₂, (hReach₂ : Reaches fu (b.code base) s₁ s₂), hPc₂, hA₂, hB₂, hKeeps₂⟩ :=
    emitInterleaved_reaches hCode.body (by rw [hPool]; exact hCode.pool)
      (by rw [hPool]; omega) (by omega) (by omega)
      (fun i hi => program.registers i (hOrder.rearranges.perm.subset hi)) hExecA hExecB hPc₁
      (hs.registersA.keeps hKeeps₁ (by decide)) (hs.registersB.keeps hKeeps₁ (by decide))
  obtain ⟨s₃, (hReach₃ : Reaches fu (b.code base) s₂ s₃), hPc₃, hA₃, hB₃, hValueA, hValueB,
    hKeeps₃⟩ := hCode.mix_reaches (hPc₂.trans hMixPos.symm)
  have hKeeps₁₂ : Keeps pairDests s s₂ :=
    (hKeeps₁.mono (by decide)).trans (hKeeps₂.mono (by decide))
  have hHoldsA : streamA.Holds a'.1 s₃ := by
    intro i
    rw [hA₃, hA₂, hKeeps₂.x 11 (by decide), hLineA, hKeeps₁₂.mem, hs.cacheMemory, hs.valueA,
      load64_line hDefault hCache, hA']
  have hHoldsB : streamB.Holds c'.1 s₃ := by
    intro i
    rw [hB₃, hB₂, hKeeps₂.x 17 (by decide), hLineB, hKeeps₁₂.mem, hs.cacheMemory, hs.valueB,
      load64_line hDefault hCache, hB']
  refine ⟨s₃, (hReach₁.trans hReach₂).trans hReach₃, hPc₃, ⟨hHoldsA, hHoldsB, ?_, ?_, ?_⟩,
    hKeeps₁₂.trans hKeeps₃⟩
  · exact ((hKeeps₃.x 8 (by decide)).trans (hKeeps₁₂.x 8 (by decide))).trans hs.cacheMemory
  · rw [hValueA, hHoldsA, hvA']
  · rw [hValueB, hHoldsB, hvB']

theorem rounds_reaches {programs : List SuperscalarProgram}
    (hAt : b.At codePos (rounds cache.reciprocalCache scheduler programs codePos))
    (hBound : codePos + 4 * (rounds cache.reciprocalCache scheduler programs codePos).length <
      2 ^ 20)
    (hOrders : ∀ program ∈ programs, ValidOrder program.instructions (scheduler program))
    (hDefault : cache.Default) (hCache : Backs cacheBase kRandomXCacheBytes s.mem cache.bytes)
    (hRoundsA : programs.foldlM (datasetRound cache) a = some a')
    (hRoundsB : programs.foldlM (datasetRound cache) c = some c')
    (hPc : s.pc = codePos) (hs : Between cacheBase a c s) :
    ∃ t, Reaches fu (b.code base) s t ∧
      t.pc = codePos + 4 * (rounds cache.reciprocalCache scheduler programs codePos).length ∧
      Between cacheBase a' c' t ∧ Keeps pairDests s t := by
  induction programs generalizing codePos a c s with
  | nil =>
    cases hRoundsA
    cases hRoundsB
    exact ⟨s, Reaches.refl s, hPc, hs, Keeps.refl _ _⟩
  | cons program rest ih =>
    rw [List.foldlM_cons] at hRoundsA hRoundsB
    obtain ⟨a₁, hRoundA, hRestA⟩ := Option.bind_eq_some_iff.mp hRoundsA
    obtain ⟨c₁, hRoundB, hRestB⟩ := Option.bind_eq_some_iff.mp hRoundsB
    rw [rounds] at hAt
    rw [rounds, List.length_append] at hBound ⊢
    obtain ⟨s₁, (hReach₁ : Reaches fu (b.code base) s s₁), hPc₁, hs₁, hKeeps₁⟩ :=
      round_reaches hAt.append_left (by omega) (hOrders program List.mem_cons_self) hDefault hCache
        hRoundA hRoundB hPc hs
    obtain ⟨t, hReach, hPcT, hsT, hKeeps⟩ := ih hAt.append_right (by omega)
      (fun p hp => hOrders p (List.mem_cons_of_mem _ hp)) (hKeeps₁.mem ▸ hCache) hRestA hRestB hPc₁
      hs₁
    exact ⟨t, hReach₁.trans hReach, by rw [hPcT]; omega, hsT, hKeeps₁.trans hKeeps⟩

end Rounds

/-! ## The seed registers -/

/-- The registers `x19` to `x28`, in pairs. -/
def savedPairs : List (Nat × Nat) := [(19, 20), (21, 22), (23, 24), (25, 26), (27, 28)]

/-- The arguments move out of the way, and `rl_A[0]` is the seed. -/
def seedArguments : List Insn :=
  [.ldrLit 12 180, .orrReg 8 31 0, .orrReg 9 31 1, .orrReg 10 31 2, .orrReg 27 31 3,
   .orrReg 16 31 4, .madd 0 2 12 12]

/-- `rl_B[0]` is the seed. -/
def seedSecond : List Insn := [.ldrLit 17 180, .madd 19 16 17 17, .orrReg 28 31 16]

/-- Each register of `ps` is `z` with the constant at its offset. -/
def seedXor (t z : Nat) : List (Nat × Nat) → List Insn
  | [] => []
  | p :: ps => .ldrLit t p.2 :: .eorReg p.1 z t :: seedXor t z ps

/-- Registers 1 to 7 of a stream and the offsets of their constants. -/
def Stream.seeds (st : Stream) : List (Nat × Nat) :=
  [(st.reg 1, 188), (st.reg 2, 196), (st.reg 3, 204), (st.reg 4, 212), (st.reg 5, 220),
   (st.reg 6, 228), (st.reg 7, 236)]

theorem calcDatasetItem2Way_eq : calcDatasetItem2Way =
    enter 80 savedPairs ++ (seedArguments ++ (seedXor 12 0 streamA.seeds ++
      (seedSecond ++ seedXor 17 19 streamB.seeds))) := rfl

section Seeds

variable (fu : FloatUnit) {code : Code}

theorem seedXor_keeps (t z : Nat) (ps : List (Nat × Nat)) (s : State) :
    Keeps (t :: ps.map Prod.fst) s (execAll fu code (seedXor t z ps) s) := by
  have hOnly : (seedXor t z ps).all Insn.registersOnly = true := by
    induction ps with
    | nil => rfl
    | cons p ps ih => exact ih
  refine execAll_keeps fu code s hOnly fun r hr => ?_
  induction ps with
  | nil => cases hr
  | cons p ps ih =>
    rw [List.map_cons, List.mem_cons, List.mem_cons]
    rcases List.mem_append.mp hr with hr | hr
    · exact Or.inl (List.mem_singleton.mp hr)
    · rcases List.mem_append.mp hr with hr | hr
      · exact Or.inr (Or.inl (List.mem_singleton.mp hr))
      · rcases List.mem_cons.mp (ih hOnly hr) with h | h
        · exact Or.inl h
        · exact Or.inr (Or.inr h)

/-- The registers get the seed with their constants. -/
theorem execAll_seedXor {t z : Nat} (ht : t ≠ 31) (hz : z ≠ 31) {ps : List (Nat × Nat)}
    (hNodup : (t :: z :: ps.map Prod.fst).Nodup) {p : Nat × Nat} (hp : p ∈ ps) (s : State) :
    (execAll fu code (seedXor t z ps) s).x p.1 = s.x z ^^^ literal code p.2 := by
  induction ps generalizing s with
  | nil => cases hp
  | cons q ps ih =>
    simp only [List.map_cons, List.nodup_cons, List.mem_cons, not_or] at hNodup
    obtain ⟨⟨hTZ, hTQ, hT⟩, ⟨hZQ, hZ⟩, hQ, hRest⟩ := hNodup
    rw [seedXor, execAll_cons, execAll_cons]
    generalize hs₁ : exec fu code (.eorReg q.1 z t) (exec fu code (.ldrLit t q.2) s) = s₁
    have hx₁ : s₁.x = Function.update (Function.update s.x t (literal code q.2)) q.1
        (s.x z ^^^ literal code q.2) := by
      rw [← hs₁]
      simp only [exec, State.getX_of_ne ht, State.getX_of_ne hz, State.next_x, State.setX_x,
        Function.update_self, Function.update_of_ne (Ne.symm hTZ)]
      rfl
    have hz₁ : s₁.x z = s.x z := by
      rw [hx₁, Function.update_of_ne hZQ, Function.update_of_ne (Ne.symm hTZ)]
    rcases List.mem_cons.mp hp with rfl | hp
    · have hNotIn : p.1 ∉ t :: ps.map Prod.fst := by
        simp only [List.mem_cons, not_or]
        exact ⟨Ne.symm hTQ, hQ⟩
      rw [(seedXor_keeps fu t z ps s₁).x _ hNotIn, hx₁, Function.update_self]
    · rw [ih (by simp only [List.nodup_cons, List.mem_cons, not_or]; exact ⟨⟨hTZ, hT⟩, hZ, hRest⟩) hp,
        hz₁]

theorem execAll_seedArguments (s : State)
    (hConstant : literal code 180 = superscalarConstants.getD 0 0) :
    (execAll fu code seedArguments s).x 0 = datasetSeedRegisters (s.x 2) 0 ∧
      (execAll fu code seedArguments s).x 8 = s.x 0 ∧
      (execAll fu code seedArguments s).x 9 = s.x 1 ∧
      (execAll fu code seedArguments s).x 10 = s.x 2 ∧
      (execAll fu code seedArguments s).x 27 = s.x 3 ∧
      (execAll fu code seedArguments s).x 16 = s.x 4 ∧
      Keeps [0, 8, 9, 10, 12, 16, 27] s (execAll fu code seedArguments s) := by
  have hMov (v : BitVec 64) : (0#64) ||| v = v := BitVec.zero_or
  refine ⟨?_, hMov _, hMov _, hMov _, hMov _, hMov _, execAll_keeps fu code s rfl (by decide)⟩
  have hValue : (execAll fu code seedArguments s).x 0 =
      literal code 180 + s.x 2 * literal code 180 := rfl
  rw [hValue, hConstant, add_comm]
  exact (add_one_mul (s.x 2) _).symm

theorem execAll_seedSecond (s : State)
    (hConstant : literal code 180 = superscalarConstants.getD 0 0) :
    (execAll fu code seedSecond s).x 19 = datasetSeedRegisters (s.x 16) 0 ∧
      (execAll fu code seedSecond s).x 28 = s.x 16 ∧
      Keeps [17, 19, 28] s (execAll fu code seedSecond s) := by
  have hMov (v : BitVec 64) : (0#64) ||| v = v := BitVec.zero_or
  refine ⟨?_, hMov _, execAll_keeps fu code s rfl (by decide)⟩
  have hValue : (execAll fu code seedSecond s).x 19 =
      literal code 180 + s.x 16 * literal code 180 := rfl
  rw [hValue, hConstant, add_comm]
  exact (add_one_mul (s.x 16) _).symm

/-- A stream whose first register is the seed holds all seed registers behind
`seedXor`. -/
theorem Stream.seeds_hold (st : Stream) {t : Nat} (ht : t ≠ 31)
    (hNodup : (t :: st.reg 0 :: st.seeds.map Prod.fst).Nodup)
    (hConstants : ∀ i : Fin 8, literal code (180 + 8 * i) = superscalarConstants.getD i 0)
    {item : BitVec 64} {s : State} (hSeed : s.x (st.reg 0) = datasetSeedRegisters item 0) :
    st.Holds (datasetSeedRegisters item)
      (execAll fu code (seedXor t (st.reg 0) st.seeds) s) := by
  have hZero : st.reg 0 ≠ 31 := Nat.ne_of_lt (st.reg_lt 0 (by decide))
  intro i
  by_cases hi : i = 0
  · subst hi
    have hNotIn : st.reg 0 ∉ t :: st.seeds.map Prod.fst := by
      simp only [List.nodup_cons, List.mem_cons, not_or] at hNodup ⊢
      exact ⟨Ne.symm hNodup.1.1, hNodup.2.1⟩
    exact ((seedXor_keeps fu t (st.reg 0) st.seeds s).x _ hNotIn).trans hSeed
  · have hIn : (st.reg i, 180 + 8 * i.val) ∈ st.seeds := by
      unfold Stream.seeds
      fin_cases i <;> first | exact absurd rfl hi | simp
    rw [execAll_seedXor fu ht hZero hNodup hIn, hSeed, datasetSeedRegisters_xor item hi, hConstants]

end Seeds

/-! ## Entry and exit -/

/-- The registers the function works with. -/
def callDests : List Nat :=
  [0, 1, 2, 3, 4, 5, 6, 7, 8, 9, 10, 11, 12, 13, 14, 16, 17, 19, 20, 21, 22, 23, 24, 25, 26, 27, 28]

/-- The state behind the entry code: the registers are saved and everything is in
place for the first round. -/
structure Entered (s t : State) : Prop where
  between : Between (s.x 0) (datasetSeedRegisters (s.x 2), s.x 2)
    (datasetSeedRegisters (s.x 4), s.x 4) t
  outputA : t.x 9 = s.x 1
  outputB : t.x 27 = s.x 3
  keeps : Keeps callDests (entered 80 savedPairs 24 s) t

theorem calcDatasetItem2WayHead_reaches (hAt : b.At 0 calcDatasetItem2WayHead) (hPc : s.pc = 0) :
    ∃ t, Reaches fu (b.code base) s t ∧ t.pc = 244 ∧ Entered s t := by
  have hBlock : Block (b.code base) s.pc calcDatasetItem2Way :=
    hPc ▸ hAt.append_left.append_left.block_asm base
  have hBranch : (b.code base).insn 176 = some (.b 244) :=
    hAt.append_left.append_right.insn_asm base
  have hConstants (i : Fin 8) :
      literal (b.code base) (180 + 8 * i) = superscalarConstants.getD i 0 :=
    literal_quads hAt.append_right i.isLt
  have hReach : Reaches fu (b.code base) s _ := hBlock.reaches (by decide)
  have hPc₁ : (execAll fu (b.code base) calcDatasetItem2Way s).pc = 176 := by
    rw [Block.execAll_pc (by decide), hPc]
    rfl
  have hEnter : execAll fu (b.code base) (enter 80 savedPairs) s = entered 80 savedPairs 24 s := by
    rw [execAll_enter fu (b.code base) 80 s (by decide), hPc]
    rfl
  rw [calcDatasetItem2Way_eq, execAll_append, hEnter, execAll_append, execAll_append,
    execAll_append] at hReach hPc₁
  -- the arguments and stream A
  obtain ⟨hSeedA, hEight, hNine, hTen, hTwentySeven, hSixteen, hKeeps₁⟩ :=
    execAll_seedArguments fu (entered 80 savedPairs 24 s) (hConstants 0)
  generalize execAll fu (b.code base) seedArguments (entered 80 savedPairs 24 s) = s₁ at *
  have hHoldsA : streamA.Holds _ (execAll fu (b.code base) (seedXor 12 0 streamA.seeds) s₁) :=
    streamA.seeds_hold fu (by decide) (by decide) hConstants hSeedA
  have hKeeps₂ : Keeps _ s₁ (execAll fu (b.code base) _ s₁) :=
    seedXor_keeps fu 12 0 streamA.seeds s₁
  generalize execAll fu (b.code base) (seedXor 12 0 streamA.seeds) s₁ = s₂ at *
  -- stream B
  obtain ⟨hSeedB, hTwentyEight, hKeeps₃⟩ := execAll_seedSecond fu s₂ (hConstants 0)
  generalize execAll fu (b.code base) seedSecond s₂ = s₃ at *
  have hHoldsB : streamB.Holds _ (execAll fu (b.code base) (seedXor 17 19 streamB.seeds) s₃) :=
    streamB.seeds_hold fu (by decide) (by decide) hConstants hSeedB
  have hKeeps₄ : Keeps _ s₃ (execAll fu (b.code base) _ s₃) :=
    seedXor_keeps fu 17 19 streamB.seeds s₃
  generalize execAll fu (b.code base) (seedXor 17 19 streamB.seeds) s₃ = s₄ at *
  have hKeeps₂₃ : Keeps [1, 2, 3, 4, 5, 6, 7, 12, 17, 19, 28] s₁ s₃ :=
    (hKeeps₂.mono (by decide)).trans (hKeeps₃.mono (by decide))
  have hLater : Keeps [1, 2, 3, 4, 5, 6, 7, 12, 17, 19, 20, 21, 22, 23, 24, 25, 26, 28] s₁ s₄ :=
    (hKeeps₂₃.mono (by decide)).trans (hKeeps₄.mono (by decide))
  have hItemB : s₂.x 16 = s.x 4 := (hKeeps₂.x 16 (by decide)).trans hSixteen
  have hHoldsA₄ : streamA.Holds _ s₄ :=
    (hHoldsA.keeps hKeeps₃ (by decide)).keeps hKeeps₄ (by decide)
  have hStep : Reaches fu (b.code base) s₄ (s₄.jump 244) := Reaches.step (hPc₁ ▸ hBranch)
  refine ⟨_, hReach.trans hStep, rfl, ⟨?_, ?_, ?_, ?_, ?_⟩, ?_, ?_, ?_⟩
  · exact hHoldsA₄
  · rw [hItemB] at hHoldsB
    exact hHoldsB
  · exact (hLater.x 8 (by decide)).trans hEight
  · exact (hLater.x 10 (by decide)).trans hTen
  · exact ((hKeeps₄.x 28 (by decide)).trans hTwentyEight).trans hItemB
  · exact (hLater.x 9 (by decide)).trans hNine
  · exact (hLater.x 27 (by decide)).trans hTwentySeven
  · exact ((hKeeps₁.mono (by decide)).trans (hLater.mono (by decide))).trans (Keeps.jump s₄ _)

/-- Memory with both items stored. -/
def storedItems (s : State) : Mem :=
  (s.mem.storeWords (s.x 9) ((regsOf itemPairs).map s.x)).storeWords (s.x 27)
    ((regsOf itemPairsB).map s.x)

variable (fu) in
theorem execAll_storeItems (code : Code) (s : State) :
    execAll fu code (stpAll 9 0 itemPairs ++ stpAll 27 0 itemPairsB) s =
      (s.setMem (storedItems s)).jump (s.pc + 32) := by
  rw [execAll_append, execAll_storeItem, execAll_stpAll]
  have hBase : s.x 27 + BitVec.ofNat 64 0 = s.x 27 := BitVec.add_zero _
  exact congrArg (fun a => (s.setMem ((storedItem s).storeWords a
    ((regsOf itemPairsB).map s.x))).jump (s.pc + 32)) hBase

/-- The exit code: both items are stored, the registers come back from the words
they were saved to, and control returns to the caller. -/
theorem calcDatasetItem2WayStoreResult_reaches {k : Nat} {saved : Nat → BitVec 64}
    (hAt : b.At k (calcDatasetItem2WayStoreResult.map .asm ++ [.asm .ret])) (hPc : s.pc = k)
    (hSaved : ∀ i (hi : i < (regsOf savedPairs).length),
      (storedItems s).load64 (s.sp + BitVec.ofNat 64 (8 * i)) = saved (regsOf savedPairs)[i]) :
    ∃ t, Reaches fu (b.code base) s t ∧
      Left 80 savedPairs saved base (s.setMem (storedItems s)) t := by
  have hBlock : Block (b.code base) s.pc
      ((stpAll 9 0 itemPairs ++ stpAll 27 0 itemPairsB) ++ leave 80 savedPairs) :=
    hPc ▸ hAt.append_left.block_asm base
  have hRet : (b.code base).insn (k + 56) = some .ret := hAt.append_right.insn_asm base
  have hStore : Reaches fu (b.code base) s _ := hBlock.append_left.reaches (by decide)
  rw [execAll_storeItems] at hStore
  obtain ⟨t, hReach, hLeft⟩ := @leave_reaches fu (b.code base) 80 savedPairs
    ((s.setMem (storedItems s)).jump (s.pc + 32)) saved hBlock.append_right
    (by rw [← hRet, ← hPc]; rfl) (by decide) (by decide) hSaved
  exact ⟨t, hStore.trans hReach, { hLeft with }⟩

/-! ## The call -/

/-- The frame of a call and the places of the two items. -/
def callFrame (s : State) : Region := ⟨s.sp - 80, 80⟩
def regionA (s : State) : Region := ⟨s.x 1, 64⟩
def regionB (s : State) : Region := ⟨s.x 3, 64⟩

/-- What a caller provides: the cache memory at `x0`, a frame that is apart from
it and from the outputs, and outputs that are apart from each other. -/
structure PairCall (cache : Argon2dCache) (s : State) : Prop where
  pc : s.pc = 0
  backs : Backs (s.x 0) kRandomXCacheBytes s.mem cache.bytes
  cache_apart : (Region.mk (s.x 0) kRandomXCacheBytes).Disjoint (callFrame s)
  frame_apart : (callFrame s).Disjoint (regionA s) ∧ (callFrame s).Disjoint (regionB s)
  outputs_apart : (regionA s).Disjoint (regionB s)

/-- What the caller finds: the items at `x1` and `x3`, and the registers a callee
must preserve as they were. -/
structure PairReturned (base : BitVec 64) (itemA itemB : DatasetRegisters) (s t : State) :
    Prop where
  pc : t.pc = (s.x 30 - base).toNat
  itemA : ∀ i : Fin 8, t.mem.load64 (s.x 1 + BitVec.ofNat 64 (8 * i)) = itemA i
  itemB : ∀ i : Fin 8, t.mem.load64 (s.x 3 + BitVec.ofNat 64 (8 * i)) = itemB i
  x : ∀ r, 18 ≤ r → t.x r = s.x r
  sp : t.sp = s.sp
  v : t.v = s.v
  flags : t.flags = s.flags
  fpcr : t.fpcr = s.fpcr
  mem : Frame [callFrame s, regionA s, regionB s] s.mem t.mem

/-- The stored items: neither overwrites the other. -/
theorem load64_storedItems (s : State)
    (hApart : (Region.mk (s.x 9) 64).Disjoint ⟨s.x 27, 64⟩) (i : Fin 8) :
    (storedItems s).load64 (s.x 9 + BitVec.ofNat 64 (8 * i)) = s.x (streamA.reg i) ∧
      (storedItems s).load64 (s.x 27 + BitVec.ofNat 64 (8 * i)) = s.x (streamB.reg i) := by
  have hRegB : ∀ i : Fin 8, (regsOf itemPairsB)[i.val]? = some (streamB.reg i) := by decide
  have hFrame : Frame [⟨s.x 27, 64⟩] (storedItem s) (storedItems s) :=
    frame_storeRegs (storedItem s) (s.x 27) s.x itemPairsB (by decide)
  have hPart : ((Region.mk (s.x 9) 64).part (8 * i) 8).Disjoint ⟨s.x 27, 64⟩ :=
    hApart.part_left (show 8 * i.val + 8 ≤ 64 by omega)
  refine ⟨?_, load64_storeRegs (storedItem s) (s.x 27) s.x (hRegB i) (by decide)⟩
  exact (Mem.load64_of_frame hFrame fun R hR => List.mem_singleton.mp hR ▸ hPart).trans
    (load64_storedItem s i)

/-- **The contract of a call.** -/
theorem slots_reaches
    (hAt : b.At 0 (slots (List.ofFn cache.programs) cache.reciprocalCache scheduler))
    (hOrders : ∀ i, ValidOrder (cache.programs i).instructions (scheduler (cache.programs i)))
    (hDefault : cache.Default) (hValid : cache.Valid) (hCall : PairCall cache s) :
    ∃ itemA itemB t, generateDatasetItem cache (s.x 2) = some itemA ∧
      generateDatasetItem cache (s.x 4) = some itemB ∧ Reaches fu (b.code base) s t ∧
      PairReturned base itemA itemB s t := by
  have hLines : cache.lineCount ≠ 0 := by
    rw [Argon2dCache.lineCount_of_default hDefault]
    decide
  obtain ⟨itemA, vA, hRoundsA, hItemA⟩ := hValid.rounds hLines (s.x 2)
  obtain ⟨itemB, vB, hRoundsB, hItemB⟩ := hValid.rounds hLines (s.x 4)
  have hSize := slots_size cache.reciprocalCache hOrders
  have hHead : calcDatasetItem2WayHead.length = 61 := rfl
  have hPos : 4 * calcDatasetItem2WayHead.length = 244 := rfl
  have hRoom : calcDataset2WaySize < 2 ^ 20 := by decide
  rw [slots, hPos] at hAt
  rw [slots, hPos, List.length_append, List.length_append, hHead] at hSize
  -- the entry
  obtain ⟨s₁, (hReach₁ : Reaches fu (b.code base) s s₁), hPc₁, hEntered⟩ :=
    calcDatasetItem2WayHead_reaches hAt.append_left.append_left hCall.pc
  have hSaves : Frame [callFrame s] s.mem (entered 80 savedPairs 24 s).mem :=
    frame_entered 80 savedPairs 24 s (by decide)
  have hBacks : Backs (s.x 0) kRandomXCacheBytes s₁.mem cache.bytes := by
    rw [hEntered.keeps.mem]
    exact hCall.backs.frame hSaves (by decide) fun R hR =>
      List.mem_singleton.mp hR ▸ hCall.cache_apart
  -- the rounds
  have hEach (program : SuperscalarProgram) (hIn : program ∈ List.ofFn cache.programs) :
      ValidOrder program.instructions (scheduler program) := by
    obtain ⟨i, rfl⟩ := List.mem_ofFn.mp hIn
    exact hOrders i
  obtain ⟨s₂, (hReach₂ : Reaches fu (b.code base) s₁ s₂), hPc₂, hBetween, hKeeps⟩ :=
    rounds_reaches (hAt.append_left.append_right.of_eq hPos) (by omega) hEach hDefault hBacks
      hRoundsA hRoundsB hPc₁ hEntered.between
  have hAll : Keeps callDests (entered 80 savedPairs 24 s) s₂ :=
    hEntered.keeps.trans (hKeeps.mono (by decide))
  have hOutA : s₂.x 9 = s.x 1 := (hKeeps.x 9 (by decide)).trans hEntered.outputA
  have hOutB : s₂.x 27 = s.x 3 := (hKeeps.x 27 (by decide)).trans hEntered.outputB
  -- the items are stored apart from the frame
  have hStores : Frame [regionA s, regionB s] (entered 80 savedPairs 24 s).mem
      (storedItems s₂) := by
    have hFirst : Frame [⟨s₂.x 9, 64⟩] s₂.mem (storedItem s₂) :=
      frame_storeRegs s₂.mem (s₂.x 9) s₂.x itemPairs (by decide)
    have hSecond : Frame [⟨s₂.x 27, 64⟩] (storedItem s₂) (storedItems s₂) :=
      frame_storeRegs (storedItem s₂) (s₂.x 27) s₂.x itemPairsB (by decide)
    rw [hOutA, hAll.mem] at hFirst
    rw [hOutB] at hSecond
    exact (hFirst.subset (by simp [regionA])).trans (hSecond.subset (by simp [regionB]))
  have hSaved (i : Nat) (hi : i < (regsOf savedPairs).length) :
      (storedItems s₂).load64 (s₂.sp + BitVec.ofNat 64 (8 * i)) = s.x (regsOf savedPairs)[i] := by
    rw [hAll.sp]
    refine entered_saved 80 savedPairs 24 s hStores (by decide) (fun R hR => ?_) i hi
    rcases List.mem_cons.mp hR with rfl | hR
    · exact hCall.frame_apart.1
    · exact List.mem_singleton.mp hR ▸ hCall.frame_apart.2
  obtain ⟨t, hReach, hLeft⟩ := calcDatasetItem2WayStoreResult_reaches hAt.append_right
    (by rw [hPc₂, List.length_append, hHead]; omega) hSaved
  have hItems (i : Fin 8) :=
    load64_storedItems s₂ (by rw [hOutA, hOutB]; exact hCall.outputs_apart) i
  have hKept (r : Nat) (hr : r ∉ callDests) : s₂.x r = s.x r := hAll.x r hr
  refine ⟨itemA, itemB, t, hItemA, hItemB, (hReach₁.trans hReach₂).trans hReach, ?_⟩
  exact {
    pc := hLeft.pc.trans (congrArg (fun a => (a - base).toNat) (hKept 30 (by decide)))
    itemA := fun i => by
      rw [hLeft.mem, ← hOutA]
      exact (hItems i).1.trans (hBetween.registersA i)
    itemB := fun i => by
      rw [hLeft.mem, ← hOutB]
      exact (hItems i).2.trans (hBetween.registersB i)
    x := fun r hr => by
      by_cases hIn : r ∈ regsOf savedPairs
      · exact hLeft.restored r hIn
      · refine (hLeft.x r hIn).trans (hKept r fun hDest => hIn ?_)
        simp only [callDests, savedPairs, regsOf_cons, regsOf_nil, List.mem_cons, List.not_mem_nil,
          or_false] at hDest ⊢
        omega
    sp := by
      rw [hLeft.sp]
      exact (congrArg (· + 80) hAll.sp).trans (BitVec.sub_add_cancel _ _)
    v := hLeft.v.trans hAll.v
    flags := hLeft.flags.trans hAll.flags
    fpcr := hLeft.fpcr.trans hAll.fpcr
    mem := by
      rw [hLeft.mem]
      exact (hSaves.subset (by simp)).trans (hStores.subset (by simp)) }

/-- **The emitted function derives two items.** For every valid order it fits the
allocated buffer, and a call of it leaves at `x1` and `x3` the items
`generate_dataset_item` gives for `x2` and `x4`, with `x18` and above as they
were. -/
theorem generate_correct (cache : Argon2dCache) (hDefault : cache.Default) (hValid : cache.Valid)
    (scheduler : SuperscalarScheduler)
    (hOrders : ∀ i, ValidOrder (cache.programs i).instructions (scheduler (cache.programs i)))
    (b : Buffer) :
    ∃ b' size, generate cache.programs cache.reciprocalCache scheduler b = some (b', size) ∧
      size ≤ calcDataset2WaySize ∧
      ∀ (fu : FloatUnit) (base : BitVec 64) (s : State), PairCall cache s →
        ∃ itemA itemB t, generateDatasetItem cache (s.x 2) = some itemA ∧
          generateDatasetItem cache (s.x 4) = some itemB ∧ Reaches fu (b'.code base) s t ∧
          PairReturned base itemA itemB s t := by
  have hSize := slots_size cache.reciprocalCache hOrders
  refine ⟨_, _, if_neg (Nat.not_lt.mpr hSize), hSize, fun fu base s hCall => ?_⟩
  exact slots_reaches (Buffer.place_self b 0 _) hOrders hDefault hValid hCall

/-- A call for the items 5 and 6 of the sample cache. -/
def samplePairCall : State where
  x := fun r => if r = 1 then 0x80000000 else if r = 2 then 5 else if r = 3 then 0x90000000 else
    if r = 4 then 6 else if r = 30 then 400 else 0
  sp := 0x40000000
  v := fun _ => 0
  flags := ⟨false, false, false, false⟩
  fpcr := 0
  mem := fun _ => 0
  pc := 0

theorem samplePairCall_call : PairCall sampleCache samplePairCall where
  pc := rfl
  backs := fun _ _ => rfl
  cache_apart := by
    intro x (hCache : (x - 0#64).toNat < 256 * 1024 * 1024)
      (hFrame : (x - (0x40000000#64 - 80#64)).toNat < 80)
    bv_omega
  frame_apart := by
    refine ⟨?_, ?_⟩
    · intro x (hFrame : (x - (0x40000000#64 - 80#64)).toNat < 80)
        (hOut : (x - 0x80000000#64).toNat < 64)
      bv_omega
    · intro x (hFrame : (x - (0x40000000#64 - 80#64)).toNat < 80)
        (hOut : (x - 0x90000000#64).toNat < 64)
      bv_omega
  outputs_apart := by
    intro x (hA : (x - 0x80000000#64).toNat < 64) (hB : (x - 0x90000000#64).toNat < 64)
    bv_omega

/-- The single-stream scheduler, on the sample. -/
theorem generate_correct_sample :
    (∀ i, scheduleSuperscalarProgram (sampleCache.programs i).instructions = [0, 2, 1]) ∧
    ∃ b' size, generate sampleCache.programs sampleCache.reciprocalCache
        (fun program => scheduleSuperscalarProgram program.instructions) (fun _ => .word 0) =
        some (b', size) ∧
      ∃ itemA itemB t, generateDatasetItem sampleCache 5 = some itemA ∧
        generateDatasetItem sampleCache 6 = some itemB ∧
        Reaches leftUnit (b'.code 0) samplePairCall t ∧
        PairReturned 0 itemA itemB samplePairCall t := by
  obtain ⟨b', size, hCode, -, hCalls⟩ := generate_correct sampleCache rfl sampleCache_valid
    (fun program => scheduleSuperscalarProgram program.instructions)
    (fun i => scheduleSuperscalarProgram_validOrder (sampleCache.programs i).instructions)
    (fun _ => .word 0)
  obtain ⟨itemA, itemB, t, hA, hB, hReach, hReturned⟩ :=
    hCalls leftUnit 0 samplePairCall samplePairCall_call
  exact ⟨sampleCache_order, b', size, hCode, itemA, itemB, t, hA, hB, hReach, hReturned⟩

end JitDataset2Way

end ArmRx.Jit
