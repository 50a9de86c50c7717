import ArmRx.A64.Call
import ArmRx.Jit.DatasetItem

/-!
# A call of the dataset-item function

The code between the rounds and the caller: the frame that saves `x0` to `x13`,
the seed registers, the eight rounds, the stored item, and the frame that
restores what was saved. A call is described by its `Frame`: it writes its own
112 bytes of stack and the 64 bytes of the item.

* `superscalarPrograms_reaches` — the rounds, by induction over the programs.
* `calcDatasetItem_reaches` — the contract of a call.
* `generateSuperscalarHash_correct` — the assembled function.
-/

namespace ArmRx.Jit

open ArmRx.Lib ArmRx.Vm ArmRx.A64

variable {fu : FloatUnit} {b : Buffer} {base cacheBase : BitVec 64} {cache : Argon2dCache}
  {s : State}

/-! ## The rounds -/

theorem superscalarPrograms_reaches {programs : List SuperscalarProgram} {codePos : Nat}
    {r r' : DatasetRegisters} {v v' : BitVec 64}
    (hAt : b.At codePos (superscalarPrograms cache.reciprocalCache programs codePos))
    (hBound : codePos + 4 * (superscalarPrograms cache.reciprocalCache programs codePos).length <
      2 ^ 20)
    (hDefault : cache.Default) (hCache : Backs cacheBase kRandomXCacheBytes s.mem cache.bytes)
    (hRounds : programs.foldlM (datasetRound cache) (r, v) = some (r', v'))
    (hPc : s.pc = codePos) (hs : BetweenRounds cacheBase r v s) :
    ∃ t, Reaches fu (b.code base) s t ∧
      t.pc = codePos + 4 * (superscalarPrograms cache.reciprocalCache programs codePos).length ∧
      BetweenRounds cacheBase r' v' t ∧ Keeps roundDests s t := by
  induction programs generalizing codePos r v s with
  | nil =>
    cases hRounds
    exact ⟨s, Reaches.refl s, hPc, hs, Keeps.refl _ _⟩
  | cons program rest ih =>
    rw [List.foldlM_cons] at hRounds
    obtain ⟨⟨r₁, v₁⟩, hRound, hRest⟩ := Option.bind_eq_some_iff.mp hRounds
    rw [superscalarPrograms] at hAt
    rw [superscalarPrograms, List.length_append] at hBound ⊢
    obtain ⟨s₁, (hReach₁ : Reaches fu (b.code base) s s₁), hPc₁, hs₁, hKeeps₁⟩ :=
      superscalarProgram_reaches hAt.append_left (by omega) hDefault hCache hRound hPc hs
    obtain ⟨t, hReach, hPcT, hsT, hKeeps⟩ := ih hAt.append_right (by omega)
      (hKeeps₁.mem ▸ hCache) hRest hPc₁ hs₁
    exact ⟨t, hReach₁.trans hReach, by rw [hPcT]; omega, hsT, hKeeps₁.trans hKeeps⟩

/-! ## The seed registers -/

/-- The pairs of the frame. -/
def framePairs : List (Nat × Nat) := [(0, 1), (2, 3), (4, 5), (6, 7), (8, 9), (10, 11), (12, 13)]

/-- The arguments move out of the way, and `r0` is the seed. -/
def seedFirst : List Insn :=
  [.ldrLit 12 (CodeSize + 112), .orrReg 8 31 0, .orrReg 9 31 1, .orrReg 10 31 2, .madd 0 2 12 12]

/-- `r1` to `r7` are the seed with a constant. -/
def seedOthers : List Insn :=
  [.ldrLit 13 (CodeSize + 120), .ldrLit 12 (CodeSize + 128), .eorReg 1 0 13,
   .ldrLit 13 (CodeSize + 136), .eorReg 2 0 12, .ldrLit 12 (CodeSize + 144), .eorReg 3 0 13,
   .ldrLit 13 (CodeSize + 152), .eorReg 4 0 12, .ldrLit 12 (CodeSize + 160), .eorReg 5 0 13,
   .ldrLit 13 (CodeSize + 168), .eorReg 6 0 12, .eorReg 7 0 13]

/-- The literal at an offset. -/
def literal (code : Code) (k : Nat) : BitVec 64 := code.word (k + 4) ++ code.word k

/-- The constants lie behind the branch. -/
def HasConstants (code : Code) : Prop :=
  ∀ i : Fin 8, literal code (CodeSize + 112 + 8 * i) = superscalarConstants.getD i 0

theorem datasetSeedRegisters_xor (item : BitVec 64) {i : Fin 8} (hi : i ≠ 0) :
    datasetSeedRegisters item i =
      datasetSeedRegisters item 0 ^^^ superscalarConstants.getD i 0 := by
  fin_cases i <;> first | exact absurd rfl hi | rfl

theorem literal_quads {k : Nat} {vs : List (BitVec 64)} (h : b.At k (vs.flatMap quad)) {i : Nat}
    (hi : i < vs.length) : literal (b.code base) (k + 8 * i) = vs.getD i 0 := by
  induction vs generalizing k i with
  | nil => cases hi
  | cons v vs ih =>
    rw [List.flatMap_cons] at h
    cases i with
    | zero => exact word_quad h.append_left
    | succ i =>
      rw [show k + 8 * (i + 1) = k + 4 * (quad v).length + 8 * i by rw [quad_length]; omega]
      exact ih h.append_right (Nat.lt_of_succ_lt_succ hi)

variable (fu) in
theorem execAll_seedFirst {code : Code} (hConstants : HasConstants code) (s : State) :
    (execAll fu code seedFirst s).x 0 = (s.x 2 + 1) * 6364136223846793005 ∧
      (execAll fu code seedFirst s).x 8 = s.x 0 ∧ (execAll fu code seedFirst s).x 9 = s.x 1 ∧
      (execAll fu code seedFirst s).x 10 = s.x 2 ∧
      Keeps [0, 8, 9, 10, 12] s (execAll fu code seedFirst s) := by
  have hMov (v : BitVec 64) : (0#64) ||| v = v := BitVec.zero_or
  refine ⟨?_, hMov _, hMov _, hMov _, execAll_keeps fu code s rfl (by decide)⟩
  have hFirst : literal code (CodeSize + 112) = 6364136223846793005 := hConstants 0
  have hValue : (execAll fu code seedFirst s).x 0 =
      literal code (CodeSize + 112) + s.x 2 * literal code (CodeSize + 112) := rfl
  rw [hValue, hFirst, add_mul, one_mul, add_comm]

variable (fu) in
theorem execAll_seedOthers (code : Code) (s : State) :
    (∀ k, 0 < k → k < 8 → (execAll fu code seedOthers s).x k =
        s.x 0 ^^^ literal code (CodeSize + 112 + 8 * k)) ∧
      Keeps [1, 2, 3, 4, 5, 6, 7, 12, 13] s (execAll fu code seedOthers s) := by
  refine ⟨fun k hPos hk => ?_, execAll_keeps fu code s rfl (by decide)⟩
  interval_cases k <;> rfl

/-! ## Entry and exit -/

/-- The frame of a call. -/
def callFrame (s : State) : Region := ⟨s.sp - 112, 112⟩

/-- Where the item goes. -/
def itemRegion (s : State) : Region := ⟨s.x 1, 64⟩

/-- The registers the function works with. -/
def itemDests : List Nat := [0, 1, 2, 3, 4, 5, 6, 7, 8, 9, 10, 11, 12, 13]

/-- The state behind the entry code: the registers are saved and everything is in
place for the first round. -/
structure Entered (cacheBase : BitVec 64) (s t : State) : Prop where
  between : BetweenRounds cacheBase (datasetSeedRegisters (s.x 2)) (s.x 2) t
  output : t.x 9 = s.x 1
  keeps : Keeps itemDests (entered 112 framePairs (s.pc + 32) s) t

theorem calcDatasetItemHead_reaches (hAt : b.At CodeSize calcDatasetItemHead)
    (hPc : s.pc = CodeSize) (hCache : s.x 0 = cacheBase) :
    ∃ t, Reaches fu (b.code base) s t ∧ t.pc = CodeSize + 176 ∧ Entered cacheBase s t := by
  have hBlock : Block (b.code base) s.pc (enter 112 framePairs ++ (seedFirst ++ seedOthers)) :=
    hPc ▸ hAt.append_left.append_left.block_asm base
  have hBranch : (b.code base).insn (CodeSize + 108) = some (.b (CodeSize + 176)) :=
    hAt.append_left.append_right.insn_asm base
  have hConstants : HasConstants (b.code base) := fun i => literal_quads hAt.append_right i.isLt
  have hReach : Reaches fu (b.code base) s _ := hBlock.reaches (by decide)
  have hPc₁ : (execAll fu (b.code base) (enter 112 framePairs ++ (seedFirst ++ seedOthers)) s).pc =
      CodeSize + 108 := by
    rw [Block.execAll_pc (by decide), hPc]
    rfl
  have hEnter : execAll fu (b.code base) (enter 112 framePairs) s =
      entered 112 framePairs (s.pc + 32) s := execAll_enter fu (b.code base) 112 s (by decide)
  rw [execAll_append, hEnter, execAll_append] at hReach hPc₁
  obtain ⟨hSeed, hEight, hNine, hTen, hKeeps⟩ :=
    execAll_seedFirst fu hConstants (entered 112 framePairs (s.pc + 32) s)
  generalize execAll fu (b.code base) seedFirst (entered 112 framePairs (s.pc + 32) s) = s₁ at *
  obtain ⟨hOthers, hKeeps'⟩ := execAll_seedOthers fu (b.code base) s₁
  generalize execAll fu (b.code base) seedOthers s₁ = s₂ at *
  have hStep : Reaches fu (b.code base) s₂ (s₂.jump (CodeSize + 176)) :=
    Reaches.step (hPc₁ ▸ hBranch)
  have hZero : s₂.x 0 = datasetSeedRegisters (s.x 2) 0 := (hKeeps'.x 0 (by decide)).trans hSeed
  refine ⟨_, hReach.trans hStep, rfl, ⟨fun i => ?_, ?_, ?_⟩, ?_, ?_⟩
  · by_cases hi : i = 0
    · subst hi
      exact hZero
    · have hPos : 0 < i.val := Nat.pos_of_ne_zero fun h => hi (Fin.ext h)
      rw [datasetSeedRegisters_xor _ hi, ← hConstants i]
      exact (hOthers i hPos i.isLt).trans (congrArg (· ^^^ _) hSeed)
  · exact ((hKeeps'.x 8 (by decide)).trans hEight).trans hCache
  · exact (hKeeps'.x 10 (by decide)).trans hTen
  · exact (hKeeps'.x 9 (by decide)).trans hNine
  · exact ((hKeeps.mono (by decide)).trans (hKeeps'.mono (by decide))).trans (Keeps.jump s₂ _)

/-- The pairs of the item. -/
def itemPairs : List (Nat × Nat) := [(0, 1), (2, 3), (4, 5), (6, 7)]

/-- Memory with the item stored. -/
def storedItem (s : State) : Mem := s.mem.storeWords (s.x 9) ((regsOf itemPairs).map s.x)

variable (fu) in
theorem execAll_storeItem (code : Code) (s : State) :
    execAll fu code (stpAll 9 0 itemPairs) s = (s.setMem (storedItem s)).jump (s.pc + 16) := by
  rw [execAll_stpAll]
  have hBase : s.x 9 + BitVec.ofNat 64 0 = s.x 9 := BitVec.add_zero _
  exact congrArg (fun a => (s.setMem (s.mem.storeWords a ((regsOf itemPairs).map s.x))).jump
    (s.pc + 16)) hBase

/-- The exit code: the item is stored, the registers come back from the words
they were saved to, and control returns to the caller. -/
theorem calcDatasetItemStoreResult_reaches {k : Nat} {saved : Nat → BitVec 64}
    (hAt : b.At k (calcDatasetItemStoreResult.map .asm ++ [.asm .ret])) (hPc : s.pc = k)
    (hSaved : ∀ i (hi : i < (regsOf framePairs).length),
      (storedItem s).load64 (s.sp + BitVec.ofNat 64 (8 * i)) = saved (regsOf framePairs)[i]) :
    ∃ t, Reaches fu (b.code base) s t ∧
      Left 112 framePairs saved base (s.setMem (storedItem s)) t := by
  have hBlock : Block (b.code base) s.pc (stpAll 9 0 itemPairs ++ leave 112 framePairs) :=
    hPc ▸ hAt.append_left.block_asm base
  have hRet : (b.code base).insn (k + 48) = some .ret := hAt.append_right.insn_asm base
  have hStore : Reaches fu (b.code base) s _ := hBlock.append_left.reaches (by decide)
  rw [execAll_storeItem] at hStore
  obtain ⟨t, hReach, hLeft⟩ := @leave_reaches fu (b.code base) 112 framePairs
    ((s.setMem (storedItem s)).jump (s.pc + 16)) saved hBlock.append_right
    (by rw [← hRet, ← hPc]; rfl) (by decide) (by decide) hSaved
  exact ⟨t, hStore.trans hReach, { hLeft with }⟩

/-! ## The call -/

/-- What a caller of the dataset-item function provides: the cache memory at
`x0`, and a frame below the stack pointer that is apart from it and from the
place of the item. -/
structure ItemCall (cache : Argon2dCache) (s : State) : Prop where
  pc : s.pc = CodeSize
  backs : Backs (s.x 0) kRandomXCacheBytes s.mem cache.bytes
  cache_apart : (Region.mk (s.x 0) kRandomXCacheBytes).Disjoint (callFrame s)
  item_apart : (callFrame s).Disjoint (itemRegion s)

/-- What the caller finds: the item at `x1`, and everything else as it was, but
for the frame. -/
structure ItemReturned (base : BitVec 64) (item : DatasetRegisters) (s t : State) : Prop where
  pc : t.pc = (s.x 30 - base).toNat
  item : ∀ i : Fin 8, t.mem.load64 (s.x 1 + BitVec.ofNat 64 (8 * i)) = item i
  x : ∀ r, t.x r = s.x r
  sp : t.sp = s.sp
  v : t.v = s.v
  flags : t.flags = s.flags
  fpcr : t.fpcr = s.fpcr
  mem : Frame [callFrame s, itemRegion s] s.mem t.mem

/-- The words the exit code stores. -/
theorem load64_storedItem (s : State) (i : Fin 8) :
    (storedItem s).load64 (s.x 9 + BitVec.ofNat 64 (8 * i)) = s.x i := by
  have hReg : ∀ i : Fin 8, (regsOf itemPairs)[i.val]? = some i.val := by decide
  exact load64_storeRegs s.mem (s.x 9) s.x (hReg i) (by decide)

/-- **The contract of a call.** -/
theorem calcDatasetItem_reaches
    (hAt : b.At CodeSize (calcDatasetItemSlots (List.ofFn cache.programs) cache.reciprocalCache))
    (hDefault : cache.Default) (hValid : cache.Valid) (hCall : ItemCall cache s) :
    ∃ item t, generateDatasetItem cache (s.x 2) = some item ∧ Reaches fu (b.code base) s t ∧
      ItemReturned base item s t := by
  obtain ⟨item, v, hRounds, hItem⟩ := hValid.rounds
    (by rw [Argon2dCache.lineCount_of_default hDefault]; decide) (s.x 2)
  have hSize := calcDatasetItemSlots_size cache.programs cache.reciprocalCache
  rw [calcDatasetItemSlots, List.append_assoc] at hAt
  rw [calcDatasetItemSlots, List.append_assoc, List.length_append, List.length_append,
    calcDatasetItemHead_length] at hSize
  have hRoom : CodeSize + CalcDatasetItemSize < 2 ^ 20 := by decide
  -- the entry
  obtain ⟨s₁, (hReach₁ : Reaches fu (b.code base) s s₁), hPc₁, hEntered⟩ :=
    calcDatasetItemHead_reaches hAt.append_left.append_left hCall.pc rfl
  have hSaves : Frame [callFrame s] s.mem (entered 112 framePairs (s.pc + 32) s).mem :=
    frame_entered 112 framePairs (s.pc + 32) s (by decide)
  have hBacks : Backs (s.x 0) kRandomXCacheBytes s₁.mem cache.bytes := by
    rw [hEntered.keeps.mem]
    exact hCall.backs.frame hSaves (by decide) fun R hR => List.mem_singleton.mp hR ▸ hCall.cache_apart
  -- the rounds
  obtain ⟨s₂, (hReach₂ : Reaches fu (b.code base) s₁ s₂), hPc₂, hBetween, hKeeps⟩ :=
    superscalarPrograms_reaches hAt.append_left.append_right
      (by rw [calcDatasetItemHead_length]; omega)
      hDefault hBacks hRounds hPc₁ hEntered.between
  have hAll : Keeps itemDests (entered 112 framePairs (s.pc + 32) s) s₂ :=
    hEntered.keeps.trans (hKeeps.mono (by decide))
  have hOut : s₂.x 9 = s.x 1 := (hKeeps.x 9 (by decide)).trans hEntered.output
  -- the item is stored apart from the frame
  have hStores : Frame [itemRegion s] (entered 112 framePairs (s.pc + 32) s).mem
      (storedItem s₂) := by
    have hFrame : Frame [⟨s₂.x 9, 64⟩] s₂.mem (storedItem s₂) :=
      frame_storeRegs s₂.mem (s₂.x 9) s₂.x itemPairs (by decide)
    rwa [hOut, hAll.mem] at hFrame
  have hSaved (i : Nat) (hi : i < (regsOf framePairs).length) :
      (storedItem s₂).load64 (s₂.sp + BitVec.ofNat 64 (8 * i)) = s.x (regsOf framePairs)[i] := by
    rw [hAll.sp]
    exact entered_saved 112 framePairs (s.pc + 32) s hStores (by decide)
      (fun R hR => List.mem_singleton.mp hR ▸ hCall.item_apart) i hi
  obtain ⟨t, hReach, hLeft⟩ := calcDatasetItemStoreResult_reaches hAt.append_right
    (by rw [hPc₂, List.length_append, calcDatasetItemHead_length]; omega) hSaved
  refine ⟨item, t, hItem, (hReach₁.trans hReach₂).trans hReach, ?_⟩
  have hKept (r : Nat) (hr : r ∉ itemDests) : s₂.x r = s.x r := hAll.x r hr
  exact {
    pc := hLeft.pc.trans (congrArg (fun a => (a - base).toNat) (hKept 30 (by decide)))
    item := fun i => by
      rw [hLeft.mem, ← hOut]
      exact (load64_storedItem s₂ i).trans (hBetween.registers i)
    x := fun r => by
      by_cases hr : r ∈ regsOf framePairs
      · exact hLeft.restored r hr
      · exact (hLeft.x r hr).trans (hKept r hr)
    sp := by
      rw [hLeft.sp]
      exact (congrArg (· + 112) hAll.sp).trans (BitVec.sub_add_cancel _ _)
    v := hLeft.v.trans hAll.v
    flags := hLeft.flags.trans hAll.flags
    fpcr := hLeft.fpcr.trans hAll.fpcr
    mem := by
      rw [hLeft.mem]
      exact (hSaves.subset (by simp)).trans (hStores.subset (by simp)) }

/-- **The assembled function derives the item.** It always fits, and a call of it
returns the item of the cache with every register as it was. -/
theorem generateSuperscalarHash_correct (cache : Argon2dCache) (hDefault : cache.Default)
    (hValid : cache.Valid) (b : Buffer) :
    ∃ b', generateSuperscalarHash (List.ofFn cache.programs) cache.reciprocalCache b = some b' ∧
      ∀ (fu : FloatUnit) (base : BitVec 64) (s : State), ItemCall cache s →
        ∃ item t, generateDatasetItem cache (s.x 2) = some item ∧
          Reaches fu (b'.code base) s t ∧ ItemReturned base item s t :=
  ⟨_, generateSuperscalarHash_eq cache.programs cache.reciprocalCache b, fun _ _ _ hCall =>
    calcDatasetItem_reaches (Buffer.place_self b CodeSize _) hDefault hValid hCall⟩

/-- A cache of zeros whose programs multiply by a reciprocal and subtract twice, the
first time from the product. -/
def sampleCache : Argon2dCache where
  bytes := fun _ => 0
  memoryBlocks := 262144
  programs := fun _ =>
    { instructions := [⟨13, 1, 0, 0, 0⟩, ⟨0, 2, 1, 0, 0⟩, ⟨0, 3, 4, 0, 0⟩]
      addressRegister := 2
      size_le := by decide
      registers := by decide }
  reciprocalCache := [12297829382473034410]

theorem sampleCache_valid : sampleCache.Valid := by
  intro i instr hIn
  have hTypes : ∀ instr ∈ ([⟨13, 1, 0, 0, 0⟩, ⟨0, 2, 1, 0, 0⟩, ⟨0, 3, 4, 0, 0⟩] : List Instruction),
      ∃ type, instr.superscalarType = some type ∧
        (type = .imulRcp → instr.imm32.toNat < 1) := by
    intro instr hIn
    fin_cases hIn
    · exact ⟨.imulRcp, rfl, fun _ => by decide⟩
    · exact ⟨.isubR, rfl, nofun⟩
    · exact ⟨.isubR, rfl, nofun⟩
  exact hTypes instr hIn

/-- The scheduler moves the independent subtraction in front. -/
theorem sampleCache_order (i : Fin kRandomXCacheAccesses) :
    scheduleSuperscalarProgram (sampleCache.programs i).instructions = [0, 2, 1] := by
  show scheduleSuperscalarProgram [⟨13, 1, 0, 0, 0⟩, ⟨0, 2, 1, 0, 0⟩, ⟨0, 3, 4, 0, 0⟩] = _
  decide

/-- A call for item 5, with the cache at address 0. -/
def sampleCall : State where
  x := fun r => if r = 1 then 0x80000000 else if r = 2 then 5 else if r = 30 then 400 else 0
  sp := 0x40000000
  v := fun _ => 0
  flags := ⟨false, false, false, false⟩
  fpcr := 0
  mem := fun _ => 0
  pc := CodeSize

theorem sampleCall_call : ItemCall sampleCache sampleCall where
  pc := rfl
  backs := fun _ _ => rfl
  cache_apart := by
    intro x (hCache : (x - 0#64).toNat < 256 * 1024 * 1024)
      (hFrame : (x - (0x40000000#64 - 112#64)).toNat < 112)
    bv_omega
  item_apart := by
    intro x (hFrame : (x - (0x40000000#64 - 112#64)).toNat < 112)
      (hItem : (x - 0x80000000#64).toNat < 64)
    bv_omega

theorem generateSuperscalarHash_correct_sample :
    (∀ i, scheduleSuperscalarProgram (sampleCache.programs i).instructions = [0, 2, 1]) ∧
    ∃ b', generateSuperscalarHash (List.ofFn sampleCache.programs) sampleCache.reciprocalCache
        (fun _ => .word 0) = some b' ∧
      ∃ item t, generateDatasetItem sampleCache 5 = some item ∧
        Reaches leftUnit (b'.code 0) sampleCall t ∧ t.pc = 400 ∧
        ItemReturned 0 item sampleCall t := by
  obtain ⟨b', hCode, hCalls⟩ := generateSuperscalarHash_correct sampleCache rfl sampleCache_valid
    (fun _ => .word 0)
  obtain ⟨item, t, hItem, hReach, hReturned⟩ := hCalls leftUnit 0 sampleCall sampleCall_call
  exact ⟨sampleCache_order, b', hCode, item, t, hItem, hReach, hReturned.pc, hReturned⟩

end ArmRx.Jit
