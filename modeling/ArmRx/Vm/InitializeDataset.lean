import ArmRx.Mining.PartialDataset
import ArmRx.Vm.SuperscalarNeon

/-!
# Filling the dataset

Embeds `initialize_dataset` (`src/dataset.cpp`, the AArch64 branch) and the end of
`Argon2dCache::initialize` (`src/argon2.cpp`), where the divisor of every
`IMUL_RCP` is replaced by the index of its reciprocal in a table that the eight
programs share.

* `indexPrograms_execute` — a program with indices does what the generated one
  does with its divisors.
* `initializeDataset_slots` — one call writes its slots and nothing else.
* `dataset_generation` — any sequence of calls on consecutive ranges.
-/

namespace ArmRx.Vm

open ArmRx.Lib
open ArmRx.Mining.PartialDataset (kRandomXDatasetItemBytes randomxDatasetItemCount)

/-! ## Reciprocals and their indices -/

/-- What an instruction does without a table: `randomx_reciprocal` of the
divisor itself. -/
def superscalarOpDivisor (instr : Instruction) : Option (BitVec 64 → BitVec 64 → BitVec 64) := do
  let type ← instr.superscalarType
  match type with
  | .imulRcp => some fun dst _ => dst * randomxReciprocal instr.imm32
  | _ => superscalarOp [] instr

/-- `execute_superscalar` with a null table. -/
def executeSuperscalarDivisor (instructions : List Instruction) (r : DatasetRegisters) :
    Option DatasetRegisters :=
  instructions.foldlM (fun r instr => do
    let op ← superscalarOpDivisor instr
    some (Function.update r (regOf instr.dst)
      (op (r (regOf instr.dst)) (r (regOf instr.src))))) r

/-- One pass of the inner loop of `initialize`, given `reciprocal_cache_`. -/
def indexReciprocal (table : List (BitVec 64)) (instr : Instruction) :
    Instruction × List (BitVec 64) :=
  if instr.superscalarType = some .imulRcp then
    let rcp := randomxReciprocal instr.imm32
    ({ instr with imm32 := BitVec.ofNat 32 table.length }, table ++ [rcp])
  else (instr, table)

/-- The inner loop. -/
def indexReciprocals : List (BitVec 64) → List Instruction → List Instruction × List (BitVec 64)
  | table, [] => ([], table)
  | table, instr :: rest =>
    let s := indexReciprocal table instr
    let t := indexReciprocals s.2 rest
    (s.1 :: t.1, t.2)

/-- `instr'` is `instr` with its divisor, if it has one, turned into the index of
the reciprocal. -/
structure Indexed (table : List (BitVec 64)) (instr instr' : Instruction) : Prop where
  opcode : instr'.opcode = instr.opcode
  dst : instr'.dst = instr.dst
  src : instr'.src = instr.src
  index : instr.superscalarType = some .imulRcp →
    table[instr'.imm32.toNat]? = some (randomxReciprocal instr.imm32)
  other : instr.superscalarType ≠ some .imulRcp → instr' = instr

theorem Indexed.mono {table table' : List (BitVec 64)} {instr instr' : Instruction}
    (h : Indexed table instr instr') (hPrefix : table <+: table') :
    Indexed table' instr instr' := by
  refine { h with index := fun hRcp => ?_ }
  obtain ⟨rest, rfl⟩ := hPrefix
  have hIndex := h.index hRcp
  rw [List.getElem?_append_left (List.getElem?_eq_some_iff.mp hIndex).1, hIndex]

/-- One instruction. The index does not wrap as long as the table is short. -/
theorem indexReciprocal_spec {table : List (BitVec 64)} (hShort : table.length < 2 ^ 32)
    (instr : Instruction) :
    Indexed (indexReciprocal table instr).2 instr (indexReciprocal table instr).1 ∧
      table <+: (indexReciprocal table instr).2 ∧
      (indexReciprocal table instr).2.length ≤ table.length + 1 := by
  unfold indexReciprocal
  split
  · rename_i hRcp
    refine ⟨⟨rfl, rfl, rfl, fun _ => ?_, fun hNot => absurd hRcp hNot⟩, List.prefix_append _ _, ?_⟩
    · have hIndex : (BitVec.ofNat 32 table.length).toNat = table.length := by
        rw [BitVec.toNat_ofNat, Nat.mod_eq_of_lt hShort]
      simp only [hIndex, List.getElem?_concat_length]
    · simp
  · rename_i hOther
    exact ⟨⟨rfl, rfl, rfl, fun hRcp => absurd hRcp hOther, fun _ => rfl⟩, List.prefix_rfl, by simp⟩

/-- A program, by induction over it: later entries of the table do not disturb
the earlier indices. -/
theorem indexReciprocals_spec {table : List (BitVec 64)} {instructions : List Instruction}
    (hShort : table.length + instructions.length ≤ 2 ^ 32) :
    List.Forall₂ (Indexed (indexReciprocals table instructions).2) instructions
        (indexReciprocals table instructions).1 ∧
      table <+: (indexReciprocals table instructions).2 ∧
      (indexReciprocals table instructions).2.length ≤ table.length + instructions.length := by
  induction instructions generalizing table with
  | nil => exact ⟨.nil, List.prefix_rfl, by simp [indexReciprocals]⟩
  | cons instr rest ih =>
    rw [List.length_cons] at hShort
    obtain ⟨hHead, hPrefix, hLength⟩ := @indexReciprocal_spec table (by omega) instr
    obtain ⟨hRest, hPrefix', hLength'⟩ := @ih (indexReciprocal table instr).2 (by omega)
    refine ⟨.cons (hHead.mono hPrefix') hRest, hPrefix.trans hPrefix', ?_⟩
    rw [List.length_cons]
    exact hLength'.trans (by omega)

theorem length_indexReciprocals (table : List (BitVec 64)) (instructions : List Instruction) :
    (indexReciprocals table instructions).1.length = instructions.length := by
  induction instructions generalizing table with
  | nil => rfl
  | cons instr rest ih => simp [indexReciprocals, ih]

/-- The registers of an instruction stay. -/
theorem registers_indexReciprocals {table : List (BitVec 64)} {instructions : List Instruction}
    (h : ∀ instr ∈ instructions, instr.dst < 8 ∧ instr.src < 8) :
    ∀ instr ∈ (indexReciprocals table instructions).1, instr.dst < 8 ∧ instr.src < 8 := by
  induction instructions generalizing table with
  | nil => exact h
  | cons instr rest ih =>
    rw [indexReciprocals, List.forall_mem_cons]
    rw [List.forall_mem_cons] at h
    refine ⟨?_, ih h.2⟩
    unfold indexReciprocal
    split <;> exact h.1

/-- The inner loop on `programs_[i]`, with the table it leaves. -/
def SuperscalarProgram.indexed (program : SuperscalarProgram) (table : List (BitVec 64)) :
    SuperscalarProgram × List (BitVec 64) :=
  ({ program with
      instructions := (indexReciprocals table program.instructions).1
      size_le := by
        rw [length_indexReciprocals]
        exact program.size_le
      registers := registers_indexReciprocals program.registers },
    (indexReciprocals table program.instructions).2)

/-- The loop over the programs that `generate_superscalar` returned. -/
def indexPrograms (programs : Fin kRandomXCacheAccesses → SuperscalarProgram) :
    (Fin kRandomXCacheAccesses → SuperscalarProgram) × List (BitVec 64) :=
  (List.finRange kRandomXCacheAccesses).foldl (fun s i =>
    let t := (s.1 i).indexed s.2
    (Function.update s.1 i t.1, t.2)) (programs, [])

/-- The programs and the table that `Argon2dCache::initialize` leaves, beside the
memory it fills. -/
def Argon2dCache.initialized (bytes : ByteStore) (memoryBlocks : Nat)
    (programs : Fin kRandomXCacheAccesses → SuperscalarProgram) : Argon2dCache where
  bytes
  memoryBlocks
  programs := (indexPrograms programs).1
  reciprocalCache := (indexPrograms programs).2

/-- `program'` is `program` with indices into the table. -/
structure ProgramIndexed (table : List (BitVec 64)) (program program' : SuperscalarProgram) :
    Prop where
  instructions : List.Forall₂ (Indexed table) program.instructions program'.instructions
  addressRegister : program'.addressRegister = program.addressRegister

theorem ProgramIndexed.mono {table table' : List (BitVec 64)}
    {program program' : SuperscalarProgram} (h : ProgramIndexed table program program')
    (hPrefix : table <+: table') : ProgramIndexed table' program program' :=
  ⟨h.instructions.imp fun _ _ hInstr => hInstr.mono hPrefix, h.addressRegister⟩

theorem indexed_spec {table : List (BitVec 64)} (program : SuperscalarProgram)
    (hShort : table.length + kSuperscalarMaxSize ≤ 2 ^ 32) :
    ProgramIndexed (program.indexed table).2 program (program.indexed table).1 ∧
      table <+: (program.indexed table).2 ∧
      (program.indexed table).2.length ≤ table.length + kSuperscalarMaxSize := by
  have hSize := program.size_le
  obtain ⟨hIndexed, hPrefix, hLength⟩ :=
    @indexReciprocals_spec table program.instructions (by omega)
  exact ⟨⟨hIndexed, rfl⟩, hPrefix, hLength.trans (by omega)⟩

/-- The loop over a list of programs still to come, from any table. -/
theorem foldl_indexed_spec {indices : List (Fin kRandomXCacheAccesses)} (hNodup : indices.Nodup)
    (programs : Fin kRandomXCacheAccesses → SuperscalarProgram) (table : List (BitVec 64))
    (hShort : table.length + kSuperscalarMaxSize * indices.length ≤ 2 ^ 32) :
    let s := indices.foldl (fun s i =>
      let t := (s.1 i).indexed s.2
      (Function.update s.1 i t.1, t.2)) (programs, table)
    (∀ i ∈ indices, ProgramIndexed s.2 (programs i) (s.1 i)) ∧
      (∀ i ∉ indices, s.1 i = programs i) ∧ table <+: s.2 := by
  induction indices generalizing programs table with
  | nil => exact ⟨nofun, fun _ _ => rfl, List.prefix_rfl⟩
  | cons i rest ih =>
    rw [List.length_cons, Nat.mul_succ] at hShort
    obtain ⟨hFresh, hNodup'⟩ := List.nodup_cons.mp hNodup
    obtain ⟨hProgram, hPrefix, hLength⟩ := @indexed_spec table (programs i) (by omega)
    obtain ⟨hDone, hSame, hPrefix'⟩ :=
      ih hNodup' (Function.update programs i ((programs i).indexed table).1)
        ((programs i).indexed table).2 (by omega)
    refine ⟨fun j hj => ?_, fun j hj => ?_, hPrefix.trans hPrefix'⟩
    · obtain rfl | hj := List.mem_cons.mp hj
      · -- this program is done; the others only lengthen the table
        have hHere := hSame j hFresh
        rw [Function.update_self] at hHere
        rw [List.foldl_cons]
        exact hHere ▸ hProgram.mono hPrefix'
      · have hNe : j ≠ i := fun h => hFresh (h ▸ hj)
        have hThere := hDone j hj
        rw [Function.update_of_ne hNe] at hThere
        exact hThere
    · rw [List.mem_cons, not_or] at hj
      exact (hSame j hj.2).trans (Function.update_of_ne hj.1 _ _)

theorem indexPrograms_spec (programs : Fin kRandomXCacheAccesses → SuperscalarProgram)
    (i : Fin kRandomXCacheAccesses) :
    ProgramIndexed (indexPrograms programs).2 (programs i) ((indexPrograms programs).1 i) :=
  (foldl_indexed_spec (List.nodup_finRange _) programs [] (by decide)).1 i (List.mem_finRange i)

theorem Indexed.superscalarType {table : List (BitVec 64)} {instr instr' : Instruction}
    (h : Indexed table instr instr') : instr'.superscalarType = instr.superscalarType := by
  rw [Instruction.superscalarType, Instruction.superscalarType, h.opcode]

/-- An instruction with an index does what the one with the divisor does. -/
theorem Indexed.superscalarOp_eq {table : List (BitVec 64)} {instr instr' : Instruction}
    (h : Indexed table instr instr') : superscalarOp table instr' = superscalarOpDivisor instr := by
  unfold superscalarOpDivisor
  by_cases hRcp : instr.superscalarType = some .imulRcp
  · rw [superscalarOp, h.superscalarType, hRcp]
    simp only [Option.bind_eq_bind, Option.bind_some, h.index hRcp]
  · obtain rfl := h.other hRcp
    unfold superscalarOp
    cases hType : instr'.superscalarType with
    | none => rfl
    | some type => cases type <;> first | rfl | exact absurd hType hRcp

/-- A whole program, by induction over it. -/
theorem executeSuperscalar_indexed {table : List (BitVec 64)}
    {instructions instructions' : List Instruction}
    (h : List.Forall₂ (Indexed table) instructions instructions') (r : DatasetRegisters) :
    executeSuperscalar table instructions' r = executeSuperscalarDivisor instructions r := by
  unfold executeSuperscalar executeSuperscalarDivisor
  induction h generalizing r with
  | nil => rfl
  | cons hHead _ ih =>
    rw [List.foldlM_cons, List.foldlM_cons]
    unfold superscalarStep
    rw [hHead.superscalarOp_eq, hHead.dst, hHead.src]
    cases superscalarOpDivisor _ with
    | none => rfl
    | some op => exact ih _

/-- **Indices for divisors.** The programs of an initialised cache compute what
the generated ones compute with their divisors. -/
theorem indexPrograms_execute (bytes : ByteStore) (memoryBlocks : Nat)
    (programs : Fin kRandomXCacheAccesses → SuperscalarProgram) (i : Fin kRandomXCacheAccesses)
    (r : DatasetRegisters) :
    executeSuperscalar (Argon2dCache.initialized bytes memoryBlocks programs).reciprocalCache
        ((Argon2dCache.initialized bytes memoryBlocks programs).programs i).instructions r =
      executeSuperscalarDivisor (programs i).instructions r :=
  executeSuperscalar_indexed (indexPrograms_spec programs i).instructions r

/-- Every opcode of the program is one of the fourteen. -/
def SuperscalarProgram.Typed (program : SuperscalarProgram) : Prop :=
  ∀ instr ∈ program.instructions, instr.superscalarType.isSome

/-- A typed program runs to its end. -/
theorem executeSuperscalarDivisor_isSome {instructions : List Instruction}
    (h : ∀ instr ∈ instructions, instr.superscalarType.isSome) (r : DatasetRegisters) :
    (executeSuperscalarDivisor instructions r).isSome := by
  refine foldlM_isSome (fun instr hIn r => ?_) r
  have hOp : (superscalarOpDivisor instr).isSome := by
    unfold superscalarOpDivisor superscalarOp
    obtain ⟨type, hType⟩ := Option.isSome_iff_exists.mp (h instr hIn)
    rw [hType]
    cases type <;> rfl
  obtain ⟨op, hOp⟩ := Option.isSome_iff_exists.mp hOp
  rw [hOp]
  rfl

/-- Every item of an initialised cache can be derived. -/
theorem generateDatasetItem_isSome {bytes : ByteStore} {memoryBlocks : Nat}
    {programs : Fin kRandomXCacheAccesses → SuperscalarProgram} (hBlocks : 0 < memoryBlocks)
    (hTyped : ∀ i, (programs i).Typed) (item : BitVec 64) :
    (generateDatasetItem (.initialized bytes memoryBlocks programs) item).isSome := by
  have hLines : (Argon2dCache.initialized bytes memoryBlocks programs).lineCount ≠ 0 := by
    simp only [Argon2dCache.lineCount, Argon2dCache.initialized]
    omega
  rw [generateDatasetItem_eq _ hLines, Option.isSome_map]
  refine foldlM_isSome (fun program hIn s => ?_) (datasetSeedRegisters item, item)
  obtain ⟨i, rfl⟩ := List.mem_ofFn.mp hIn
  obtain ⟨rl, hRl⟩ := Option.isSome_iff_exists.mp
    (executeSuperscalarDivisor_isSome (hTyped i) s.1)
  rw [datasetRound, indexPrograms_execute, hRl]
  rfl

/-! ## `initialize_dataset` -/

/-- `std::span<std::byte>`. -/
structure Span where
  data : Nat
  size : Nat

/-- `dataset_range_is_valid`. -/
def datasetRangeIsValid (startItem itemCount : Nat) : Bool :=
  startItem ≤ randomxDatasetItemCount && itemCount ≤ randomxDatasetItemCount - startItem

/-- `dataset_output_bytes`. -/
def datasetOutputBytes (itemCount : Nat) : Nat := itemCount * kRandomXDatasetItemBytes

/-- The eight `memcpy`s of an item, or its one `memcpy` of 64 bytes. -/
def storeItem (m : ByteStore) (address : Nat) (item : DatasetRegisters) : ByteStore :=
  (List.finRange 8).foldl (fun m (q : Fin 8) => m.store64 (address + q * 8) (item q)) m

/-- The stores at the end of an iteration of the vector loop. -/
def storePair (m : ByteStore) (address0 address1 : Nat) (vr : PairRegisters) : ByteStore :=
  (List.finRange 8).foldl (fun m (q : Fin 8) =>
    (m.store64 (address0 + q * 8) (vr q 0)).store64 (address1 + q * 8) (vr q 1)) m

/-- The vector loop, with the number of items left: the memory and `offset`. -/
def pairLoop (cache : Argon2dCache) (data startItem : Nat) :
    Nat → ByteStore → Nat → Option (ByteStore × Nat)
  | left + 2, m, offset => do
    let vr ← datasetPair cache (BitVec.ofNat 64 (startItem + offset))
      (BitVec.ofNat 64 (startItem + offset + 1))
    pairLoop cache data startItem left
      (storePair m (data + offset * kRandomXDatasetItemBytes)
        (data + (offset + 1) * kRandomXDatasetItemBytes) vr) (offset + 2)
  | _, m, offset => some (m, offset)

/-- The loop over what the vector loop leaves. -/
def leftoverLoop (cache : Argon2dCache) (data startItem : Nat) :
    Nat → ByteStore → Nat → Option ByteStore
  | left + 1, m, offset => do
    let item ← generateDatasetItem cache (BitVec.ofNat 64 (startItem + offset))
    leftoverLoop cache data startItem left
      (storeItem m (data + offset * kRandomXDatasetItemBytes) item) (offset + 1)
  | 0, m, _ => some m

/-- `initialize_dataset`. Items and counts are natural numbers: the range check
keeps them far below `2^64`. A failure of a superscalar program is the opcode
that the executors throw on. -/
def initializeDataset (m : ByteStore) (output : Span) (cache : Argon2dCache)
    (startItem itemCount : Nat) : Except String ByteStore :=
  if !datasetRangeIsValid startItem itemCount then .error "dataset item range is invalid"
  else if itemCount > (2 ^ 64 - 1) / kRandomXDatasetItemBytes then
    .error "dataset item count is too large"
  else if output.size < datasetOutputBytes itemCount then
    .error "dataset output buffer is too small"
  else if cache.lineCount = 0 then .error "cache has no lines"
  else
    let filled := do
      let s ← pairLoop cache output.data startItem itemCount m 0
      leftoverLoop cache output.data startItem (itemCount - s.2) s.1 s.2
    match filled with
    | none => .error "unreachable instruction opcode in execute_superscalar"
    | some m => .ok m

/-! ## Slots -/

/-- Byte `j` of an item: byte `j % 8` of its word `j / 8`. -/
def itemByte (item : DatasetRegisters) (j : Nat) : BitVec 8 :=
  byteOf (item (Fin.ofNat 8 (j / 8))) (j % 8)

/-- The 64 bytes at the address are those of the item. -/
def Slot (m : ByteStore) (address : Nat) (item : DatasetRegisters) : Prop :=
  ∀ j < 64, m (address + j) = itemByte item j

/-- The memories agree outside the bytes from `first` to `last`. -/
def SameOutside (m m' : ByteStore) (first last : Nat) : Prop :=
  ∀ x, x < first ∨ last ≤ x → m' x = m x

theorem SameOutside.trans {m m' m'' : ByteStore} {first last first' last' : Nat}
    (h : SameOutside m m' first last) (h' : SameOutside m' m'' first' last')
    (hFirst : first ≤ first') (hLast : last ≤ last') : SameOutside m m'' first last' := by
  intro x hx
  rw [h' x (by omega), h x (by omega)]

theorem SameOutside.slot {m m' : ByteStore} {first last address : Nat} {item : DatasetRegisters}
    (h : SameOutside m m' first last) (hSlot : Slot m address item)
    (hBefore : address + 64 ≤ first) : Slot m' address item := by
  intro j hj
  rw [h _ (by omega), hSlot j hj]

/-- Writes that hold the eight words of an item, and nothing else at its slot. -/
theorem slot_storeAll {ws : List (Nat × BitVec 64)} {address : Nat} {item : DatasetRegisters}
    (hWords : ∀ q : Fin 8, (address + q * 8, item q) ∈ ws)
    (hOnly : ∀ w ∈ ws, (∃ q : Fin 8, w = (address + q * 8, item q)) ∨
      w.1 + 8 ≤ address ∨ address + 64 ≤ w.1) (m : ByteStore) :
    Slot (m.storeAll ws) address item := by
  intro j hj
  have hWord : (Fin.ofNat 8 (j / 8)).val = j / 8 := by
    simp only [Fin.ofNat]
    omega
  have hCovered : address + (Fin.ofNat 8 (j / 8)).val * 8 ≤ address + j ∧
      address + j < address + (Fin.ofNat 8 (j / 8)).val * 8 + 8 := by omega
  rw [ByteStore.storeAll_of_covered (hWords (Fin.ofNat 8 (j / 8))) hCovered ?_ m]
  · dsimp only
    rw [itemByte, show address + j - (address + (Fin.ofNat 8 (j / 8)).val * 8) = j % 8 by omega]
  · intro w hw hx
    obtain ⟨q, rfl⟩ | hBefore | hAfter := hOnly w hw
    · dsimp only at hx
      have hq : q = Fin.ofNat 8 (j / 8) := Fin.ext (by omega)
      rw [hq]
    · omega
    · omega

theorem storeItem_spec (m : ByteStore) (address : Nat) (item : DatasetRegisters) :
    Slot (storeItem m address item) address item ∧
      SameOutside m (storeItem m address item) address (address + 64) := by
  have hStore : storeItem m address item =
      m.storeAll ((List.finRange 8).map fun (q : Fin 8) => (address + q * 8, item q)) := by
    rw [ByteStore.storeAll, List.foldl_map, storeItem]
  rw [hStore]
  refine ⟨slot_storeAll (fun q => ?_) (fun w hw => ?_) m, fun x hx => ?_⟩
  · exact List.mem_map_of_mem (List.mem_finRange q)
  · obtain ⟨q, -, rfl⟩ := List.mem_map.mp hw
    exact .inl ⟨q, rfl⟩
  · refine ByteStore.storeAll_of_not_covered (fun w hw => ?_) m
    obtain ⟨q, -, rfl⟩ := List.mem_map.mp hw
    have hq := q.isLt
    dsimp only
    omega

theorem storePair_spec (m : ByteStore) (address : Nat) (item0 item1 : DatasetRegisters) :
    let m' := storePair m address (address + 64) (interleave item0 item1)
    Slot m' address item0 ∧ Slot m' (address + 64) item1 ∧
      SameOutside m m' address (address + 128) := by
  have hStore : storePair m address (address + 64) (interleave item0 item1) =
      m.storeAll ((List.finRange 8).flatMap fun (q : Fin 8) =>
        [(address + q * 8, item0 q), (address + 64 + q * 8, item1 q)]) := by
    rw [ByteStore.storeAll, List.foldl_flatMap, storePair]
    rfl
  have hMem {w : Nat × BitVec 64} (hw : w ∈ (List.finRange 8).flatMap fun (q : Fin 8) =>
      [(address + q * 8, item0 q), (address + 64 + q * 8, item1 q)]) :
      ∃ q : Fin 8, w = (address + q * 8, item0 q) ∨ w = (address + 64 + q * 8, item1 q) := by
    obtain ⟨q, -, hw⟩ := List.mem_flatMap.mp hw
    exact ⟨q, by simpa using hw⟩
  intro m'
  rw [show m' = _ from hStore]
  refine ⟨slot_storeAll (fun q => ?_) (fun w hw => ?_) m,
    slot_storeAll (fun q => ?_) (fun w hw => ?_) m, fun x hx => ?_⟩
  · exact List.mem_flatMap.mpr ⟨q, List.mem_finRange q, by simp⟩
  · obtain ⟨q, rfl | rfl⟩ := hMem hw
    · exact .inl ⟨q, rfl⟩
    · exact .inr (.inr (by dsimp only; omega))
  · exact List.mem_flatMap.mpr ⟨q, List.mem_finRange q, by simp⟩
  · obtain ⟨q, rfl | rfl⟩ := hMem hw
    · have hq := q.isLt
      exact .inr (.inl (by dsimp only; omega))
    · exact .inl ⟨q, rfl⟩
  · refine ByteStore.storeAll_of_not_covered (fun w hw => ?_) m
    obtain ⟨q, rfl | rfl⟩ := hMem hw
    all_goals
      have hq := q.isLt
      dsimp only
      omega

/-- The slots of items `first` to `last` of a range hold what
`generate_dataset_item` returns for them. -/
def Filled (cache : Argon2dCache) (m : ByteStore) (data startItem first last : Nat) : Prop :=
  ∀ k, first ≤ k → k < last → ∃ item,
    generateDatasetItem cache (BitVec.ofNat 64 (startItem + k)) = some item ∧
      Slot m (data + 64 * k) item

/-- One more slot in front, which the later stores did not touch. -/
theorem Filled.cons {cache : Argon2dCache} {m m' : ByteStore} {data startItem first last : Nat}
    {item : DatasetRegisters}
    (hItem : generateDatasetItem cache (BitVec.ofNat 64 (startItem + first)) = some item)
    (hSlot : Slot m (data + 64 * first) item) {low high : Nat} (hSame : SameOutside m m' low high)
    (hLow : data + 64 * (first + 1) ≤ low) (h : Filled cache m' data startItem (first + 1) last) :
    Filled cache m' data startItem first last := by
  intro k hFirst hLast
  obtain rfl | hLater := Nat.eq_or_lt_of_le hFirst
  · exact ⟨item, hItem, hSame.slot hSlot (by omega)⟩
  · exact h k hLater hLast

section Loops

variable {cache : Argon2dCache} (hItems : ∀ n, (generateDatasetItem cache n).isSome)

include hItems

theorem leftoverLoop_spec (data startItem left : Nat) (m : ByteStore) (offset : Nat) :
    ∃ m', leftoverLoop cache data startItem left m offset = some m' ∧
      Filled cache m' data startItem offset (offset + left) ∧
      SameOutside m m' (data + 64 * offset) (data + 64 * (offset + left)) := by
  induction left generalizing m offset with
  | zero => exact ⟨m, rfl, fun k hFirst hLast => by omega, fun _ _ => rfl⟩
  | succ left ih =>
    obtain ⟨item, hItem⟩ :=
      Option.isSome_iff_exists.mp (hItems (BitVec.ofNat 64 (startItem + offset)))
    obtain ⟨hSlot, hOutside⟩ := storeItem_spec m (data + 64 * offset) item
    obtain ⟨m', hRun, hFilled, hSame⟩ := ih (storeItem m (data + 64 * offset) item) (offset + 1)
    rw [show offset + 1 + left = offset + (left + 1) by omega] at hFilled hSame
    refine ⟨m', ?_, .cons hItem hSlot hSame le_rfl hFilled, ?_⟩
    · rw [leftoverLoop, hItem, Nat.mul_comm offset]
      exact hRun
    · exact hOutside.trans hSame (by omega) (by omega)

/-- The vector loop stops with at most one item left. -/
theorem pairLoop_spec (hLines : cache.lineCount ≠ 0) (data startItem left : Nat) (m : ByteStore)
    (offset : Nat) :
    ∃ m' stop, pairLoop cache data startItem left m offset = some (m', stop) ∧
      offset ≤ stop ∧ stop ≤ offset + left ∧ Filled cache m' data startItem offset stop ∧
      SameOutside m m' (data + 64 * offset) (data + 64 * stop) := by
  induction left using Nat.twoStepInduction generalizing m offset with
  | zero => exact ⟨m, offset, rfl, le_rfl, by omega, fun k _ _ => by omega, fun _ _ => rfl⟩
  | one => exact ⟨m, offset, rfl, le_rfl, by omega, fun k _ _ => by omega, fun _ _ => rfl⟩
  | more left ih _ =>
    obtain ⟨item0, hItem0⟩ :=
      Option.isSome_iff_exists.mp (hItems (BitVec.ofNat 64 (startItem + offset)))
    obtain ⟨item1, hItem1⟩ :=
      Option.isSome_iff_exists.mp (hItems (BitVec.ofNat 64 (startItem + offset + 1)))
    have hPair : datasetPair cache (BitVec.ofNat 64 (startItem + offset))
        (BitVec.ofNat 64 (startItem + offset + 1)) = some (interleave item0 item1) := by
      rw [datasetPair_eq cache hLines, hItem0, hItem1]
      rfl
    obtain ⟨hSlot0, hSlot1, hOutside⟩ := storePair_spec m (data + 64 * offset) item0 item1
    obtain ⟨m', stop, hRun, hStart, hStop, hFilled, hSame⟩ := ih
      (storePair m (data + 64 * offset) (data + 64 * offset + 64) (interleave item0 item1))
      (offset + 2)
    rw [show data + 64 * offset + 64 = data + 64 * (offset + 1) by omega] at hSlot1 hRun hSame
    refine ⟨m', stop, ?_, by omega, by omega, ?_, ?_⟩
    · rw [pairLoop, hPair, Nat.mul_comm offset, Nat.mul_comm (offset + 1)]
      exact hRun
    · exact .cons hItem0 hSlot0 hSame (by omega)
        (.cons (by rw [← Nat.add_assoc]; exact hItem1) hSlot1 hSame le_rfl hFilled)
    · exact hOutside.trans hSame (by omega) (by omega)

/-- **One call.** A valid range with room for its items gets exactly its slots. -/
theorem initializeDataset_slots (hLines : cache.lineCount ≠ 0) (m : ByteStore) (output : Span)
    {startItem itemCount : Nat} (hValid : datasetRangeIsValid startItem itemCount)
    (hSize : datasetOutputBytes itemCount ≤ output.size) :
    ∃ m', initializeDataset m output cache startItem itemCount = .ok m' ∧
      Filled cache m' output.data startItem 0 itemCount ∧
      SameOutside m m' output.data (output.data + 64 * itemCount) := by
  have hCount : ¬ itemCount > (2 ^ 64 - 1) / kRandomXDatasetItemBytes := by
    simp only [datasetRangeIsValid, Bool.and_eq_true, decide_eq_true_eq] at hValid
    have hItems : randomxDatasetItemCount ≤ (2 ^ 64 - 1) / kRandomXDatasetItemBytes := by decide
    omega
  obtain ⟨m₁, stop, hPairs, -, hStop, hFilled₁, hSame₁⟩ :=
    pairLoop_spec hItems hLines output.data startItem itemCount m 0
  obtain ⟨m₂, hRest, hFilled₂, hSame₂⟩ :=
    leftoverLoop_spec hItems output.data startItem (itemCount - stop) m₁ stop
  rw [show stop + (itemCount - stop) = itemCount by omega] at hFilled₂ hSame₂
  refine ⟨m₂, ?_, fun k _ hk => ?_, ?_⟩
  · rw [initializeDataset, hValid, if_neg (by simp), if_neg hCount, if_neg (by omega),
      if_neg hLines, hPairs]
    simp only [Option.bind_eq_bind, Option.bind_some, hRest]
  · by_cases hk' : k < stop
    · -- a slot of the vector loop, which the leftover loop leaves alone
      obtain ⟨item, hItem, hSlot⟩ := hFilled₁ k (Nat.zero_le k) hk'
      exact ⟨item, hItem, hSame₂.slot hSlot (by omega)⟩
    · exact hFilled₂ k (by omega) hk
  · exact hSame₁.trans hSame₂ (by omega) (by omega)

end Loops

/-! ## Splits -/

/-- One of several calls on consecutive ranges: its items and the size of the
span it is given. -/
structure Part where
  itemCount : Nat
  bytes : Nat

/-- The calls, each at the slot of its first item. -/
def initializeParts (cache : Argon2dCache) :
    List Part → ByteStore → Nat → Nat → Except String ByteStore
  | [], m, _, _ => .ok m
  | part :: parts, m, data, startItem => do
    let m ← initializeDataset m ⟨data, part.bytes⟩ cache startItem part.itemCount
    initializeParts cache parts m (data + 64 * part.itemCount) (startItem + part.itemCount)

/-- The items of all parts. -/
def totalItems (parts : List Part) : Nat := (parts.map Part.itemCount).sum

theorem initializeParts_slots {cache : Argon2dCache}
    (hItems : ∀ n, (generateDatasetItem cache n).isSome) (hLines : cache.lineCount ≠ 0)
    {parts : List Part} (hSizes : ∀ part ∈ parts, datasetOutputBytes part.itemCount ≤ part.bytes)
    (m : ByteStore) (data startItem : Nat)
    (hValid : datasetRangeIsValid startItem (totalItems parts)) :
    ∃ m', initializeParts cache parts m data startItem = .ok m' ∧
      Filled cache m' data startItem 0 (totalItems parts) ∧
      SameOutside m m' data (data + 64 * totalItems parts) := by
  induction parts generalizing m data startItem with
  | nil => exact ⟨m, rfl, fun k _ hk => absurd hk (Nat.not_lt_zero k), fun _ _ => rfl⟩
  | cons part parts ih =>
    rw [List.forall_mem_cons] at hSizes
    have hTotal : totalItems (part :: parts) = part.itemCount + totalItems parts := by
      simp [totalItems]
    rw [hTotal] at hValid ⊢
    simp only [datasetRangeIsValid, Bool.and_eq_true, decide_eq_true_eq] at hValid
    obtain ⟨m₁, hCall, hFilled₁, hSame₁⟩ :=
      @initializeDataset_slots cache hItems hLines m ⟨data, part.bytes⟩ startItem part.itemCount
        (by simp [datasetRangeIsValid]; omega) hSizes.1
    obtain ⟨m₂, hRest, hFilled₂, hSame₂⟩ :=
      ih hSizes.2 m₁ (data + 64 * part.itemCount) (startItem + part.itemCount)
        (by simp [datasetRangeIsValid]; omega)
    refine ⟨m₂, ?_, fun k _ hk => ?_, ?_⟩
    · rw [initializeParts, hCall]
      exact hRest
    · by_cases hk' : k < part.itemCount
      · obtain ⟨item, hItem, hSlot⟩ := hFilled₁ k (Nat.zero_le k) hk'
        exact ⟨item, hItem, hSame₂.slot hSlot (by omega)⟩
      · obtain ⟨item, hItem, hSlot⟩ := hFilled₂ (k - part.itemCount) (by omega) (by omega)
        rw [show startItem + part.itemCount + (k - part.itemCount) = startItem + k by omega] at hItem
        rw [show data + 64 * part.itemCount + 64 * (k - part.itemCount) = data + 64 * k by omega]
          at hSlot
        exact ⟨item, hItem, hSlot⟩
    · rw [show data + 64 * part.itemCount + 64 * totalItems parts =
        data + 64 * (part.itemCount + totalItems parts) by omega] at hSame₂
      exact hSame₁.trans hSame₂ (by dsimp only; omega) (by dsimp only; omega)

/-- **Dataset generation.** For a cache initialised from any eight programs with
opcodes of the fourteen kinds: however a valid range is split into consecutive
calls, each slot gets the item `generate_dataset_item` returns for it and no
other byte changes. The programs with indices compute what the generated ones
compute with their divisors. -/
theorem dataset_generation (bytes : ByteStore) {memoryBlocks : Nat} (hBlocks : 0 < memoryBlocks)
    {programs : Fin kRandomXCacheAccesses → SuperscalarProgram}
    (hTyped : ∀ i, (programs i).Typed) :
    let cache := Argon2dCache.initialized bytes memoryBlocks programs
    (∀ (parts : List Part) (m : ByteStore) (data startItem : Nat),
      datasetRangeIsValid startItem (totalItems parts) →
      (∀ part ∈ parts, datasetOutputBytes part.itemCount ≤ part.bytes) →
      ∃ m', initializeParts cache parts m data startItem = .ok m' ∧
        (∀ k < totalItems parts, ∃ item,
          generateDatasetItem cache (BitVec.ofNat 64 (startItem + k)) = some item ∧
          ∀ j < 64, m' (data + 64 * k + j) = itemByte item j) ∧
        ∀ x, x < data ∨ data + 64 * totalItems parts ≤ x → m' x = m x) ∧
    ∀ (i : Fin kRandomXCacheAccesses) (r : DatasetRegisters),
      executeSuperscalar cache.reciprocalCache (cache.programs i).instructions r =
        executeSuperscalarDivisor (programs i).instructions r := by
  intro cache
  have hLines : cache.lineCount ≠ 0 := by
    simp only [cache, Argon2dCache.lineCount, Argon2dCache.initialized]
    omega
  refine ⟨fun parts m data startItem hValid hSizes => ?_, fun i r => ?_⟩
  · obtain ⟨m', hRun, hFilled, hSame⟩ := initializeParts_slots
      (fun n => generateDatasetItem_isSome hBlocks hTyped n) hLines hSizes m data startItem hValid
    exact ⟨m', hRun, fun k hk => hFilled k (Nat.zero_le k) hk, hSame⟩
  · exact indexPrograms_execute bytes memoryBlocks programs i r

/-- A program that divides by three and multiplies two registers. -/
def sampleProgram : SuperscalarProgram where
  instructions :=
    [{ opcode := 13, dst := 1, src := 1, mod := 0, imm32 := 3 },
      { opcode := 3, dst := 2, src := 1, mod := 0, imm32 := 0 }]
  addressRegister := 2
  size_le := by decide
  registers := by decide

/-- Five items from item 7 on, in a call of three and a call of two. -/
theorem dataset_generation_five :
    let cache := Argon2dCache.initialized (fun _ => 0) 8 fun _ => sampleProgram
    ∃ m', initializeParts cache [⟨3, 192⟩, ⟨2, 4096⟩] (fun _ => 0) 4096 7 = .ok m' ∧
      (∃ item, generateDatasetItem cache 11 = some item ∧
        ∀ j < 64, m' (4352 + j) = itemByte item j) ∧ m' 4416 = 0 := by
  have hTyped : ∀ i : Fin kRandomXCacheAccesses, sampleProgram.Typed := fun _ => by
    simp only [SuperscalarProgram.Typed]
    decide
  intro cache
  obtain ⟨m', hRun, hSlots, hSame⟩ := (dataset_generation (fun _ => 0) (show 0 < 8 by decide) hTyped).1
    [⟨3, 192⟩, ⟨2, 4096⟩] (fun _ => 0) 4096 7 (by decide) (by decide)
  exact ⟨m', hRun, hSlots 4 (by decide), hSame 4416 (by decide)⟩

end ArmRx.Vm
