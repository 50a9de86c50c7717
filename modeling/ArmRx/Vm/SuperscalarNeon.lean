import ArmRx.Lib.Neon
import ArmRx.Vm.Superscalar

/-!
# Two items at a time

Embeds `execute_superscalar_neon` (`src/superscalar.cpp`) and the vector loop of
`initialize_dataset` (`src/dataset.cpp`). A vector register holds the same
register of two items, so the registers of a pair are two register files laid
side by side (`interleave`), and a step of the vector code is two scalar steps.

* `executeSuperscalarNeon_interleave` — a program, by induction over it.
* `datasetPair_eq` — the vector registers after the eight rounds are those of
  `generate_dataset_item` for the two items.
-/

namespace ArmRx.Vm

open ArmRx.Lib

/-! ## Vector registers -/

/-- The registers of two items. -/
abbrev PairRegisters : Type := Fin 8 → U64x2

/-! ## `execute_superscalar_neon` -/

/-- What an instruction makes of `vr[dst]` and `vr[src]`. Multiplications,
rotations and the high halves take the lanes out one by one. -/
def superscalarOpNeon (reciprocals : List (BitVec 64)) (instr : Instruction) :
    Option (U64x2 → U64x2 → U64x2) := do
  let type ← instr.superscalarType
  match type with
  | .isubR => some fun dst src => vsubqU64 dst src
  | .ixorR => some fun dst src => veorqU64 dst src
  | .iaddRs =>
    some fun dst src =>
      let shifted :=
        match instr.getModShift with
        | 0 => src
        | 1 => vshlqNU64 src 1
        | 2 => vshlqNU64 src 2
        | _ => vshlqNU64 src 3
      vaddqU64 dst shifted
  | .imulR => some fun dst src => vcombineU64 (dst 0 * src 0) (dst 1 * src 1)
  | .irorC =>
    some fun dst _ =>
      vcombineU64 (rotr (dst 0) (instr.imm32.toNat % 64)) (rotr (dst 1) (instr.imm32.toNat % 64))
  | .iaddC7 | .iaddC8 | .iaddC9 =>
    some fun dst _ => vaddqU64 dst (vmovqNU64 (signExtend2sCompl instr.imm32))
  | .ixorC7 | .ixorC8 | .ixorC9 =>
    some fun dst _ => veorqU64 dst (vmovqNU64 (signExtend2sCompl instr.imm32))
  | .imulhR => some fun dst src => vcombineU64 (mulh (dst 0) (src 0)) (mulh (dst 1) (src 1))
  | .ismulhR => some fun dst src => vcombineU64 (smulh (dst 0) (src 0)) (smulh (dst 1) (src 1))
  | .imulRcp =>
    let rcp ← reciprocals[instr.imm32.toNat]?
    some fun dst _ => vcombineU64 (dst 0 * rcp) (dst 1 * rcp)

/-- One iteration of `execute_superscalar_neon`. -/
def superscalarStepNeon (reciprocals : List (BitVec 64)) (vr : PairRegisters)
    (instr : Instruction) : Option PairRegisters := do
  let op ← superscalarOpNeon reciprocals instr
  some (Function.update vr (regOf instr.dst) (op (vr (regOf instr.dst)) (vr (regOf instr.src))))

/-- `execute_superscalar_neon`. -/
def executeSuperscalarNeon (reciprocals : List (BitVec 64)) (instructions : List Instruction)
    (vr : PairRegisters) : Option PairRegisters :=
  instructions.foldlM (superscalarStepNeon reciprocals) vr

/-! ## Lanes -/

/-- Two register files side by side. -/
def interleave (r0 r1 : DatasetRegisters) : PairRegisters := fun q => vcombineU64 (r0 q) (r1 q)

theorem interleave_update (r0 r1 : DatasetRegisters) (d : Fin 8) (a b : BitVec 64) :
    Function.update (interleave r0 r1) d (vcombineU64 a b) =
      interleave (Function.update r0 d a) (Function.update r1 d b) := by
  funext q
  by_cases hq : q = d
  · subst hq
    simp [interleave]
  · simp [interleave, hq]

/-- The vector operation is the scalar one in each lane. -/
theorem superscalarOpNeon_eq (reciprocals : List (BitVec 64)) (instr : Instruction) :
    superscalarOpNeon reciprocals instr =
      (superscalarOp reciprocals instr).map fun op dst src =>
        vcombineU64 (op (dst 0) (src 0)) (op (dst 1) (src 1)) := by
  unfold superscalarOpNeon superscalarOp
  cases hType : instr.superscalarType with
  | none => rfl
  | some type =>
    have hShift := instr.getModShift_lt
    cases type with
    | iaddRs =>
      simp only [Option.bind_eq_bind, Option.bind_some, Option.map_some, Option.some.injEq]
      funext dst src
      -- the four constants of the `switch` are the four values of the shift
      generalize instr.getModShift = shift at hShift
      interval_cases shift <;> exact vcombineU64_congr (by simp [vaddqU64, vshlqNU64])
        (by simp [vaddqU64, vshlqNU64])
    | imulRcp =>
      simp only [Option.bind_eq_bind, Option.bind_some]
      cases reciprocals[instr.imm32.toNat]? <;> rfl
    | imulR | irorC | imulhR | ismulhR => rfl
    | isubR | ixorR | iaddC7 | iaddC8 | iaddC9 | ixorC7 | ixorC8 | ixorC9 =>
      simp only [Option.bind_eq_bind, Option.bind_some, Option.map_some, Option.some.injEq]
      funext dst src
      exact vcombineU64_congr rfl rfl

/-- One instruction. -/
theorem superscalarStepNeon_interleave (reciprocals : List (BitVec 64)) (instr : Instruction)
    (r0 r1 : DatasetRegisters) :
    superscalarStepNeon reciprocals (interleave r0 r1) instr =
      Option.map₂ interleave (superscalarStep reciprocals r0 instr)
        (superscalarStep reciprocals r1 instr) := by
  unfold superscalarStepNeon superscalarStep
  rw [superscalarOpNeon_eq]
  cases superscalarOp reciprocals instr with
  | none => rfl
  | some op => exact congrArg some (interleave_update r0 r1 _ _ _)

/-- Two folds over one list, side by side; one of them may fail before the other. -/
theorem foldlM_map₂ {α β γ δ : Type} {f : α → δ → Option α} {g : β → δ → Option β}
    {h : γ → δ → Option γ} {pair : α → β → γ}
    (hStep : ∀ a b x, h (pair a b) x = Option.map₂ pair (f a x) (g b x))
    (xs : List δ) (a : α) (b : β) :
    xs.foldlM h (pair a b) = Option.map₂ pair (xs.foldlM f a) (xs.foldlM g b) := by
  induction xs generalizing a b with
  | nil => rfl
  | cons x xs ih =>
    rw [List.foldlM_cons, List.foldlM_cons, List.foldlM_cons, hStep]
    cases f a x with
    | none => rfl
    | some a' =>
      cases g b x with
      | none => simp
      | some b' => exact ih a' b'

/-- A whole program. -/
theorem executeSuperscalarNeon_interleave (reciprocals : List (BitVec 64))
    (instructions : List Instruction) (r0 r1 : DatasetRegisters) :
    executeSuperscalarNeon reciprocals instructions (interleave r0 r1) =
      Option.map₂ interleave (executeSuperscalar reciprocals instructions r0)
        (executeSuperscalar reciprocals instructions r1) :=
  foldlM_map₂ (fun r0 r1 instr => superscalarStepNeon_interleave reciprocals instr r0 r1)
    instructions r0 r1

/-! ## A pair of dataset items -/

/-- The state of the inner loop: `vr`, `reg_val0` and `reg_val1`. -/
structure PairState where
  vr : PairRegisters
  regVal0 : BitVec 64
  regVal1 : BitVec 64

/-- One round of the inner loop: both lines are loaded, the program runs on both
items, and each lane gives the next line of its own item. -/
def pairRound (cache : Argon2dCache) (s : PairState) (program : SuperscalarProgram) :
    Option PairState := do
  let line0 := cache.loadCacheLine (s.regVal0.toNat % cache.lineCount)
  let line1 := cache.loadCacheLine (s.regVal1.toNat % cache.lineCount)
  let vr ← executeSuperscalarNeon cache.reciprocalCache program.instructions s.vr
  let vr : PairRegisters := fun q => veorqU64 (vr q) (vcombineU64 (line0 q) (line1 q))
  some ⟨vr, vr program.addressRegister 0, vr program.addressRegister 1⟩

/-- The vector registers at the end of the rounds. -/
def datasetPair (cache : Argon2dCache) (item0 item1 : BitVec 64) : Option PairRegisters := do
  let rl0 := datasetSeedRegisters item0
  let rl1 := datasetSeedRegisters item1
  let vr : PairRegisters := fun q => vcombineU64 (rl0 q) (rl1 q)
  let s ← (List.ofFn cache.programs).foldlM (pairRound cache) ⟨vr, item0, item1⟩
  some s.vr

/-- The states of two items side by side. -/
def PairState.ofItems (s0 s1 : DatasetRegisters × BitVec 64) : PairState :=
  ⟨interleave s0.1 s1.1, s0.2, s1.2⟩

theorem pairRound_ofItems (cache : Argon2dCache) (s0 s1 : DatasetRegisters × BitVec 64)
    (program : SuperscalarProgram) :
    pairRound cache (.ofItems s0 s1) program =
      Option.map₂ PairState.ofItems (datasetRound cache s0 program)
        (datasetRound cache s1 program) := by
  unfold pairRound datasetRound PairState.ofItems
  dsimp only
  rw [executeSuperscalarNeon_interleave]
  cases executeSuperscalar cache.reciprocalCache program.instructions s0.1 with
  | none => rfl
  | some rl0 =>
    cases executeSuperscalar cache.reciprocalCache program.instructions s1.1 with
    | none => rfl
    | some rl1 =>
      have hXor (a b c d : BitVec 64) : veorqU64 (vcombineU64 a b) (vcombineU64 c d) =
          vcombineU64 (a ^^^ c) (b ^^^ d) := vcombineU64_congr rfl rfl
      simp only [Option.map₂_some_some, Option.bind_eq_bind, Option.bind_some, interleave, hXor]
      rfl

theorem generateDatasetItem_eq (cache : Argon2dCache) (hLines : cache.lineCount ≠ 0)
    (item : BitVec 64) :
    generateDatasetItem cache item =
      ((List.ofFn cache.programs).foldlM (datasetRound cache)
        (datasetSeedRegisters item, item)).map Prod.fst := by
  unfold generateDatasetItem
  rw [if_neg hLines]
  cases (List.ofFn cache.programs).foldlM (datasetRound cache) (datasetSeedRegisters item, item)
    <;> rfl

/-- **A pair is two items.** Neither lane sees the other: the vector loop fails
or succeeds with the scalar one and leaves its registers. -/
theorem datasetPair_eq (cache : Argon2dCache) (hLines : cache.lineCount ≠ 0)
    (item0 item1 : BitVec 64) :
    datasetPair cache item0 item1 =
      Option.map₂ interleave (generateDatasetItem cache item0)
        (generateDatasetItem cache item1) := by
  rw [generateDatasetItem_eq cache hLines, generateDatasetItem_eq cache hLines]
  have hRounds : (List.ofFn cache.programs).foldlM (pairRound cache)
      ⟨interleave (datasetSeedRegisters item0) (datasetSeedRegisters item1), item0, item1⟩ = _ :=
    foldlM_map₂ (pairRound_ofItems cache) (List.ofFn cache.programs)
      (datasetSeedRegisters item0, item0) (datasetSeedRegisters item1, item1)
  calc datasetPair cache item0 item1
      = ((List.ofFn cache.programs).foldlM (pairRound cache)
          ⟨interleave (datasetSeedRegisters item0) (datasetSeedRegisters item1), item0,
            item1⟩).bind fun s => some s.vr := rfl
    _ = Option.map₂ interleave _ _ := by
      rw [hRounds]
      cases (List.ofFn cache.programs).foldlM (datasetRound cache)
          (datasetSeedRegisters item0, item0) with
      | none => rfl
      | some s0 =>
        cases (List.ofFn cache.programs).foldlM (datasetRound cache)
            (datasetSeedRegisters item1, item1) <;> rfl

end ArmRx.Vm
