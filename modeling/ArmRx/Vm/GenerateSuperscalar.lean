import ArmRx.Vm.InitializeDataset
import ArmRx.Vm.SuperscalarInfo

/-!
# The superscalar generator

Embeds `scheduleUop`, `scheduleMop` and `generate_superscalar` of
`src/superscalar.cpp`. Every array access is checked against the bounds of its array,
and so is every booking of a port against the port being free, so that a generation
that ends in a program has made none outside them.

The loops are bounded by the number of rounds they are shown never to use up. An
instruction may be half built at the end of a decode buffer: the invariant says which
of its registers are chosen at which macro-operation, and that there is room for it.

* `macroOpRound_ends` — one pass of the inner loop keeps the invariant.
* `generateSuperscalar_wellFormed` — every generation.
-/

namespace ArmRx.Vm

open ArmRx.Lib

variable {γ : Type}

/-! ## Ports -/

/-- `CYCLE_MAP_SIZE`. -/
def cycleMapSize : Nat := kSuperscalarLatency + 4

/-- `LOOK_FORWARD_CYCLES`. -/
def lookForwardCycles : Nat := 4

/-- `MAX_THROWAWAY_COUNT`. -/
def maxThrowawayCount : Nat := 256

/-- `portBusy`. The second index is 0, 1, 2 for the ports 0, 1 and 5. -/
abbrev PortMap : Type := Nat → Fin 3 → ExecutionPort.Ports

/-- `!portBusy[cycle][port]`. -/
def isFree (portBusy : PortMap) (cycle : Nat) (port : Fin 3) : Except Stop Bool :=
  if cycle < cycleMapSize then .ok (portBusy cycle port = ExecutionPort.null)
  else .error .index

/-- `portBusy[cycle][port] = uop`. -/
def bookPort (portBusy : PortMap) (cycle : Nat) (port : Fin 3) (uop : ExecutionPort.Ports) :
    Except Stop PortMap :=
  if cycleMapSize ≤ cycle then .error .index
  else if portBusy cycle port ≠ ExecutionPort.null then .error .booked
  else .ok (Function.update portBusy cycle (Function.update (portBusy cycle) port uop))

/-- One `if` of `scheduleUop`: the port is one of the operation's and free. -/
def tryPort (commit : Bool) (uop mask : ExecutionPort.Ports) (port : Fin 3) (portBusy : PortMap)
    (cycle : Nat) : Except Stop (Option PortMap) := do
  if uop &&& mask = ExecutionPort.null then return none
  if !(← isFree portBusy cycle port) then return none
  if commit then return some (← bookPort portBusy cycle port uop)
  return some portBusy

/-- `scheduleUop`: the cycle it returns, with the port map it leaves. -/
def scheduleUop (commit : Bool) (uop : ExecutionPort.Ports) (portBusy : PortMap) (cycle : Nat) :
    Except Stop (Option Nat × PortMap) :=
  if cycle < cycleMapSize then do
    if let some portBusy ← tryPort commit uop ExecutionPort.p5 2 portBusy cycle then
      return (some cycle, portBusy)
    if let some portBusy ← tryPort commit uop ExecutionPort.p0 0 portBusy cycle then
      return (some cycle, portBusy)
    if let some portBusy ← tryPort commit uop ExecutionPort.p1 1 portBusy cycle then
      return (some cycle, portBusy)
    scheduleUop commit uop portBusy (cycle + 1)
  else .ok (none, portBusy)
termination_by cycleMapSize - cycle

/-- The loop of `scheduleMop` for two micro-operations, which must find their ports in
the same cycle. -/
def schedulePair (commit : Bool) (mop : MacroOp) (portBusy : PortMap) (cycle : Nat) :
    Except Stop (Option Nat × PortMap) :=
  if cycle < cycleMapSize then do
    let (cycle1, _) ← scheduleUop false mop.uop1 portBusy cycle
    let (cycle2, _) ← scheduleUop false mop.uop2 portBusy cycle
    if cycle1.isSome ∧ cycle1 = cycle2 then
      if commit then
        let (_, portBusy) ← scheduleUop true mop.uop1 portBusy (cycle1.getD 0)
        let (_, portBusy) ← scheduleUop true mop.uop2 portBusy (cycle2.getD 0)
        return (cycle1, portBusy)
      return (cycle1, portBusy)
    schedulePair commit mop portBusy (cycle + 1)
  else .ok (none, portBusy)
termination_by cycleMapSize - cycle

/-- `scheduleMop`. -/
def scheduleMop (commit : Bool) (mop : MacroOp) (portBusy : PortMap) (cycle depCycle : Nat) :
    Except Stop (Option Nat × PortMap) :=
  let cycle := if mop.dependent then max cycle depCycle else cycle
  if mop.isEliminated then .ok (some cycle, portBusy)
  else if mop.isSimple then scheduleUop commit mop.uop1 portBusy cycle
  else schedulePair commit mop portBusy cycle

/-! ## The loops -/

/-- The variables of `generate_superscalar`; `programSize` is the length of the
program. -/
structure GeneratorState (γ : Type) where
  gen : γ
  portBusy : PortMap
  registers : Fin 8 → RegisterInfo
  current : SuperscalarInstruction
  macroOpIndex : Nat
  cycle : Nat
  depCycle : Nat
  portsSaturated : Bool
  program : List Instruction
  mulCount : Nat
  throwAwayCount : Nat

/-- Their first values. -/
def GeneratorState.start (g : γ) : GeneratorState γ where
  gen := g
  portBusy := fun _ _ => ExecutionPort.null
  registers := fun _ => {}
  current := .null
  macroOpIndex := 0
  cycle := 0
  depCycle := 0
  portsSaturated := false
  program := []
  mulCount := 0
  throwAwayCount := 0

/-- What the choice of registers comes to. -/
inductive Selection (γ : Type) where
  | selected (scheduleCycle : Nat) (s : GeneratorState γ)
  | failed (s : GeneratorState γ)

/-- The loop over `forward`, with the rounds that are left. -/
def lookForward (select : Nat → GeneratorState γ → Option (SuperscalarInstruction × γ)) :
    Nat → Nat → GeneratorState γ → Selection γ
  | 0, _, s => .failed s
  | forward + 1, scheduleCycle, s =>
    match select scheduleCycle s with
    | some (current, g) => .selected scheduleCycle { s with current := current, gen := g }
    | none => lookForward select forward (scheduleCycle + 1) { s with cycle := s.cycle + 1 }

/-- The block of the source macro-operation. -/
def sourceStage (gen : Generator γ) (scheduleCycle : Nat) (s : GeneratorState γ) : Selection γ :=
  if s.current.info.srcOp = some s.macroOpIndex then
    lookForward (fun cycle s => s.current.selectSource gen cycle s.registers s.gen)
      lookForwardCycles scheduleCycle s
  else .selected scheduleCycle s

/-- The block of the destination macro-operation. -/
def destinationStage (gen : Generator γ) (scheduleCycle : Nat) (s : GeneratorState γ) :
    Selection γ :=
  if s.current.info.dstOp = s.macroOpIndex then
    lookForward (fun cycle s =>
        s.current.selectDestination gen cycle (s.throwAwayCount > 0) s.registers s.gen)
      lookForwardCycles scheduleCycle s
  else .selected scheduleCycle s

/-- Both blocks. -/
def selectRegisters (gen : Generator γ) (scheduleCycle : Nat) (s : GeneratorState γ) :
    Selection γ :=
  match sourceStage gen scheduleCycle s with
  | .failed s => .failed s
  | .selected scheduleCycle s => destinationStage gen scheduleCycle s

/-- `isMultiplication`. -/
def isMultiplication (type : Option SuperscalarInstructionType) : Bool :=
  type = some .imulR || type = some .imulhR || type = some .ismulhR || type = some .imulRcp

/-- The registers after the result macro-operation. -/
def recordResult (s : GeneratorState γ) (depCycle : Nat) :
    Except Stop (Fin 8 → RegisterInfo) :=
  if s.macroOpIndex = s.current.info.resultOp then
    match s.current.dst with
    | none => .error .index
    | some dst => .ok (Function.update s.registers dst
        ⟨depCycle, s.current.opGroup, s.current.opGroupPar⟩)
  else .ok s.registers

/-- `prog(programSize++)`, once the last macro-operation is through. -/
def emitInstruction (s : GeneratorState γ) : Except Stop (GeneratorState γ) :=
  if s.current.info.ops.length ≤ s.macroOpIndex then
    if s.program.length < kSuperscalarMaxSize then
      .ok { s with
        program := s.program ++ [s.current.toInstr]
        mulCount := s.mulCount + if isMultiplication s.current.info.type then 1 else 0 }
    else .error .index
  else .ok s

/-- The rest of the pass, from `throwAwayCount = 0` on. -/
def commitMop (mop : MacroOp) (topCycle bufferIndex scheduleCycle : Nat) (s : GeneratorState γ) :
    Except Stop (Round (GeneratorState γ × Nat) (GeneratorState γ)) := do
  let (scheduled, portBusy) ← scheduleMop true mop s.portBusy scheduleCycle scheduleCycle
  let s := { s with throwAwayCount := 0, portBusy := portBusy }
  match scheduled with
  | none => return .done { s with portsSaturated := true }
  | some scheduleCycle =>
    let depCycle := scheduleCycle + mop.latency
    let registers ← recordResult s depCycle
    let s ← emitInstruction { s with
      depCycle := depCycle
      registers := registers
      macroOpIndex := s.macroOpIndex + 1
      portsSaturated := s.portsSaturated || kSuperscalarLatency ≤ scheduleCycle
      cycle := topCycle }
    return .again (s, bufferIndex + 1)

/-- The macro-operation at `macroOpIndex`: scheduled, given its registers, booked. -/
def scheduleCurrent (gen : Generator γ) (topCycle bufferIndex : Nat) (s : GeneratorState γ) :
    Except Stop (Round (GeneratorState γ × Nat) (GeneratorState γ)) := do
  match s.current.info.ops[s.macroOpIndex]? with
  | none => throw .index
  | some mop =>
    let (scheduled, _) ← scheduleMop false mop s.portBusy s.cycle s.depCycle
    match scheduled with
    | none => return .done { s with portsSaturated := true }
    | some scheduleCycle =>
      match selectRegisters gen scheduleCycle s with
      | .selected scheduleCycle s => commitMop mop topCycle bufferIndex scheduleCycle s
      | .failed s =>
        if s.throwAwayCount < maxThrowawayCount then
          return .again ({ s with
            throwAwayCount := s.throwAwayCount + 1
            macroOpIndex := s.current.info.ops.length }, bufferIndex)
        else return .done { s with current := .null }

/-- A pass of the loop over `bufferIndex`. -/
def macroOpRound (gen : Generator γ) (draws : γ → Nat) (decodeBuffer : DecoderBuffer)
    (p : GeneratorState γ × Nat) :
    Except Stop (Round (GeneratorState γ × Nat) (GeneratorState γ)) := do
  let (s, bufferIndex) := p
  if decodeBuffer.counts.length ≤ bufferIndex then return .done s
  let topCycle := s.cycle
  if s.current.info.ops.length ≤ s.macroOpIndex then
    if s.portsSaturated ∨ kSuperscalarMaxSize ≤ s.program.length then return .done s
    match decodeBuffer.counts[bufferIndex]? with
    | none => throw .index
    | some slotSize =>
      let (current, g) ← s.current.createForSlot gen draws slotSize decodeBuffer.index
        (decodeBuffer.counts.length = bufferIndex + 1) s.gen
      scheduleCurrent gen topCycle bufferIndex
        { s with current := current, gen := g, macroOpIndex := 0 }
  else scheduleCurrent gen topCycle bufferIndex s

/-- Enough rounds for a decode buffer: between two passes that advance it, at most
`maxThrowawayCount` instructions are thrown away. -/
def bufferRounds (decodeBuffer : DecoderBuffer) : Nat :=
  (decodeBuffer.counts.length + 1) * (maxThrowawayCount + 1)

/-- A pass of the loop over `decodeCycle`. -/
def decodeRound (gen : Generator γ) (draws : γ → Nat) (p : GeneratorState γ × Nat) :
    Except Stop (Round (GeneratorState γ × Nat) (GeneratorState γ)) := do
  let (s, decodeCycle) := p
  if decodeCycle < kSuperscalarLatency ∧ !s.portsSaturated ∧
      s.program.length < kSuperscalarMaxSize then
    let (decodeBuffer, g) := fetchNext gen s.current.info.type decodeCycle s.mulCount s.gen
    let s ← loop .stuck (macroOpRound gen draws decodeBuffer) (bufferRounds decodeBuffer)
      ({ s with gen := g }, 0)
    return .again ({ s with cycle := s.cycle + 1 }, decodeCycle + 1)
  else return .done s

/-- `asic_latencies[reg]`, for a register byte of an instruction. -/
def latencyAt (latencies : Fin 8 → Nat) (reg : BitVec 8) : Except Stop Nat :=
  if h : reg.toNat < 8 then .ok (latencies ⟨reg.toNat, h⟩) else .error .index

/-- A pass of the loop over `asic_latencies`. -/
def asicStep (latencies : Fin 8 → Nat) (instr : Instruction) : Except Stop (Fin 8 → Nat) := do
  let atDst ← latencyAt latencies instr.dst
  let atSrc ← latencyAt latencies instr.src
  let latDst := atDst + 1
  let latSrc := if instr.dst ≠ instr.src then atSrc + 1 else 0
  return Function.update latencies (regOf instr.dst) (max latDst latSrc)

/-- The loop over `asic_latencies`. -/
def asicLatencies (program : List Instruction) : Except Stop (Fin 8 → Nat) :=
  program.foldlM asicStep fun _ => 0

/-- The last loop: the first register of greatest latency. -/
def addressReg (latencies : Fin 8 → Nat) : Fin 8 :=
  ((List.finRange 8).foldl (fun (best : Nat × Fin 8) i =>
    if best.1 < latencies i then (latencies i, i) else best) (0, 0)).2

/-- `generate_superscalar`: the instructions and the address register. -/
def generateSuperscalar (gen : Generator γ) (draws : γ → Nat) (g : γ) :
    Except Stop ((List Instruction × Fin 8) × γ) := do
  let s ← loop .stuck (decodeRound gen draws) (kSuperscalarLatency + 1) (.start g, 0)
  let latencies ← asicLatencies s.program
  return ((s.program, addressReg latencies), s.gen)

/-! ## Scheduling has no faults -/

section Scheduling

variable {E : Stop → Prop}

theorem tryPort_ends (commit : Bool) (uop mask : ExecutionPort.Ports) (port : Fin 3)
    (portBusy : PortMap) {cycle : Nat} (hCycle : cycle < cycleMapSize) :
    Ends E (fun _ => True) (tryPort commit uop mask port portBusy cycle) := by
  unfold tryPort isFree
  rw [if_pos hCycle]
  split
  · trivial
  by_cases hFree : portBusy cycle port = ExecutionPort.null
  · -- the port that is booked is the one that has just been found free
    have hBook : bookPort portBusy cycle port uop =
        .ok (Function.update portBusy cycle (Function.update (portBusy cycle) port uop)) := by
      rw [bookPort, if_neg (by omega), if_neg (not_not.mpr hFree)]
    cases commit <;> simp [hFree, hBook, bind, Except.bind, pure, Except.pure, Ends]
  · simp [hFree, bind, Except.bind, pure, Except.pure, Ends]

theorem scheduleUop_ends (commit : Bool) (uop : ExecutionPort.Ports) (portBusy : PortMap)
    (cycle : Nat) : Ends E (fun _ => True) (scheduleUop commit uop portBusy cycle) := by
  induction h : cycleMapSize - cycle generalizing cycle portBusy with
  | zero =>
    unfold scheduleUop
    rw [if_neg (by omega)]
    trivial
  | succ n ih =>
    have hCycle : cycle < cycleMapSize := by omega
    unfold scheduleUop
    rw [if_pos hCycle]
    refine (tryPort_ends commit uop _ 2 portBusy hCycle).bind fun booked _ => ?_
    cases booked with
    | some _ => trivial
    | none =>
      refine (tryPort_ends commit uop _ 0 portBusy hCycle).bind fun booked _ => ?_
      cases booked with
      | some _ => trivial
      | none =>
        refine (tryPort_ends commit uop _ 1 portBusy hCycle).bind fun booked _ => ?_
        cases booked with
        | some _ => trivial
        | none => exact ih portBusy (cycle + 1) (by omega)

theorem schedulePair_ends (commit : Bool) (mop : MacroOp) (portBusy : PortMap) (cycle : Nat) :
    Ends E (fun _ => True) (schedulePair commit mop portBusy cycle) := by
  induction h : cycleMapSize - cycle generalizing cycle with
  | zero =>
    unfold schedulePair
    rw [if_neg (by omega)]
    trivial
  | succ n ih =>
    unfold schedulePair
    rw [if_pos (by omega)]
    refine (scheduleUop_ends false mop.uop1 portBusy cycle).bind fun p₁ _ => ?_
    refine (scheduleUop_ends false mop.uop2 portBusy cycle).bind fun p₂ _ => ?_
    dsimp only
    split
    · split
      · refine (scheduleUop_ends true mop.uop1 portBusy _).bind fun q₁ _ => ?_
        exact (scheduleUop_ends true mop.uop2 q₁.2 _).bind fun q₂ _ => trivial
      · trivial
    · exact ih (cycle + 1) (by omega)

/-- `scheduleMop` returns, within the port map and without booking a port twice. -/
theorem scheduleMop_ends (commit : Bool) (mop : MacroOp) (portBusy : PortMap)
    (cycle depCycle : Nat) :
    Ends E (fun _ => True) (scheduleMop commit mop portBusy cycle depCycle) := by
  unfold scheduleMop
  dsimp only
  split
  · trivial
  · split
    · exact scheduleUop_ends commit _ portBusy _
    · exact schedulePair_ends commit mop portBusy _

end Scheduling

/-! ## Choosing the registers -/

variable {gen : Generator γ} {K : γ → Prop}

/-- A choice that has changed the generator, the cycle and the instruction only, and
if it is made, made an instruction that meets `Q`. -/
def Selection.Meets (s : GeneratorState γ) (K : γ → Prop) (Q : SuperscalarInstruction → Prop) :
    Selection γ → Prop
  | .failed s' =>
    ∃ cycle current g, s' = { s with cycle := cycle, current := current, gen := g } ∧ K g
  | .selected _ s' =>
    ∃ cycle current g, s' = { s with cycle := cycle, current := current, gen := g } ∧ K g ∧
      Q current

theorem lookForward_meets {Q : SuperscalarInstruction → Prop}
    {select : Nat → GeneratorState γ → Option (SuperscalarInstruction × γ)} {s : GeneratorState γ}
    (hg : K s.gen)
    (hSelect : ∀ at' cycle current g, select at' { s with cycle := cycle } = some (current, g) →
      K g ∧ Q current) (forward scheduleCycle cycle : Nat) :
    (lookForward select forward scheduleCycle { s with cycle := cycle }).Meets s K Q := by
  induction forward generalizing scheduleCycle cycle with
  | zero => exact ⟨cycle, s.current, s.gen, rfl, hg⟩
  | succ forward ih =>
    unfold lookForward
    cases hFound : select scheduleCycle { s with cycle := cycle } with
    | some found =>
      exact ⟨cycle, found.1, found.2, rfl, hSelect scheduleCycle cycle found.1 found.2 hFound⟩
    | none => exact ih (scheduleCycle + 1) (cycle + 1)

theorem sourceStage_meets (hKeeps : gen.Keeps K) (scheduleCycle : Nat) {s : GeneratorState γ}
    (hg : K s.gen) {type : SuperscalarInstructionType}
    (h : Built s.macroOpIndex s.macroOpIndex type s.current) :
    (sourceStage gen scheduleCycle s).Meets s K
      (Built (s.macroOpIndex + 1) s.macroOpIndex type) := by
  unfold sourceStage
  split
  · rename_i hSrc
    refine lookForward_meets hg (fun _ _ current g hSelect => ?_) lookForwardCycles scheduleCycle
      s.cycle
    obtain ⟨hg', src, par, rfl⟩ := selectSource_spec hKeeps hg hSelect
    exact ⟨hg', h.selectSource hSrc src par⟩
  · rename_i hNot
    exact ⟨s.cycle, s.current, s.gen, rfl, hg, h.skipSource hNot⟩

theorem destinationStage_meets (hKeeps : gen.Keeps K) (scheduleCycle : Nat) {s : GeneratorState γ}
    (hg : K s.gen) {type : SuperscalarInstructionType}
    (h : Built (s.macroOpIndex + 1) s.macroOpIndex type s.current) :
    (destinationStage gen scheduleCycle s).Meets s K
      (Built (s.macroOpIndex + 1) (s.macroOpIndex + 1) type) := by
  unfold destinationStage
  split
  · refine lookForward_meets hg (fun _ _ current g hSelect => ?_) lookForwardCycles scheduleCycle
      s.cycle
    obtain ⟨hg', d, rfl, hReuse, hDisplacement⟩ := selectDestination_spec hKeeps hg hSelect
    exact ⟨hg', h.selectDestination hReuse hDisplacement⟩
  · rename_i hNot
    exact ⟨s.cycle, s.current, s.gen, rfl, hg, h.skipDestination hNot⟩

/-- Source first, destination second. -/
theorem selectRegisters_meets (hKeeps : gen.Keeps K) (scheduleCycle : Nat) {s : GeneratorState γ}
    (hg : K s.gen) {type : SuperscalarInstructionType}
    (h : Built s.macroOpIndex s.macroOpIndex type s.current) :
    (selectRegisters gen scheduleCycle s).Meets s K
      (Built (s.macroOpIndex + 1) (s.macroOpIndex + 1) type) := by
  unfold selectRegisters
  have hSource := sourceStage_meets hKeeps scheduleCycle hg h
  cases hStage : sourceStage gen scheduleCycle s with
  | failed s' =>
    rw [hStage] at hSource
    exact hSource
  | selected scheduleCycle' s' =>
    rw [hStage] at hSource
    obtain ⟨cycle, current, g, rfl, hg', hBuilt⟩ := hSource
    exact destinationStage_meets hKeeps scheduleCycle' (s := { s with
      cycle := cycle, current := current, gen := g }) hg' hBuilt

/-! ## The invariant -/

/-- Between two passes: a half-built instruction has the registers its
macro-operations have chosen, and room in the program. The generator has got to a
state that meets `K`. -/
structure GeneratorState.Inv (K : γ → Prop) (s : GeneratorState γ) : Prop where
  gen : K s.gen
  current : s.macroOpIndex < s.current.info.ops.length →
    (∃ type, Built s.macroOpIndex s.macroOpIndex type s.current) ∧
      s.program.length < kSuperscalarMaxSize
  size : s.program.length ≤ kSuperscalarMaxSize
  wellFormed : ∀ instr ∈ s.program, WellFormedInstruction instr
  thrown : s.throwAwayCount ≤ maxThrowawayCount

/-- What is left to do in a decode buffer. -/
def roundsLeft (decodeBuffer : DecoderBuffer) (p : GeneratorState γ × Nat) : Nat :=
  (decodeBuffer.counts.length - p.2) * (maxThrowawayCount + 1) +
    (maxThrowawayCount - p.1.throwAwayCount)

/-- What a pass over the decode buffer comes to. -/
def RoundOk (K : γ → Prop) (decodeBuffer : DecoderBuffer) (p : GeneratorState γ × Nat) :
    Round (GeneratorState γ × Nat) (GeneratorState γ) → Prop :=
  Round.Ok (GeneratorState.Inv K) fun q =>
    q.1.Inv K ∧ roundsLeft decodeBuffer q < roundsLeft decodeBuffer p

theorem Built.mono {n m : Nat} {type : SuperscalarInstructionType}
    {current : SuperscalarInstruction} (h : Built m m type current) (hLe : n ≤ m) :
    Built n n type current :=
  { h with
    source := fun k hSrc hk => h.source k hSrc (by omega)
    dest := fun hDst => h.dest (by omega) }

/-- A pass that schedules the macro-operation at `macroOpIndex`, whose registers are
chosen. -/
theorem commitMop_ends {E : Stop → Prop} {decodeBuffer : DecoderBuffer}
    {p : GeneratorState γ × Nat} (hIndex : p.2 < decodeBuffer.counts.length) (mop : MacroOp)
    (topCycle scheduleCycle : Nat) {s : GeneratorState γ} (hg : K s.gen)
    {type : SuperscalarInstructionType}
    (hBuilt : Built (s.macroOpIndex + 1) (s.macroOpIndex + 1) type s.current)
    (hRoom : s.program.length < kSuperscalarMaxSize)
    (hProgram : ∀ instr ∈ s.program, WellFormedInstruction instr) :
    Ends E (RoundOk K decodeBuffer p) (commitMop mop topCycle p.2 scheduleCycle s) := by
  unfold commitMop
  refine (scheduleMop_ends true mop s.portBusy scheduleCycle scheduleCycle).bind fun q _ => ?_
  obtain ⟨scheduled, portBusy⟩ := q
  cases scheduled with
  | none =>
    -- no free port: the generation stops with the instruction half built
    exact ⟨hg, fun _ => ⟨⟨type, hBuilt.mono (Nat.le_succ _)⟩, hRoom⟩, hRoom.le, hProgram,
      Nat.zero_le _⟩
  | some scheduleCycle =>
    have hResult : Ends E (fun _ => True)
        (recordResult { s with throwAwayCount := 0, portBusy := portBusy }
          (scheduleCycle + mop.latency)) := by
      unfold recordResult
      split
      · rename_i hAt
        -- `resultOp` is not before `dstOp`, so the destination has been chosen
        have hDst : s.current.info.dstOp < s.macroOpIndex + 1 := by
          have hOps := (ofType_srcOp type).2.2.1
          rw [← hBuilt.info] at hOps
          dsimp only at hAt
          omega
        obtain ⟨d, hd, -⟩ := hBuilt.dest hDst
        simp only [hd]
        trivial
      · trivial
    refine hResult.bind fun registers _ => ?_
    unfold emitInstruction
    dsimp only
    have hMeasure {s' : GeneratorState γ} (hThrown : s'.throwAwayCount = 0) :
        roundsLeft decodeBuffer (s', p.2 + 1) < roundsLeft decodeBuffer p := by
      simp only [roundsLeft, maxThrowawayCount, hThrown]
      omega
    split
    · -- the last macro-operation: the instruction joins the program
      rename_i hDone
      refine ⟨⟨hg, fun hLess => absurd hLess (Nat.not_lt.mpr hDone), ?_, ?_, Nat.zero_le _⟩,
        hMeasure rfl⟩
      · rw [List.length_append, List.length_singleton]
        exact hRoom
      · intro instr hMem
        rcases List.mem_append.mp hMem with hOld | hNew
        · exact hProgram instr hOld
        · rw [List.mem_singleton.mp hNew]
          exact hBuilt.wellFormed hDone
    · exact ⟨⟨hg, fun _ => ⟨⟨type, hBuilt⟩, hRoom⟩, hRoom.le, hProgram, Nat.zero_le _⟩,
        hMeasure rfl⟩

/-- A pass from a half-built instruction. -/
theorem scheduleCurrent_ends {E : Stop → Prop} (hKeeps : gen.Keeps K) {decodeBuffer : DecoderBuffer}
    {p : GeneratorState γ × Nat} (hIndex : p.2 < decodeBuffer.counts.length) (topCycle : Nat)
    {s : GeneratorState γ} (hInv : s.Inv K) (hHalf : s.macroOpIndex < s.current.info.ops.length)
    (hThrown : s.throwAwayCount = p.1.throwAwayCount) :
    Ends E (RoundOk K decodeBuffer p) (scheduleCurrent gen topCycle p.2 s) := by
  obtain ⟨⟨type, hBuilt⟩, hRoom⟩ := hInv.current hHalf
  unfold scheduleCurrent
  rw [List.getElem?_eq_getElem hHalf]
  dsimp only
  refine (scheduleMop_ends false _ s.portBusy s.cycle s.depCycle).bind fun q _ => ?_
  obtain ⟨scheduled, portBusy⟩ := q
  cases scheduled with
  | none => exact ⟨hInv.gen, hInv.current, hInv.size, hInv.wellFormed, hInv.thrown⟩
  | some scheduleCycle =>
    have hMeets := selectRegisters_meets hKeeps scheduleCycle hInv.gen hBuilt
    dsimp only
    cases hSelect : selectRegisters gen scheduleCycle s with
    | selected scheduleCycle' s' =>
      rw [hSelect] at hMeets
      obtain ⟨cycle, current, g, rfl, hg, hBuilt'⟩ := hMeets
      exact commitMop_ends hIndex _ topCycle scheduleCycle' hg hBuilt' hRoom hInv.wellFormed
    | failed s' =>
      rw [hSelect] at hMeets
      obtain ⟨cycle, current, g, rfl, hg⟩ := hMeets
      dsimp only
      split
      · -- the instruction is thrown away, which the measure counts
        rename_i hLess
        refine ⟨⟨hg, fun h => absurd h (Nat.lt_irrefl _), hInv.size, hInv.wellFormed, hLess⟩, ?_⟩
        simp only [roundsLeft]
        omega
      · exact ⟨hg, fun h => absurd h (Nat.not_lt_zero _), hInv.size, hInv.wellFormed, hInv.thrown⟩

/-- **One pass of the inner loop.** -/
theorem macroOpRound_ends (hKeeps : gen.Keeps K) (draws : γ → Nat) {decodeBuffer : DecoderBuffer}
    (hSlots : ∀ slotSize ∈ decodeBuffer.counts, IsSlotSize slotSize)
    {p : GeneratorState γ × Nat} (hInv : p.1.Inv K) :
    Ends (Stopped gen K draws) (RoundOk K decodeBuffer p)
      (macroOpRound gen draws decodeBuffer p) := by
  obtain ⟨s, bufferIndex⟩ := p
  unfold macroOpRound
  dsimp only
  split
  · exact hInv
  · rename_i hBuffer
    have hIndex : bufferIndex < decodeBuffer.counts.length := Nat.lt_of_not_le hBuffer
    split
    · -- a new instruction for the slot
      split
      · exact hInv
      · rename_i hGoOn
        have hRoom : s.program.length < kSuperscalarMaxSize :=
          Nat.lt_of_not_le fun h => hGoOn (.inr h)
        rw [List.getElem?_eq_getElem hIndex]
        dsimp only
        refine (createForSlot_ends hKeeps draws s.current (hSlots _ (List.getElem_mem hIndex)) _ _
          hInv.gen).bind fun q hq => ?_
        obtain ⟨⟨type, hBuilt⟩, hg⟩ := hq
        refine scheduleCurrent_ends hKeeps (p := (s, bufferIndex)) hIndex s.cycle
          ⟨hg, fun _ => ⟨⟨type, hBuilt⟩, hRoom⟩, hInv.size, hInv.wellFormed, hInv.thrown⟩ ?_ rfl
        rw [hBuilt.info]
        exact Nat.zero_lt_of_lt (ofType_srcOp type).2.2.2
    · rename_i hHalf
      exact scheduleCurrent_ends hKeeps (p := (s, bufferIndex)) hIndex s.cycle hInv
        (Nat.lt_of_not_le hHalf) rfl

/-- A pass of the outer loop. -/
theorem decodeRound_ends (hKeeps : gen.Keeps K) (draws : γ → Nat) {p : GeneratorState γ × Nat}
    (hInv : p.1.Inv K) :
    Ends (Stopped gen K draws) (Round.Ok (GeneratorState.Inv K) fun q =>
      q.1.Inv K ∧ kSuperscalarLatency - q.2 < kSuperscalarLatency - p.2)
      (decodeRound gen draws p) := by
  obtain ⟨s, decodeCycle⟩ := p
  unfold decodeRound
  dsimp only
  split
  · rename_i hGoOn
    have hFetch := fetchNext_spec hKeeps s.current.info.type decodeCycle s.mulCount hInv.gen
    generalize fetchNext gen s.current.info.type decodeCycle s.mulCount s.gen = fetched at hFetch ⊢
    obtain ⟨decodeBuffer, g⟩ := fetched
    obtain ⟨hSlots, hg⟩ := hFetch
    have hBuffer : Ends (Stopped gen K draws) (GeneratorState.Inv K)
        (loop .stuck (macroOpRound gen draws decodeBuffer) (bufferRounds decodeBuffer)
          ({ s with gen := g }, 0)) := by
      refine loop_ends (fun q => q.1.Inv K) (roundsLeft decodeBuffer)
        (fun q hq => macroOpRound_ends hKeeps draws hSlots hq)
        ⟨hg, hInv.current, hInv.size, hInv.wellFormed, hInv.thrown⟩ ?_
      simp only [roundsLeft, bufferRounds, maxThrowawayCount]
      omega
    refine hBuffer.bind fun s' hs' => ?_
    refine ⟨⟨hs'.gen, hs'.current, hs'.size, hs'.wellFormed, hs'.thrown⟩, ?_⟩
    dsimp only
    omega
  · exact hInv

/-! ## Generated programs -/

/-- The registers of well-formed instructions index `asic_latencies`. -/
theorem asicLatencies_ends {E : Stop → Prop} {program : List Instruction}
    (hProgram : ∀ instr ∈ program, WellFormedInstruction instr) :
    Ends E (fun _ => True) (asicLatencies program) := by
  have hAt (latencies : Fin 8 → Nat) {reg : BitVec 8} (hReg : reg < 8) :
      latencyAt latencies reg = .ok (latencies ⟨reg.toNat, hReg⟩) := dif_pos hReg
  unfold asicLatencies
  generalize (fun _ => 0 : Fin 8 → Nat) = latencies
  induction program generalizing latencies with
  | nil => trivial
  | cons instr rest ih =>
    rw [List.forall_mem_cons] at hProgram
    obtain ⟨type, -, hDst, hSrc, -⟩ := hProgram.1
    have hStep : Ends E (fun _ => True) (asicStep latencies instr) := by
      rw [asicStep, hAt latencies hDst, hAt latencies hSrc]
      trivial
    rw [List.foldlM_cons]
    exact hStep.bind fun latencies' _ => ih hProgram.2 latencies'

/-- What is promised of a program. -/
def WellFormedProgram (program : List Instruction × Fin 8) : Prop :=
  program.1.length ≤ kSuperscalarMaxSize ∧ ∀ instr ∈ program.1, WellFormedInstruction instr

theorem generateSuperscalar_ends (hKeeps : gen.Keeps K) (draws : γ → Nat) {g : γ} (hg : K g) :
    Ends (Stopped gen K draws) (fun p => WellFormedProgram p.1)
      (generateSuperscalar gen draws g) := by
  have hStart : (GeneratorState.start g).Inv K :=
    ⟨hg, nofun, Nat.zero_le _, fun _ h => absurd h List.not_mem_nil, Nat.zero_le _⟩
  have hLoop : Ends (Stopped gen K draws) (GeneratorState.Inv K)
      (loop .stuck (decodeRound gen draws) (kSuperscalarLatency + 1) (.start g, 0)) :=
    loop_ends (fun p => p.1.Inv K) (fun p => kSuperscalarLatency - p.2)
      (fun p hp => decodeRound_ends hKeeps draws hp) hStart (Nat.lt_succ_of_le (Nat.sub_le _ _))
  refine hLoop.bind fun s hs => ?_
  refine (asicLatencies_ends hs.wellFormed).bind fun latencies _ => ?_
  exact ⟨hs.size, hs.wellFormed⟩

/-- A generated program as the type the dataset derivation runs. -/
def SuperscalarProgram.ofGenerated (program : List Instruction × Fin 8)
    (h : WellFormedProgram program) : SuperscalarProgram where
  instructions := program.1
  addressRegister := program.2
  size_le := h.1
  registers := fun instr hMem => by
    obtain ⟨type, -, hDst, hSrc, -⟩ := h.2 instr hMem
    exact ⟨hDst, hSrc⟩

/-- Generated programs have only the fourteen opcodes. -/
theorem SuperscalarProgram.ofGenerated_typed {program : List Instruction × Fin 8}
    (h : WellFormedProgram program) : (ofGenerated program h).Typed := by
  intro instr hMem
  obtain ⟨type, hType, -⟩ := h.2 instr hMem
  exact Option.isSome_iff_exists.mpr ⟨type, hType⟩

/-- The states the generator gets to from `g`. -/
inductive Generator.Reaches (gen : Generator γ) (g : γ) : γ → Prop
  | start : gen.Reaches g g
  | byte {g' : γ} (h : gen.Reaches g g') : gen.Reaches g (gen.getByte g').2
  | word {g' : γ} (h : gen.Reaches g g') : gen.Reaches g (gen.getUint32 g').2

theorem Generator.keeps_reaches (gen : Generator γ) (g : γ) : gen.Keeps (gen.Reaches g) where
  byte _ h := h.byte
  word _ h := h.word

/-- From every state the generator gets to, both rejection loops end. -/
def RejectionsEnd (gen : Generator γ) (g : γ) : Prop :=
  ∀ g', gen.Reaches g g' → (∃ n, gen.drawRotation n g' ≠ .error .rejection) ∧
    ∃ n, gen.drawDivisor n g' ≠ .error .rejection

/-- **Generated programs.** Whatever the generator and the draws its rejection loops
may make, a generation ends in a well-formed program, or in a rejection loop that, at a
state the generator gets to, does not end within its draws: never in an index outside
its array, a port booked twice, an invalid slot or a loop that goes on. Where the
rejection loops end, there are draws with which the program is reached. -/
theorem generateSuperscalar_wellFormed (gen : Generator γ) (g : γ) :
    (∀ draws p, generateSuperscalar gen draws g = .ok p → WellFormedProgram p.1) ∧
    (∀ draws stop, generateSuperscalar gen draws g = .error stop →
      stop = .rejection ∧ Rejected gen (gen.Reaches g) draws) ∧
    (RejectionsEnd gen g →
      ∃ draws p, generateSuperscalar gen draws g = .ok p ∧ WellFormedProgram p.1) := by
  have hGeneration (draws : γ → Nat) :=
    generateSuperscalar_ends (gen.keeps_reaches g) draws .start
  refine ⟨fun draws p hOk => ?_, fun draws stop hError => ?_, fun hEnd => ?_⟩
  · have hEnds := hGeneration draws
    rw [hOk] at hEnds
    exact hEnds
  · have hEnds := hGeneration draws
    rw [hError] at hEnds
    exact hEnds
  · -- at every state, enough draws for whichever loop runs there
    choose! n hRotation using fun g' h => (hEnd g' h).1
    choose! m hDivisor using fun g' h => (hEnd g' h).2
    have hEnds := hGeneration fun g => max (n g) (m g)
    cases hResult : generateSuperscalar gen (fun g => max (n g) (m g)) g with
    | ok p =>
      rw [hResult] at hEnds
      exact ⟨_, p, hResult, hEnds⟩
    | error stop =>
      rw [hResult] at hEnds
      obtain ⟨-, g', hReaches, hRejected⟩ := hEnds
      rcases hRejected with h | h
      · exact absurd h (rejectWhile_mono (Nat.le_max_left _ _) (hRotation g' hReaches))
      · exact absurd h (rejectWhile_mono (Nat.le_max_right _ _) (hDivisor g' hReaches))

/-- A generator that always draws the byte 1 and the word 3. -/
def constantGenerator : Generator Unit := ⟨fun g => (1, g), fun g => (3, g)⟩

/-- It is accepted at the first draw, so it reaches a program. -/
theorem generateSuperscalar_wellFormed_constant :
    ∃ draws p, generateSuperscalar constantGenerator draws () = .ok p ∧
      WellFormedProgram p.1 :=
  (generateSuperscalar_wellFormed constantGenerator ()).2.2 fun () _ =>
    ⟨⟨1, by decide⟩, 1, by decide⟩

end ArmRx.Vm
