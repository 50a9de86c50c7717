import ArmRx.Lib.Loop
import ArmRx.Vm.Superscalar

/-!
# Instructions of the superscalar generator

Embeds the tables of `src/superscalar.cpp` (macro-operations, instruction
descriptions, decode buffers, slots) and `class SuperscalarInstruction`. The random
generator is a parameter. Its two rejection loops take the number of draws they may
make as a function of the generator's state; a loop that uses it up stops with
`Stop.rejection`.

* `createForSlot_ends` — what a new instruction satisfies before its registers are
  chosen.
* `selectSource_spec`, `selectDestination_spec` — what a chosen register satisfies.
-/

namespace ArmRx.Vm

open ArmRx.Lib

/-! ## Tables -/

namespace ExecutionPort

/-- `ExecutionPort::type`: a set of ports. -/
abbrev Ports : Type := BitVec 3

def null : Ports := 0
def p0 : Ports := 1
def p1 : Ports := 2
def p5 : Ports := 4
def p01 : Ports := p0 ||| p1
def p05 : Ports := p0 ||| p5
def p015 : Ports := p0 ||| p1 ||| p5

end ExecutionPort

open ExecutionPort in
/-- `class MacroOp`. -/
structure MacroOp where
  size : Nat
  latency : Nat := 0
  uop1 : Ports := null
  uop2 : Ports := null
  dependent : Bool := false
  deriving DecidableEq, Repr

namespace MacroOp

open ExecutionPort

def isSimple (mop : MacroOp) : Bool := mop.uop2 = null
def isEliminated (mop : MacroOp) : Bool := mop.uop1 = null

def subRr : MacroOp := ⟨3, 1, p015, null, false⟩
def xorRr : MacroOp := ⟨3, 1, p015, null, false⟩
def imulR : MacroOp := ⟨3, 4, p1, p5, false⟩
def mulR : MacroOp := ⟨3, 4, p1, p5, false⟩
def movRr : MacroOp := ⟨3, 0, null, null, false⟩
def leaSib : MacroOp := ⟨4, 1, p01, null, false⟩
def imulRr : MacroOp := ⟨4, 3, p1, null, false⟩
def rorRi : MacroOp := ⟨4, 1, p05, null, false⟩
def addRi : MacroOp := ⟨7, 1, p015, null, false⟩
def xorRi : MacroOp := ⟨7, 1, p015, null, false⟩
def movRi64 : MacroOp := ⟨10, 1, p015, null, false⟩

end MacroOp

/-- `class SuperscalarInstructionInfo`. The type `INVALID` and the index `-1` are
`none`. -/
structure SuperscalarInstructionInfo where
  type : Option SuperscalarInstructionType
  ops : List MacroOp
  resultOp : Nat := 0
  dstOp : Nat := 0
  srcOp : Option Nat
  deriving DecidableEq, Repr

namespace SuperscalarInstructionInfo

/-- An instruction of one macro-operation. -/
def simple (type : SuperscalarInstructionType) (op : MacroOp) (srcOp : Option Nat) :
    SuperscalarInstructionInfo :=
  ⟨some type, [op], 0, 0, srcOp⟩

/-- The description of each type. -/
def ofType : SuperscalarInstructionType → SuperscalarInstructionInfo
  | .isubR => simple .isubR .subRr (some 0)
  | .ixorR => simple .ixorR .xorRr (some 0)
  | .iaddRs => simple .iaddRs .leaSib (some 0)
  | .imulR => simple .imulR .imulRr (some 0)
  | .irorC => simple .irorC .rorRi none
  | .iaddC7 => simple .iaddC7 .addRi none
  | .ixorC7 => simple .ixorC7 .xorRi none
  | .iaddC8 => simple .iaddC8 .addRi none
  | .ixorC8 => simple .ixorC8 .xorRi none
  | .iaddC9 => simple .iaddC9 .addRi none
  | .ixorC9 => simple .ixorC9 .xorRi none
  | .imulhR => ⟨some .imulhR, [.movRr, .mulR, .movRr], 1, 0, some 1⟩
  | .ismulhR => ⟨some .ismulhR, [.movRr, .imulR, .movRr], 1, 0, some 1⟩
  | .imulRcp => ⟨some .imulRcp, [.movRi64, { MacroOp.imulRr with dependent := true }], 1, 1, none⟩

/-- `SuperscalarInstructionInfo::NOP`. -/
def nop : SuperscalarInstructionInfo := ⟨none, [], 0, 0, none⟩

end SuperscalarInstructionInfo

/-- `class DecoderBuffer`. -/
structure DecoderBuffer where
  index : Int
  counts : List Nat

namespace DecoderBuffer

def decodeBuffer484 : DecoderBuffer := ⟨0, [4, 8, 4]⟩
def decodeBuffer7333 : DecoderBuffer := ⟨1, [7, 3, 3, 3]⟩
def decodeBuffer3733 : DecoderBuffer := ⟨2, [3, 7, 3, 3]⟩
def decodeBuffer493 : DecoderBuffer := ⟨3, [4, 9, 3]⟩
def decodeBuffer4444 : DecoderBuffer := ⟨4, [4, 4, 4, 4]⟩
def decodeBuffer3310 : DecoderBuffer := ⟨5, [3, 3, 10]⟩

/-- `decodeBuffers`. -/
def decodeBuffers : Fin 4 → DecoderBuffer :=
  ![decodeBuffer484, decodeBuffer7333, decodeBuffer3733, decodeBuffer493]

end DecoderBuffer

/-! ## The generator -/

/-- `class Blake2Generator`, over any type of states. -/
structure Generator (γ : Type) where
  getByte : γ → BitVec 8 × γ
  getUint32 : γ → BitVec 32 × γ

/-- Why a generation ends without a program: a rejection loop that used up its draws,
or one of the faults. -/
inductive Stop where
  | rejection
  /-- the exception of `createForSlot` -/
  | slotSize
  /-- an index outside an array -/
  | index
  /-- a port booked a second time -/
  | booked
  /-- a loop that goes on -/
  | stuck
  deriving DecidableEq, Repr

variable {γ : Type}

/-- `do draw while (bad)`, for at most `n` draws. -/
def rejectWhile {α : Type} (draw : γ → α × γ) (bad : α → Bool) :
    Nat → γ → Except Stop (α × γ)
  | 0, _ => .error .rejection
  | n + 1, g => if bad (draw g).1 then rejectWhile draw bad n (draw g).2 else .ok (draw g)

namespace Generator

variable (gen : Generator γ)

/-- `gen.get_byte() & 1`. -/
def bit (g : γ) : Fin 2 × γ :=
  (⟨(gen.getByte g).1.toNat % 2, by omega⟩, (gen.getByte g).2)

/-- `gen.get_byte() & 3`. -/
def twoBits (g : γ) : Fin 4 × γ :=
  (⟨(gen.getByte g).1.toNat % 4, by omega⟩, (gen.getByte g).2)

/-- A draw of a rotation count. -/
def rotation (g : γ) : BitVec 32 × γ :=
  (((gen.getByte g).1 &&& 63).setWidth 32, (gen.getByte g).2)

/-- The first rejection loop. -/
def drawRotation (n : Nat) (g : γ) : Except Stop (BitVec 32 × γ) :=
  rejectWhile gen.rotation (· == 0) n g

/-- `isZeroOrPowerOf2`, on 32 bits. -/
def isZeroOrPowerOf2 (val : BitVec 32) : Bool := val == 0 || val &&& (val - 1) == 0

/-- The second rejection loop. -/
def drawDivisor (n : Nat) (g : γ) : Except Stop (BitVec 32 × γ) :=
  rejectWhile gen.getUint32 isZeroOrPowerOf2 n g

end Generator

/-- `DecoderBuffer::fetchNext`. -/
def fetchNext (gen : Generator γ) (instrType : Option SuperscalarInstructionType)
    (cycle mulCount : Nat) (g : γ) : DecoderBuffer × γ :=
  if instrType = some .imulhR ∨ instrType = some .ismulhR then (.decodeBuffer3310, g)
  else if mulCount < cycle + 1 then (.decodeBuffer4444, g)
  else if instrType = some .imulRcp then
    let (bit, g) := gen.bit g
    (if bit = 1 then .decodeBuffer484 else .decodeBuffer493, g)
  else
    let (index, g) := gen.twoBits g
    (DecoderBuffer.decodeBuffers index, g)

/-! ## Instructions -/

/-- `class RegisterInfo`. -/
structure RegisterInfo where
  latency : Nat := 0
  lastOpGroup : Option SuperscalarInstructionType := none
  lastOpPar : Int := -1

/-- `RegisterNeedsDisplacement`. -/
def registerNeedsDisplacement : Fin 8 := 5

/-- `class SuperscalarInstruction`. A register that has not been chosen, `-1`, is
`none`. -/
structure SuperscalarInstruction where
  info : SuperscalarInstructionInfo
  src : Option (Fin 8) := none
  dst : Option (Fin 8) := none
  mod : BitVec 8 := 0
  imm32 : BitVec 32 := 0
  opGroup : Option SuperscalarInstructionType := none
  opGroupPar : Int := -1
  canReuse : Bool := false
  groupParIsSource : Bool := false

/-- The value of a member of `SuperscalarInstructionType`. -/
def SuperscalarInstructionType.opcode (type : SuperscalarInstructionType) : BitVec 8 :=
  BitVec.ofNat 8 (superscalarTypes.idxOf type)

namespace SuperscalarInstruction

/-- `SuperscalarInstruction::Null`. -/
def null : SuperscalarInstruction := { info := .nop }

/-- A register number as a byte, `-1` for none. -/
def regByte (reg : Option (Fin 8)) : BitVec 8 :=
  match reg with
  | some i => BitVec.ofNat 8 i
  | none => -1

/-- `toInstr`. -/
def toInstr (current : SuperscalarInstruction) : Instruction where
  opcode := (current.info.type.map SuperscalarInstructionType.opcode).getD (-1)
  dst := regByte current.dst
  src := regByte (if current.src.isSome then current.src else current.dst)
  mod := current.mod
  imm32 := current.imm32

/-- `create`. What `reset` leaves alone stays from the instruction before. -/
def create (gen : Generator γ) (draws : γ → Nat) (current : SuperscalarInstruction)
    (type : SuperscalarInstructionType) (g : γ) : Except Stop (SuperscalarInstruction × γ) :=
  let fresh := { current with
    info := .ofType type, src := none, dst := none, canReuse := false, groupParIsSource := false }
  match type with
  | .isubR =>
    .ok ({ fresh with
      mod := 0, imm32 := 0, opGroup := some .iaddRs, groupParIsSource := true }, g)
  | .ixorR =>
    .ok ({ fresh with
      mod := 0, imm32 := 0, opGroup := some .ixorR, groupParIsSource := true }, g)
  | .iaddRs =>
    let (mod, g) := gen.getByte g
    .ok ({ fresh with
      mod := mod, imm32 := 0, opGroup := some .iaddRs, groupParIsSource := true }, g)
  | .imulR =>
    .ok ({ fresh with
      mod := 0, imm32 := 0, opGroup := some .imulR, groupParIsSource := true }, g)
  | .irorC => do
    let (imm32, g) ← gen.drawRotation (draws g) g
    .ok ({ fresh with mod := 0, imm32 := imm32, opGroup := some .irorC, opGroupPar := -1 }, g)
  | .iaddC7 | .iaddC8 | .iaddC9 =>
    let (imm32, g) := gen.getUint32 g
    .ok ({ fresh with mod := 0, imm32 := imm32, opGroup := some .iaddC7, opGroupPar := -1 }, g)
  | .ixorC7 | .ixorC8 | .ixorC9 =>
    let (imm32, g) := gen.getUint32 g
    .ok ({ fresh with mod := 0, imm32 := imm32, opGroup := some .ixorC7, opGroupPar := -1 }, g)
  | .imulhR =>
    let (par, g) := gen.getUint32 g
    .ok ({ fresh with
      canReuse := true, mod := 0, imm32 := 0, opGroup := some .imulhR, opGroupPar := par.toInt }, g)
  | .ismulhR =>
    let (par, g) := gen.getUint32 g
    .ok ({ fresh with
      canReuse := true, mod := 0, imm32 := 0, opGroup := some .ismulhR
      opGroupPar := par.toInt }, g)
  | .imulRcp => do
    let (imm32, g) ← gen.drawDivisor (draws g) g
    .ok ({ fresh with mod := 0, imm32 := imm32, opGroup := some .imulRcp, opGroupPar := -1 }, g)

def slot3 : Fin 2 → SuperscalarInstructionType := ![.isubR, .ixorR]
def slot3L : Fin 4 → SuperscalarInstructionType := ![.isubR, .ixorR, .imulhR, .ismulhR]
def slot4 : Fin 2 → SuperscalarInstructionType := ![.irorC, .iaddRs]
def slot7 : Fin 2 → SuperscalarInstructionType := ![.ixorC7, .iaddC7]
def slot8 : Fin 2 → SuperscalarInstructionType := ![.ixorC8, .iaddC8]
def slot9 : Fin 2 → SuperscalarInstructionType := ![.ixorC9, .iaddC9]
def slot10 : SuperscalarInstructionType := .imulRcp

/-- `createForSlot`. -/
def createForSlot (gen : Generator γ) (draws : γ → Nat) (current : SuperscalarInstruction)
    (slotSize : Nat) (fetchType : Int) (isLast : Bool) (g : γ) :
    Except Stop (SuperscalarInstruction × γ) :=
  match slotSize with
  | 3 =>
    if isLast then create gen draws current (slot3L (gen.twoBits g).1) (gen.twoBits g).2
    else create gen draws current (slot3 (gen.bit g).1) (gen.bit g).2
  | 4 =>
    if fetchType = 4 ∧ !isLast then create gen draws current .imulR g
    else create gen draws current (slot4 (gen.bit g).1) (gen.bit g).2
  | 7 => create gen draws current (slot7 (gen.bit g).1) (gen.bit g).2
  | 8 => create gen draws current (slot8 (gen.bit g).1) (gen.bit g).2
  | 9 => create gen draws current (slot9 (gen.bit g).1) (gen.bit g).2
  | 10 => create gen draws current slot10 g
  | _ => .error .slotSize

/-- `selectRegister`: `none` where it returns `false`. -/
def selectRegister (gen : Generator γ) (availableRegisters : List (Fin 8)) (g : γ) :
    Option (Fin 8 × γ) :=
  if hNone : availableRegisters.length = 0 then none
  else if availableRegisters.length > 1 then
    let (value, g) := gen.getUint32 g
    some (availableRegisters.get
      ⟨value.toNat % availableRegisters.length, Nat.mod_lt _ (by omega)⟩, g)
  else some (availableRegisters.get ⟨0, by omega⟩, g)

/-- The registers `selectDestination` chooses from. -/
def isDestination (current : SuperscalarInstruction) (cycle : Nat) (allowChainedMul : Bool)
    (registers : Fin 8 → RegisterInfo) (i : Fin 8) : Bool :=
  (registers i).latency ≤ cycle && (current.canReuse || some i ≠ current.src) &&
    (allowChainedMul || current.opGroup ≠ some .imulR ||
      (registers i).lastOpGroup ≠ some .imulR) &&
    ((registers i).lastOpGroup ≠ current.opGroup ||
      (registers i).lastOpPar ≠ current.opGroupPar) &&
    (current.info.type ≠ some .iaddRs || i ≠ registerNeedsDisplacement)

/-- `selectDestination`. -/
def selectDestination (gen : Generator γ) (current : SuperscalarInstruction) (cycle : Nat)
    (allowChainedMul : Bool) (registers : Fin 8 → RegisterInfo) (g : γ) :
    Option (SuperscalarInstruction × γ) := do
  let availableRegisters :=
    (List.finRange 8).filter (current.isDestination cycle allowChainedMul registers)
  let (dst, g) ← selectRegister gen availableRegisters g
  some ({ current with dst := some dst }, g)

/-- `selectSource`. -/
def selectSource (gen : Generator γ) (current : SuperscalarInstruction) (cycle : Nat)
    (registers : Fin 8 → RegisterInfo) (g : γ) : Option (SuperscalarInstruction × γ) :=
  let availableRegisters := (List.finRange 8).filter fun i => (registers i).latency ≤ cycle
  if availableRegisters.length = 2 ∧ current.info.type = some .iaddRs ∧
      registerNeedsDisplacement ∈ availableRegisters then
    some ({ current with
      src := some registerNeedsDisplacement, opGroupPar := registerNeedsDisplacement.val }, g)
  else do
    let (src, g) ← selectRegister gen availableRegisters g
    some ({ current with
      src := some src
      opGroupPar := if current.groupParIsSource then src.val else current.opGroupPar }, g)

end SuperscalarInstruction

/-! ## What the parts of an instruction satisfy -/

/-- The draws lead from states that meet `K` to such states. -/
structure Generator.Keeps (gen : Generator γ) (K : γ → Prop) : Prop where
  byte : ∀ g, K g → K (gen.getByte g).2
  word : ∀ g, K g → K (gen.getUint32 g).2

/-- At some state that meets `K`, a rejection loop does not end within its draws. -/
def Rejected (gen : Generator γ) (K : γ → Prop) (draws : γ → Nat) : Prop :=
  ∃ g, K g ∧ (gen.drawRotation (draws g) g = .error .rejection ∨
    gen.drawDivisor (draws g) g = .error .rejection)

/-- The one way a generation may end without a program. -/
def Stopped (gen : Generator γ) (K : γ → Prop) (draws : γ → Nat) (stop : Stop) : Prop :=
  stop = .rejection ∧ Rejected gen K draws

variable {gen : Generator γ} {K : γ → Prop}

/-- A rejection loop ends with a draw that is not rejected. -/
theorem rejectWhile_ends {α : Type} {draw : γ → α × γ} (hDraw : ∀ g, K g → K (draw g).2)
    (bad : α → Bool) (n : Nat) {g : γ} (hg : K g) :
    Ends (fun stop => stop = .rejection ∧ rejectWhile draw bad n g = .error .rejection)
      (fun p => bad p.1 = false ∧ ∃ g', K g' ∧ p = draw g') (rejectWhile draw bad n g) := by
  induction n generalizing g with
  | zero => exact ⟨rfl, rfl⟩
  | succ n ih =>
    unfold rejectWhile
    split
    · exact ih (hDraw g hg)
    · rename_i hGood
      exact ⟨Bool.eq_false_iff.mpr hGood, g, hg, rfl⟩

/-- More draws do not change the value. -/
theorem rejectWhile_mono {α : Type} {draw : γ → α × γ} {bad : α → Bool} {n m : Nat} (hLe : n ≤ m)
    {g : γ} (h : rejectWhile draw bad n g ≠ .error .rejection) :
    rejectWhile draw bad m g ≠ .error .rejection := by
  induction n generalizing g m with
  | zero => exact absurd rfl h
  | succ n ih =>
    obtain ⟨m, rfl⟩ : ∃ k, m = k + 1 := ⟨m - 1, by omega⟩
    unfold rejectWhile at h ⊢
    split
    · rename_i hBad
      rw [if_pos hBad] at h
      exact ih (by omega) h
    · exact fun hError => nomatch hError

open SuperscalarInstruction

/-- What an instruction of type `type` satisfies once its macro-operations before
`sources` have chosen a source and those before `dests` a destination. -/
structure Built (sources dests : Nat) (type : SuperscalarInstructionType)
    (current : SuperscalarInstruction) : Prop where
  info : current.info = .ofType type
  reuse : current.canReuse = true ↔ type = .imulhR ∨ type = .ismulhR
  rotation : type = .irorC → 1 ≤ current.imm32.toNat ∧ current.imm32.toNat ≤ 63
  divisor : type = .imulRcp → Generator.isZeroOrPowerOf2 current.imm32 = false
  source : ∀ k, current.info.srcOp = some k → k < sources → current.src.isSome
  dest : current.info.dstOp < dests → ∃ d, current.dst = some d ∧
    (current.canReuse = false → current.src ≠ some d) ∧
    (type = .iaddRs → d ≠ registerNeedsDisplacement)

theorem drawRotation_ends (hKeeps : gen.Keeps K) (draws : γ → Nat) {g : γ} (hg : K g) :
    Ends (Stopped gen K draws) (fun p => (1 ≤ p.1.toNat ∧ p.1.toNat ≤ 63) ∧ K p.2)
      (gen.drawRotation (draws g) g) := by
  have hDraw : ∀ g, K g → K (gen.rotation g).2 := hKeeps.byte
  refine (rejectWhile_ends hDraw (· == 0) (draws g) hg).imp
    (fun stop h => ⟨h.1, g, hg, .inl h.2⟩) fun p hp => ?_
  obtain ⟨hNonzero, g', hg', rfl⟩ := hp
  have hNe : (gen.rotation g').1 ≠ 0 := beq_eq_false_iff_ne.mp hNonzero
  have hValue : (gen.rotation g').1.toNat ≤ 63 := by
    rw [Generator.rotation, BitVec.toNat_setWidth, BitVec.toNat_and]
    exact (Nat.mod_le _ _).trans Nat.and_le_right
  refine ⟨⟨Nat.one_le_iff_ne_zero.mpr fun hZero => hNe ?_, hValue⟩, hDraw g' hg'⟩
  exact BitVec.eq_of_toNat_eq hZero

theorem drawDivisor_ends (hKeeps : gen.Keeps K) (draws : γ → Nat) {g : γ} (hg : K g) :
    Ends (Stopped gen K draws) (fun p => Generator.isZeroOrPowerOf2 p.1 = false ∧ K p.2)
      (gen.drawDivisor (draws g) g) := by
  refine (rejectWhile_ends hKeeps.word Generator.isZeroOrPowerOf2 (draws g) hg).imp
    (fun _ h => ⟨h.1, g, hg, .inr h.2⟩) fun p hp => ?_
  obtain ⟨hGood, g', hg', rfl⟩ := hp
  exact ⟨hGood, hKeeps.word g' hg'⟩

/-- `create` leaves both registers open. -/
theorem create_ends (hKeeps : gen.Keeps K) (draws : γ → Nat) (current : SuperscalarInstruction)
    (type : SuperscalarInstructionType) {g : γ} (hg : K g) :
    Ends (Stopped gen K draws) (fun p => Built 0 0 type p.1 ∧ K p.2)
      (create gen draws current type g) := by
  have hNoSource {i : SuperscalarInstruction} (k : Nat) (_ : i.info.srcOp = some k) (hk : k < 0) :
      i.src.isSome := absurd hk (Nat.not_lt_zero k)
  cases type
  case irorC =>
    refine (drawRotation_ends hKeeps draws hg).bind fun p hp => ?_
    exact ⟨⟨rfl, by simp, fun _ => hp.1, nofun, hNoSource, nofun⟩, hp.2⟩
  case imulRcp =>
    refine (drawDivisor_ends hKeeps draws hg).bind fun p hp => ?_
    exact ⟨⟨rfl, by simp, nofun, fun _ => hp.1, hNoSource, nofun⟩, hp.2⟩
  case isubR | ixorR | imulR => exact ⟨⟨rfl, by simp, nofun, nofun, hNoSource, nofun⟩, hg⟩
  case iaddRs => exact ⟨⟨rfl, by simp, nofun, nofun, hNoSource, nofun⟩, hKeeps.byte g hg⟩
  all_goals exact ⟨⟨rfl, by simp, nofun, nofun, hNoSource, nofun⟩, hKeeps.word g hg⟩

/-- The sizes that occur in the decode buffers. -/
def IsSlotSize (slotSize : Nat) : Prop := slotSize ∈ [3, 4, 7, 8, 9, 10]

instance : DecidablePred IsSlotSize := fun slotSize =>
  inferInstanceAs (Decidable (slotSize ∈ [3, 4, 7, 8, 9, 10]))

/-- `createForSlot` does not throw on them. -/
theorem createForSlot_ends (hKeeps : gen.Keeps K) (draws : γ → Nat)
    (current : SuperscalarInstruction) {slotSize : Nat} (hSlot : IsSlotSize slotSize)
    (fetchType : Int) (isLast : Bool) {g : γ} (hg : K g) :
    Ends (Stopped gen K draws) (fun p => (∃ type, Built 0 0 type p.1) ∧ K p.2)
      (createForSlot gen draws current slotSize fetchType isLast g) := by
  have hCreate (type : SuperscalarInstructionType) {g : γ} (hg : K g) :
      Ends (Stopped gen K draws) (fun p => (∃ type, Built 0 0 type p.1) ∧ K p.2)
        (create gen draws current type g) :=
    (create_ends hKeeps draws current type hg).imp (fun _ h => h) fun _ hp => ⟨⟨type, hp.1⟩, hp.2⟩
  -- the type of the instruction costs a byte at most
  have hByte := hKeeps.byte g hg
  simp only [IsSlotSize, List.mem_cons, List.not_mem_nil, or_false] at hSlot
  rcases hSlot with rfl | rfl | rfl | rfl | rfl | rfl
  case inl =>
    simp only [createForSlot]
    split <;> exact hCreate _ hByte
  case inr.inl =>
    simp only [createForSlot]
    split
    · exact hCreate _ hg
    · exact hCreate _ hByte
  case inr.inr.inr.inr.inr => exact hCreate slot10 hg
  all_goals exact hCreate _ hByte

/-- Every buffer lists slot sizes. -/
theorem fetchNext_spec (hKeeps : gen.Keeps K) (instrType : Option SuperscalarInstructionType)
    (cycle mulCount : Nat) {g : γ} (hg : K g) :
    (∀ slotSize ∈ (fetchNext gen instrType cycle mulCount g).1.counts, IsSlotSize slotSize) ∧
      K (fetchNext gen instrType cycle mulCount g).2 := by
  have hDefault : ∀ index, ∀ slotSize ∈ (DecoderBuffer.decodeBuffers index).counts,
      IsSlotSize slotSize := by decide
  unfold fetchNext
  split
  · exact ⟨(by decide : ∀ slotSize ∈ DecoderBuffer.decodeBuffer3310.counts, IsSlotSize slotSize),
      hg⟩
  split
  · exact ⟨(by decide : ∀ slotSize ∈ DecoderBuffer.decodeBuffer4444.counts, IsSlotSize slotSize),
      hg⟩
  split
  · refine ⟨?_, hKeeps.byte g hg⟩
    dsimp only
    split <;> decide
  · exact ⟨hDefault _, hKeeps.byte g hg⟩

theorem selectRegister_spec (hKeeps : gen.Keeps K) {availableRegisters : List (Fin 8)} {g g' : γ}
    {reg : Fin 8} (hg : K g) (h : selectRegister gen availableRegisters g = some (reg, g')) :
    reg ∈ availableRegisters ∧ K g' := by
  unfold selectRegister at h
  split at h
  · exact nomatch h
  · split at h
    · obtain ⟨rfl, rfl⟩ := Prod.mk.inj (Option.some.inj h)
      exact ⟨List.get_mem _ _, hKeeps.word g hg⟩
    · obtain ⟨rfl, rfl⟩ := Prod.mk.inj (Option.some.inj h)
      exact ⟨List.get_mem _ _, hg⟩

theorem selectDestination_spec (hKeeps : gen.Keeps K) {current current' : SuperscalarInstruction}
    {cycle : Nat} {allowChainedMul : Bool} {registers : Fin 8 → RegisterInfo} {g g' : γ}
    (hg : K g)
    (h : selectDestination gen current cycle allowChainedMul registers g = some (current', g')) :
    K g' ∧ ∃ d, current' = { current with dst := some d } ∧
      (current.canReuse = false → current.src ≠ some d) ∧
      (current.info.type = some .iaddRs → d ≠ registerNeedsDisplacement) := by
  obtain ⟨⟨d, g₁⟩, hSelect, hRest⟩ := Option.bind_eq_some_iff.mp h
  obtain ⟨rfl, rfl⟩ := Prod.mk.inj (Option.some.inj hRest)
  obtain ⟨hAvailable, hg'⟩ := selectRegister_spec hKeeps hg hSelect
  have hMem := (List.mem_filter.mp hAvailable).2
  simp only [isDestination, Bool.and_eq_true, Bool.or_eq_true, decide_eq_true_eq] at hMem
  obtain ⟨⟨⟨⟨-, hSource⟩, -⟩, -⟩, hDisplacement⟩ := hMem
  refine ⟨hg', d, rfl, fun hReuse hEq => ?_, fun hType => ?_⟩
  · rcases hSource with h | h
    · exact absurd (hReuse ▸ h) Bool.false_ne_true
    · exact h hEq.symm
  · rcases hDisplacement with h | h
    · exact absurd hType h
    · exact h

theorem selectSource_spec (hKeeps : gen.Keeps K) {current current' : SuperscalarInstruction}
    {cycle : Nat} {registers : Fin 8 → RegisterInfo} {g g' : γ} (hg : K g)
    (h : selectSource gen current cycle registers g = some (current', g')) :
    K g' ∧ ∃ src par, current' = { current with src := some src, opGroupPar := par } := by
  unfold selectSource at h
  dsimp only at h
  split at h
  · obtain ⟨rfl, rfl⟩ := Prod.mk.inj (Option.some.inj h)
    exact ⟨hg, _, _, rfl⟩
  · obtain ⟨⟨src, g₁⟩, hSelect, hRest⟩ := Option.bind_eq_some_iff.mp h
    obtain ⟨rfl, rfl⟩ := Prod.mk.inj (Option.some.inj hRest)
    exact ⟨(selectRegister_spec hKeeps hg hSelect).2, _, _, rfl⟩

/-! ## Macro-operations of one instruction, in order -/

/-- A source is chosen in the first macro-operation, except by the two instructions
that may reuse it. -/
theorem ofType_srcOp (type : SuperscalarInstructionType) :
    let info := SuperscalarInstructionInfo.ofType type
    (∀ k, info.srcOp = some k → info.dstOp < k → type = .imulhR ∨ type = .ismulhR) ∧
      (∀ k, info.srcOp = some k → k < info.ops.length) ∧ info.dstOp ≤ info.resultOp ∧
      info.resultOp < info.ops.length := by
  cases type <;> simp [SuperscalarInstructionInfo.ofType, SuperscalarInstructionInfo.simple]

theorem Built.skipSource {n : Nat} {type : SuperscalarInstructionType}
    {current : SuperscalarInstruction} (h : Built n n type current)
    (hNot : current.info.srcOp ≠ some n) : Built (n + 1) n type current := by
  refine { h with source := fun k hSrc hk => h.source k hSrc ?_ }
  exact Nat.lt_of_le_of_ne (Nat.le_of_lt_succ hk) fun hEq => hNot (hEq ▸ hSrc)

theorem Built.selectSource {n : Nat} {type : SuperscalarInstructionType}
    {current : SuperscalarInstruction} (h : Built n n type current)
    (hSrc : current.info.srcOp = some n) (src : Fin 8) (par : Int) :
    Built (n + 1) n type { current with src := some src, opGroupPar := par } := by
  refine ⟨h.info, h.reuse, h.rotation, h.divisor, fun _ _ _ => rfl, fun hDst => ?_⟩
  obtain ⟨d, hd, -, hDisplacement⟩ := h.dest hDst
  refine ⟨d, hd, fun hReuse => ?_, hDisplacement⟩
  -- a destination before the source: the instruction may reuse it
  rw [h.info] at hSrc hDst
  have hType := (ofType_srcOp type).1 n hSrc hDst
  exact absurd (h.reuse.mpr hType) (Bool.eq_false_iff.mp hReuse)

theorem Built.skipDestination {n : Nat} {type : SuperscalarInstructionType}
    {current : SuperscalarInstruction} (h : Built (n + 1) n type current)
    (hNot : current.info.dstOp ≠ n) : Built (n + 1) (n + 1) type current :=
  { h with dest := fun hDst => h.dest (by omega) }

theorem Built.selectDestination {n : Nat} {type : SuperscalarInstructionType}
    {current : SuperscalarInstruction} (h : Built (n + 1) n type current) {d : Fin 8}
    (hReuse : current.canReuse = false → current.src ≠ some d)
    (hDisplacement : current.info.type = some .iaddRs → d ≠ registerNeedsDisplacement) :
    Built (n + 1) (n + 1) type { current with dst := some d } := by
  refine ⟨h.info, h.reuse, h.rotation, h.divisor, h.source, fun _ => ⟨d, rfl, hReuse, ?_⟩⟩
  rintro rfl
  exact hDisplacement (by rw [h.info]; rfl)

/-! ## Finished instructions -/

/-- What is promised of an instruction of a program. -/
def WellFormedInstruction (instr : Instruction) : Prop :=
  ∃ type, instr.superscalarType = some type ∧ instr.dst < 8 ∧ instr.src < 8 ∧
    (type = .isubR ∨ type = .ixorR ∨ type = .iaddRs ∨ type = .imulR → instr.src ≠ instr.dst) ∧
    (type = .iaddRs → instr.dst ≠ 5) ∧
    (type = .irorC → 1 ≤ instr.imm32.toNat ∧ instr.imm32.toNat ≤ 63) ∧
    (type = .imulRcp → instr.imm32 ≠ 0 ∧ ∀ k, instr.imm32.toNat ≠ 2 ^ k)

theorem not_power_of_isZeroOrPowerOf2 {val : BitVec 32}
    (h : Generator.isZeroOrPowerOf2 val = false) : val ≠ 0 ∧ ∀ k, val.toNat ≠ 2 ^ k := by
  rw [Generator.isZeroOrPowerOf2, Bool.or_eq_false_iff, beq_eq_false_iff_ne,
    beq_eq_false_iff_ne] at h
  refine ⟨h.1, fun k hPower => h.2 ?_⟩
  have hPred : (val - 1).toNat = 2 ^ k - 1 := by
    have hPos : 0 < 2 ^ k := Nat.two_pow_pos k
    have hOne : (1 : BitVec 32).toNat = 1 := rfl
    have := val.isLt
    rw [BitVec.toNat_sub, hOne]
    omega
  apply BitVec.eq_of_toNat_eq
  rw [BitVec.toNat_and, hPred, hPower, Nat.and_two_pow_sub_one_eq_mod, Nat.mod_self]
  rfl

theorem toInstr_superscalarType {current : SuperscalarInstruction}
    {type : SuperscalarInstructionType} (hInfo : current.info = .ofType type) :
    current.toInstr.superscalarType = some type := by
  rw [Instruction.superscalarType, toInstr, hInfo]
  cases type <;> rfl

theorem regByte_some_lt : ∀ i : Fin 8, regByte (some i) < 8 := by decide

theorem regByte_some_inj : ∀ {i j : Fin 8}, regByte (some i) = regByte (some j) → i = j := by decide

/-- An instruction all of whose macro-operations have chosen their registers. -/
theorem Built.wellFormed {n : Nat} {type : SuperscalarInstructionType}
    {current : SuperscalarInstruction} (h : Built n n type current)
    (hDone : current.info.ops.length ≤ n) : WellFormedInstruction current.toInstr := by
  have hOps := ofType_srcOp type
  have hDst : current.info.dstOp < n := by
    rw [h.info] at hDone ⊢
    have := hOps.2.2
    omega
  obtain ⟨d, hd, hReuse, hDisplacement⟩ := h.dest hDst
  have hDstByte : current.toInstr.dst = regByte (some d) := congrArg regByte hd
  refine ⟨type, toInstr_superscalarType h.info, ?_, ?_, fun hFour => ?_, fun hAdd => ?_,
    h.rotation, fun hRcp => not_power_of_isZeroOrPowerOf2 (h.divisor hRcp)⟩
  · rw [hDstByte]
    exact regByte_some_lt d
  · change regByte (if current.src.isSome then current.src else current.dst) < 8
    cases hSrc : current.src with
    | none => exact hd ▸ regByte_some_lt d
    | some src => exact regByte_some_lt src
  · -- these four have chosen a source, before the destination
    have hSource : current.src.isSome := by
      refine h.source 0 ?_ ?_
      · rw [h.info]
        rcases hFour with rfl | rfl | rfl | rfl <;> rfl
      · omega
    obtain ⟨src, hSrc⟩ := Option.isSome_iff_exists.mp hSource
    have hNoReuse : current.canReuse = false := by
      rw [Bool.eq_false_iff, ne_eq, h.reuse]
      rcases hFour with rfl | rfl | rfl | rfl <;> decide
    have hSrcByte : current.toInstr.src = regByte (some src) := by
      change regByte (if current.src.isSome then current.src else current.dst) = _
      rw [hSrc]
      rfl
    rw [hSrcByte, hDstByte]
    exact fun hEq => hReuse hNoReuse (regByte_some_inj hEq ▸ hSrc)
  · rw [hDstByte]
    exact fun hEq => hDisplacement hAdd (regByte_some_inj (j := 5) hEq)

end ArmRx.Vm
