import ArmRx.Lib.Commute
import ArmRx.Vm.Bytecode

/-!
# Instruction footprints

Embeds `InstrFootprint`, `computeFootprint` and `hasHazard` of
`src/jit_compiler_a64.cpp` and shows them sound: the interpreter's effect of a
non-barrier instruction stays inside its footprint, so two instructions
without a hazard commute.

* `executeInstr_hasFootprint` — the footprint is an over-approximation.
* `executeInstr_commute` — no hazard, then the order does not matter.
-/

namespace ArmRx.Jit

open ArmRx.Lib ArmRx.Vm

/-- `struct InstrFootprint`; bit `i` of a mask stands for register `i`. -/
structure InstrFootprint where
  intRead : BitVec 8 := 0
  intWrite : BitVec 8 := 0
  fRead : BitVec 8 := 0
  fWrite : BitVec 8 := 0
  eRead : BitVec 8 := 0
  eWrite : BitVec 8 := 0
  isMemoryOp : Bool := false
  isBarrier : Bool := false
  isCbranch : Bool := false
  isLongLatency : Bool := false
  isImulRcp : Bool := false
  deriving DecidableEq, Repr

/-- `static_cast<uint8_t>(1u << k)`. -/
def bit (k : BitVec 8) : BitVec 8 := (1#32 <<< k.toNat).setWidth 8

/-- `computeFootprint`. The caller has reduced `dst` and `src` modulo 8. -/
def computeFootprint (instr : Instruction) (type : InstructionType) : InstrFootprint :=
  let dst8 := instr.dst
  let src8 := instr.src
  let dst4 := dst8 % 4
  match type with
  | .iaddRs | .isubR | .imulR | .imulhR | .ismulhR | .ixorR | .irorR | .irolR =>
    { intRead := bit dst8 ||| bit src8
      intWrite := bit dst8
      isLongLatency := type = .imulR || type = .imulhR || type = .ismulhR }
  | .iaddM | .isubM | .imulM | .imulhM | .ismulhM | .ixorM =>
    { intRead := bit dst8 ||| bit src8
      intWrite := bit dst8
      isMemoryOp := true }
  | .imulRcp =>
    { intRead := bit dst8
      intWrite := bit dst8
      isLongLatency := true }
  | .inegR =>
    { intRead := bit dst8
      intWrite := bit dst8 }
  | .iswapR =>
    -- conservative: with `src == dst` this is a runtime no-op
    { intRead := bit dst8 ||| bit src8
      intWrite := bit dst8 ||| bit src8 }
  | .fswapR =>
    if dst8 < 4 then { fRead := bit dst8, fWrite := bit dst8 }
    else { eRead := bit (dst8 - 4), eWrite := bit (dst8 - 4) }
  | .faddR | .fsubR | .fscalR =>
    { fRead := bit dst4, fWrite := bit dst4 }
  | .fmulR | .fsqrtR =>
    { eRead := bit dst4, eWrite := bit dst4 }
  | .faddM | .fsubM =>
    { fRead := bit dst4, fWrite := bit dst4
      intRead := bit src8
      isMemoryOp := true }
  | .fdivM =>
    { eRead := bit dst4, eWrite := bit dst4
      intRead := bit src8
      isMemoryOp := true }
  | .cbranch =>
    { intRead := bit dst8, intWrite := bit dst8, isBarrier := true, isCbranch := true }
  | .cfround =>
    { intRead := bit src8, isBarrier := true }
  | .istore =>
    { intRead := bit dst8 ||| bit src8, isMemoryOp := true }
  | .nop => {}

/-- `hasHazard`. -/
def hasHazard (a b : InstrFootprint) : Bool :=
  if a.isBarrier || b.isBarrier then true
  else if a.isMemoryOp && b.isMemoryOp then true
  else if a.intWrite &&& b.intRead != 0 || a.intRead &&& b.intWrite != 0 ||
      a.intWrite &&& b.intWrite != 0 then true
  else if a.fWrite &&& b.fRead != 0 || a.fRead &&& b.fWrite != 0 ||
      a.fWrite &&& b.fWrite != 0 then true
  else if a.eWrite &&& b.eRead != 0 || a.eRead &&& b.eWrite != 0 ||
      a.eWrite &&& b.eWrite != 0 then true
  else false

/-- The normalisation pass of `emitPrologueMix`. -/
def normalize (instr : Instruction) : Instruction :=
  { instr with src := instr.src % 8, dst := instr.dst % 8 }

/-- The footprint the scheduler works with. -/
def footprintOf (instr : Instruction) : InstrFootprint :=
  computeFootprint (normalize instr) (normalize instr).type

/-! ## The locations of the VM state -/

/-- What an instruction can read or write. -/
inductive Loc where
  | r (i : Fin 8)
  | f (i : Fin 4)
  | e (i : Fin 4)
  | a
  | scratchpad
  | rounding

/-- The content of a location. -/
def Loc.Val : Loc → Type
  | .r _ => BitVec 64
  | .f _ | .e _ => FloatRegister
  | .a => Fin 4 → FloatRegister
  | .scratchpad => ByteStore
  | .rounding => BitVec 2 × List (BitVec 2)

/-- Read a location. -/
def observe : (l : Loc) → VmState → l.Val
  | .r i, s => s.r i
  | .f i, s => s.f i
  | .e i, s => s.e i
  | .a, s => s.a
  | .scratchpad, s => s.scratchpad
  | .rounding, s => (s.lastRoundingMode, s.roundingHistory)

theorem observe_ext (s t : VmState) (h : ∀ l, observe l s = observe l t) : s = t := by
  have hRound : (s.lastRoundingMode, s.roundingHistory) = (t.lastRoundingMode, t.roundingHistory) :=
    h .rounding
  rw [Prod.mk.injEq] at hRound
  apply VmState.ext
  · exact funext fun i => h (.r i)
  · exact funext fun i => h (.f i)
  · exact funext fun i => h (.e i)
  · exact h .a
  · exact h .scratchpad
  · exact hRound.1
  · exact hRound.2

namespace InstrFootprint

/-- The locations a footprint lets an instruction read. The A registers and
the rounding mode are constant between barriers, and always readable. -/
def reads (fp : InstrFootprint) : Set Loc
  | .r i => fp.intRead.getLsbD i
  | .f i => fp.fRead.getLsbD i
  | .e i => fp.eRead.getLsbD i
  | .a => True
  | .scratchpad => fp.isMemoryOp
  | .rounding => True

/-- The locations a footprint lets an instruction write. -/
def writes (fp : InstrFootprint) : Set Loc
  | .r i => fp.intWrite.getLsbD i
  | .f i => fp.fWrite.getLsbD i
  | .e i => fp.eWrite.getLsbD i
  | .a => False
  | .scratchpad => fp.isMemoryOp
  | .rounding => False

variable {fp : InstrFootprint}

@[simp] theorem r_mem_reads {i : Fin 8} : Loc.r i ∈ fp.reads ↔ fp.intRead.getLsbD i = true := Iff.rfl
@[simp] theorem f_mem_reads {i : Fin 4} : Loc.f i ∈ fp.reads ↔ fp.fRead.getLsbD i = true := Iff.rfl
@[simp] theorem e_mem_reads {i : Fin 4} : Loc.e i ∈ fp.reads ↔ fp.eRead.getLsbD i = true := Iff.rfl
@[simp] theorem a_mem_reads : Loc.a ∈ fp.reads := trivial
@[simp] theorem scratchpad_mem_reads : Loc.scratchpad ∈ fp.reads ↔ fp.isMemoryOp = true := Iff.rfl
@[simp] theorem rounding_mem_reads : Loc.rounding ∈ fp.reads := trivial

@[simp] theorem r_mem_writes {i : Fin 8} : Loc.r i ∈ fp.writes ↔ fp.intWrite.getLsbD i = true :=
  Iff.rfl
@[simp] theorem f_mem_writes {i : Fin 4} : Loc.f i ∈ fp.writes ↔ fp.fWrite.getLsbD i = true :=
  Iff.rfl
@[simp] theorem e_mem_writes {i : Fin 4} : Loc.e i ∈ fp.writes ↔ fp.eWrite.getLsbD i = true :=
  Iff.rfl
@[simp] theorem a_mem_writes : Loc.a ∈ fp.writes ↔ False := Iff.rfl
@[simp] theorem scratchpad_mem_writes : Loc.scratchpad ∈ fp.writes ↔ fp.isMemoryOp = true := Iff.rfl
@[simp] theorem rounding_mem_writes : Loc.rounding ∈ fp.writes ↔ False := Iff.rfl

end InstrFootprint

/-! ## The masks -/


theorem bit_getLsbD (k : BitVec 8) {i : Nat} (hi : i < 8) :
    (bit k).getLsbD i = decide (i = k.toNat) := by
  by_cases h : i < k.toNat
  · have hne : i ≠ k.toNat := by omega
    simp [bit, h, hne]
  · by_cases hik : i = k.toNat
    · subst hik
      simp [bit, hi]
    · have : i - k.toNat ≠ 0 := by omega
      simp [bit, hik, this]

theorem intWrite_le_intRead (instr : Instruction) (type : InstructionType) (i : Nat)
    (h : (computeFootprint instr type).intWrite.getLsbD i = true) :
    (computeFootprint instr type).intRead.getLsbD i = true := by
  cases type <;> simp only [computeFootprint] at h ⊢
  case fswapR => split at h <;> simp at h
  all_goals simp_all

theorem fpWrite_eq_fpRead (instr : Instruction) (type : InstructionType) :
    (computeFootprint instr type).fWrite = (computeFootprint instr type).fRead ∧
      (computeFootprint instr type).eWrite = (computeFootprint instr type).eRead := by
  cases type <;> simp only [computeFootprint, and_self]
  split <;> exact ⟨rfl, rfl⟩

theorem writes_subset_reads (instr : Instruction) (type : InstructionType) :
    (computeFootprint instr type).writes ⊆ (computeFootprint instr type).reads := by
  obtain ⟨hF, hE⟩ := fpWrite_eq_fpRead instr type
  intro l hl
  cases l with
  | r i => exact intWrite_le_intRead instr type i hl
  | f i => rwa [InstrFootprint.f_mem_reads, ← hF]
  | e i => rwa [InstrFootprint.e_mem_reads, ← hE]
  | a => trivial
  | scratchpad => exact hl
  | rounding => trivial

/-- The states agree on everything the footprint reads. -/
def Agree (fp : InstrFootprint) (s t : VmState) : Prop :=
  ∀ l ∈ fp.reads, observe l s = observe l t

namespace Agree

variable {fp : InstrFootprint} {s t : VmState}

theorem r_eq (h : Agree fp s t) {i : Fin 8} (hi : fp.intRead.getLsbD i = true) : s.r i = t.r i :=
  h (.r i) hi

theorem scratchpad_eq (h : Agree fp s t) (hm : fp.isMemoryOp = true) :
    s.scratchpad = t.scratchpad :=
  h .scratchpad hm

theorem a_eq (h : Agree fp s t) : s.a = t.a := h .a trivial

theorem roundingMode_eq (h : Agree fp s t) : s.lastRoundingMode = t.lastRoundingMode :=
  (Prod.mk.inj (h .rounding trivial)).1

end Agree

/-- The location an `fdst` pointer names. -/
def floatLoc : FloatDest → Loc
  | .f i => .f i
  | .e i => .e i

section Effects

variable {fp : InstrFootprint} (hSub : fp.writes ⊆ fp.reads)
include hSub

/-- Writing one integer register of the write mask. -/
theorem hasFootprint_setR {d : Fin 8} {g : VmState → BitVec 64}
    (hd : fp.intWrite.getLsbD d = true) (hg : ∀ s t, Agree fp s t → g s = g t) :
    HasFootprint observe (fun s => s.setR d (g s)) fp.reads fp.writes := by
  refine (HasFootprint.single (d := .r d) ?_ ?_).mono (Set.Subset.refl _) ?_ ?_
  · intro s l hl
    cases l with
    | r i =>
      have hne : i ≠ d := fun h => hl (by rw [h])
      exact Function.update_of_ne hne _ _
    | _ => rfl
  · intro s t hst
    simp only [observe, VmState.setR_r, Function.update_self]
    exact hg s t hst
  · exact Set.singleton_subset_iff.mpr hd
  · exact fun l hl _ => hSub hl

/-- Exchanging two integer registers of the write mask. -/
theorem hasFootprint_swap {d j : Fin 8} (hd : fp.intWrite.getLsbD d = true)
    (hj : fp.intWrite.getLsbD j = true) :
    HasFootprint observe (fun s => (s.setR j (s.r d)).setR d (s.r j)) fp.reads fp.writes := by
  have hdw : Loc.r d ∈ fp.writes := hd
  have hjw : Loc.r j ∈ fp.writes := hj
  refine ⟨?_, ?_⟩
  · intro s l hl
    cases l with
    | r i =>
      have hid : i ≠ d := fun h => hl (h ▸ hdw)
      have hij : i ≠ j := fun h => hl (h ▸ hjw)
      simp only [observe, VmState.setR_r, Function.update_of_ne hid, Function.update_of_ne hij]
      rfl
    | _ => rfl
  · intro s t hst l hl
    cases l with
    | r i =>
      have hi : s.r i = t.r i := hst (.r i) (hSub hl)
      have hd' : s.r d = t.r d := hst (.r d) (hSub hdw)
      have hj' : s.r j = t.r j := hst (.r j) (hSub hjw)
      simp only [observe, VmState.setR_r, Function.update_apply, hi, hd', hj']
      rfl
    | f i => exact hst (.f i) (hSub hl)
    | e i => exact hst (.e i) (hSub hl)
    | a => exact hst .a trivial
    | scratchpad => exact hst .scratchpad (hSub hl)
    | rounding => exact hst .rounding trivial

/-- Writing the scratchpad. -/
theorem hasFootprint_scratchpad {g : VmState → ByteStore}
    (hm : fp.isMemoryOp = true) (hg : ∀ s t, Agree fp s t → g s = g t) :
    HasFootprint observe (fun s => { s with scratchpad := g s }) fp.reads fp.writes := by
  refine (HasFootprint.single (d := .scratchpad) ?_ ?_).mono (Set.Subset.refl _) ?_ ?_
  · intro s l hl
    cases l with
    | scratchpad => exact absurd rfl hl
    | _ => rfl
  · exact fun s t hst => hg s t hst
  · exact Set.singleton_subset_iff.mpr hm
  · exact fun l hl _ => hSub hl

/-- Writing one F or E register of the write masks. -/
theorem hasFootprint_writeFdst {ibc : InstructionByteCode} {g : VmState → FloatRegister}
    (hd : floatLoc ibc.fdst ∈ fp.writes) (hg : ∀ s t, Agree fp s t → g s = g t) :
    HasFootprint observe (fun s => ibc.writeFdst s (g s)) fp.reads fp.writes := by
  refine (HasFootprint.single (d := floatLoc ibc.fdst) ?_ ?_).mono (Set.Subset.refl _)
    (Set.singleton_subset_iff.mpr hd) (fun l hl _ => hSub hl)
  · intro s l hl
    unfold InstructionByteCode.writeFdst
    cases hDest : ibc.fdst <;> cases l <;> first
      | rfl
      | exact Function.update_of_ne (fun h => hl (by rw [h, hDest]; rfl)) _ _
  · intro s t hst
    unfold InstructionByteCode.writeFdst
    cases ibc.fdst <;>
      simp only [floatLoc, observe, VmState.setF, VmState.setE, Function.update_self] <;>
      exact hg s t hst

end Effects

namespace Agree

variable {fp : InstrFootprint} {s t : VmState}

theorem readIsrc_eq (h : Agree fp s t) {ibc : InstructionByteCode}
    (hi : ∀ i, ibc.isrc = .reg i → fp.intRead.getLsbD i = true) :
    ibc.readIsrc s = ibc.readIsrc t := by
  unfold InstructionByteCode.readIsrc
  cases hSrc : ibc.isrc with
  | reg i => exact h.r_eq (hi i hSrc)
  | imm => rfl
  | zero => rfl

theorem readFdst_eq (h : Agree fp s t) {ibc : InstructionByteCode}
    (hd : floatLoc ibc.fdst ∈ fp.reads) : ibc.readFdst s = ibc.readFdst t := by
  unfold InstructionByteCode.readFdst
  cases hDest : ibc.fdst with
  | f i => exact h (.f i) (by rwa [hDest] at hd)
  | e i => exact h (.e i) (by rwa [hDest] at hd)

theorem getScratchpadAddress_eq (h : Agree fp s t) {ibc : InstructionByteCode}
    (hi : ∀ i, ibc.isrc = .reg i → fp.intRead.getLsbD i = true) :
    ibc.getScratchpadAddress s = ibc.getScratchpadAddress t := by
  unfold InstructionByteCode.getScratchpadAddress
  rw [h.readIsrc_eq hi]

theorem loadOperand_eq (h : Agree fp s t) {ibc : InstructionByteCode} (hm : fp.isMemoryOp = true)
    (hi : ∀ i, ibc.isrc = .reg i → fp.intRead.getLsbD i = true) :
    loadOperand ibc s = loadOperand ibc t := by
  unfold loadOperand
  rw [h.getScratchpadAddress_eq hi, h.scratchpad_eq hm]

theorem loadFloatOperand_eq (h : Agree fp s t) {ibc : InstructionByteCode}
    (hm : fp.isMemoryOp = true)
    (hi : ∀ i, ibc.isrc = .reg i → fp.intRead.getLsbD i = true) :
    loadFloatOperand ibc s = loadFloatOperand ibc t := by
  unfold loadFloatOperand
  rw [h.getScratchpadAddress_eq hi, h.scratchpad_eq hm]

end Agree

section Soundness

variable {fp : InstrFootprint} {ibc : InstructionByteCode}

/-- What a footprint has to grant the bytecode it describes. Each field is
asked only of the instruction types that use that operand. -/
structure Grants (fp : InstrFootprint) (ibc : InstructionByteCode) : Prop where
  sub : fp.writes ⊆ fp.reads
  notBarrier : ibc.type ≠ .cbranch ∧ ibc.type ≠ .cfround
  idst : ibc.type.hasIdst → fp.intWrite.getLsbD ibc.idst = true
  idstRead : ibc.type = .istore → fp.intRead.getLsbD ibc.idst = true
  isrc : ibc.type.hasIsrc → ∀ i, ibc.isrc = .reg i → fp.intRead.getLsbD i = true
  isrcWrite : ibc.type = .iswapR → ∀ i, ibc.isrc = .reg i → fp.intWrite.getLsbD i = true
  fdst : ibc.type.hasFdst → floatLoc ibc.fdst ∈ fp.writes
  memory : ibc.type.isMemory → fp.isMemoryOp = true

/-- Bytecode stays inside every footprint that grants its operands. -/
theorem Grants.hasFootprint (h : Grants fp ibc) (ops : FpOps) (eMask : FloatRegister) :
    HasFootprint observe (executeInstruction ops eMask ibc) fp.reads fp.writes := by
  -- every type is one of a few shapes: nothing, a register, a swap, a float, the scratchpad
  have hNop : HasFootprint observe (fun s : VmState => s) fp.reads fp.writes :=
    (HasFootprint.id fp.reads).mono (Set.Subset.refl _) (Set.empty_subset _)
      (fun l hl _ => h.sub hl)
  have hDst {s t} (ht : ibc.type.hasIdst = true) (hst : Agree fp s t) :
      s.r ibc.idst = t.r ibc.idst := by
    have hMem : Loc.r ibc.idst ∈ fp.writes := h.idst ht
    exact hst.r_eq (h.sub hMem)
  have hFdst {s t} (ht : ibc.type.hasFdst = true) (hst : Agree fp s t) :
      ibc.readFdst s = ibc.readFdst t := hst.readFdst_eq (h.sub (h.fdst ht))
  have hFn : executeInstruction ops eMask ibc = fun s => executeInstruction ops eMask ibc s := rfl
  rw [hFn]
  unfold executeInstruction
  obtain ⟨hNotBranch, hNotRound⟩ := h.notBarrier
  have hIdst := h.idst
  have hIsrc := h.isrc
  have hMemory := h.memory
  have hFdstW := h.fdst
  cases hType : ibc.type with
  | cbranch => exact absurd hType hNotBranch
  | cfround => exact absurd hType hNotRound
  | imulRcp | nop => exact hNop
  | iaddRs | isubR | imulR | imulhR | ismulhR | ixorR | irorR | irolR =>
    rw [hType] at hIdst hIsrc hDst
    refine hasFootprint_setR h.sub (hIdst rfl) fun s t hst => ?_
    rw [hDst rfl hst, hst.readIsrc_eq (hIsrc rfl)]
  | inegR =>
    rw [hType] at hIdst hDst
    refine hasFootprint_setR h.sub (hIdst rfl) fun s t hst => ?_
    rw [hDst rfl hst]
  | iaddM | isubM | imulM | imulhM | ismulhM | ixorM =>
    rw [hType] at hIdst hIsrc hDst hMemory
    refine hasFootprint_setR h.sub (hIdst rfl) fun s t hst => ?_
    rw [hDst rfl hst, hst.loadOperand_eq (hMemory rfl) (hIsrc rfl)]
  | iswapR =>
    rw [hType] at hIdst
    cases hSrc : ibc.isrc with
    | reg j => exact hasFootprint_swap h.sub (hIdst rfl) (h.isrcWrite hType j hSrc)
    | imm | zero => exact hNop
  | fswapR | fscalR | fsqrtR =>
    rw [hType] at hFdst hFdstW
    refine hasFootprint_writeFdst h.sub (hFdstW rfl) fun s t hst => ?_
    simp only [hFdst rfl hst, hst.roundingMode_eq]
  | faddR | fsubR | fmulR =>
    rw [hType] at hFdst hFdstW
    refine hasFootprint_writeFdst h.sub (hFdstW rfl) fun s t hst => ?_
    rw [hFdst rfl hst, hst.roundingMode_eq, hst.a_eq]
  | faddM | fsubM | fdivM =>
    rw [hType] at hFdst hFdstW hIsrc hMemory
    refine hasFootprint_writeFdst h.sub (hFdstW rfl) fun s t hst => ?_
    rw [hFdst rfl hst, hst.roundingMode_eq, hst.loadFloatOperand_eq (hMemory rfl) (hIsrc rfl)]
  | istore =>
    rw [hType] at hIsrc hMemory
    refine hasFootprint_scratchpad h.sub (hMemory rfl) fun s t hst => ?_
    unfold InstructionByteCode.storeAddress
    rw [hst.readIsrc_eq (hIsrc rfl), hst.scratchpad_eq (hMemory rfl),
      hst.r_eq (h.idstRead hType)]
end Soundness

section Masks

variable (instr : Instruction)

theorem bit_dst : (bit (normalize instr).dst).getLsbD (regOf instr.dst) = true := by
  rw [bit_getLsbD _ (regOf instr.dst).isLt]
  simp [normalize, regOf]

theorem bit_src : (bit (normalize instr).src).getLsbD (regOf instr.src) = true := by
  rw [bit_getLsbD _ (regOf instr.src).isLt]
  simp [normalize, regOf]

theorem bit_dst4 : (bit ((normalize instr).dst % 4)).getLsbD (fregOf instr.dst) = true := by
  have h := (fregOf instr.dst).isLt
  rw [bit_getLsbD _ (by omega)]
  simp [normalize, fregOf]

theorem bits_dst :
    (bit (normalize instr).dst ||| bit (normalize instr).src).getLsbD (regOf instr.dst) = true := by
  rw [BitVec.getLsbD_or, bit_dst, Bool.true_or]

theorem bits_src :
    (bit (normalize instr).dst ||| bit (normalize instr).src).getLsbD (regOf instr.src) = true := by
  rw [BitVec.getLsbD_or, bit_src, Bool.or_true]

end Masks

theorem footprintOf_eq {instr : Instruction} {type : InstructionType} (h : instr.type = type) :
    footprintOf instr = computeFootprint (normalize instr) type := by
  unfold footprintOf
  rw [← h]
  rfl

section GrantFamilies

variable {fp : InstrFootprint} {ibc : InstructionByteCode} {instr : Instruction}

/-- Integer operations: `dst` updated, `dst` and `src` read. -/
theorem grants_int (hT : ibc.type = instr.type)
    (hType : instr.type ≠ .cbranch ∧ instr.type ≠ .cfround ∧ instr.type ≠ .istore ∧
      instr.type ≠ .iswapR ∧ instr.type.hasFdst = false)
    (hSub : fp.writes ⊆ fp.reads)
    (hRead : fp.intRead = bit (normalize instr).dst ||| bit (normalize instr).src)
    (hWrite : fp.intWrite = bit (normalize instr).dst)
    (hMem : instr.type.isMemory = true → fp.isMemoryOp = true)
    (hIdst : ibc.idst = regOf instr.dst)
    (hIsrc : ∀ i, ibc.isrc = .reg i → i = regOf instr.src) : Grants fp ibc := by
  rw [← hT] at hType hMem
  obtain ⟨hB, hC, hS, hW, hF⟩ := hType
  refine ⟨hSub, ⟨hB, hC⟩, ?_, fun h => absurd h hS, ?_, fun h => absurd h hW, ?_, hMem⟩
  · intro _
    rw [hWrite, hIdst]
    exact bit_dst instr
  · intro _ i hi
    rw [hRead, hIsrc i hi]
    exact bits_src instr
  · intro h
    rw [hF] at h
    cases h

/-- Floating-point operations: `fdst` updated, `src` at most an address. -/
theorem grants_float (hSub : fp.writes ⊆ fp.reads) (hType : ibc.type.hasFdst = true)
    (hFdst : floatLoc ibc.fdst ∈ fp.writes)
    (hMem : ibc.type.isMemory = true → fp.isMemoryOp = true)
    (hIsrc : ibc.type.hasIsrc = true → ∀ i, ibc.isrc = .reg i → fp.intRead.getLsbD i = true) :
    Grants fp ibc := by
  refine ⟨hSub, ⟨?_, ?_⟩, ?_, ?_, hIsrc, ?_, fun _ => hFdst, hMem⟩ <;>
    intro h <;> cases hT : ibc.type <;> simp_all [InstructionType.hasFdst, InstructionType.hasIdst]

end GrantFamilies

/-- `FSWAP_R` distinguishes F from E by `dst % 8`, as the interpreter does. -/
theorem fswapR_fdst (instr : Instruction) :
    floatLoc (hFswapR instr 0 fun _ => -1).1.fdst ∈
      (computeFootprint (normalize instr) .fswapR).writes := by
  have hDst : (normalize instr).dst.toNat = instr.dst.toNat % 8 := by simp [normalize]
  have hLt : (normalize instr).dst < 4 ↔ (regOf instr.dst).val < 4 := by
    rw [BitVec.lt_def, hDst]
    rfl
  have hReg : (regOf instr.dst).val = instr.dst.toNat % 8 := rfl
  have hFreg : (fregOf instr.dst).val = instr.dst.toNat % 4 := rfl
  simp only [hFswapR, computeFootprint, hLt]
  split
  · refine (bit_getLsbD _ (by omega)).trans ?_
    rw [decide_eq_true_iff, hDst]
    omega
  · refine (bit_getLsbD _ (by omega)).trans ?_
    have hSub : ((normalize instr).dst - 4).toNat = instr.dst.toNat % 8 - 4 := by
      rw [BitVec.toNat_sub_of_le]
      · rw [hDst]
        rfl
      · rw [BitVec.le_def, hDst]
        show 4 ≤ _
        omega
    rw [decide_eq_true_iff, hSub]
    omega

theorem compileMemOp_isrc (instr : Instruction) (type : InstructionType) (i : Fin 8)
    (h : (compileMemOp instr type).isrc = .reg i) : i = regOf instr.src := by
  unfold compileMemOp at h
  split at h
  · exact (IntSource.reg.inj h).symm
  · cases h

theorem compileAluReg_isrc (instr : Instruction) (type : InstructionType) (imm : BitVec 64)
    (i : Fin 8) (h : (compileAluReg instr type imm).isrc = .reg i) : i = regOf instr.src := by
  unfold compileAluReg at h
  split at h
  · exact (IntSource.reg.inj h).symm
  · cases h

theorem compileMemOp_type_idst (instr : Instruction) (type : InstructionType) :
    (compileMemOp instr type).type = type ∧ (compileMemOp instr type).idst = regOf instr.dst := by
  unfold compileMemOp
  split <;> exact ⟨rfl, rfl⟩

theorem compileAluReg_type_idst (instr : Instruction) (type : InstructionType) (imm : BitVec 64) :
    (compileAluReg instr type imm).type = type ∧
      (compileAluReg instr type imm).idst = regOf instr.dst := by
  unfold compileAluReg
  split <;> exact ⟨rfl, rfl⟩

/-- A bytecode that compiled to nothing is within any footprint. -/
theorem grants_nop {fp : InstrFootprint} (hSub : fp.writes ⊆ fp.reads) : Grants fp {} := by
  refine ⟨hSub, ⟨?_, ?_⟩, ?_, ?_, ?_, ?_, ?_, ?_⟩ <;> intro h <;> cases h

/-- The footprint the scheduler computes for a non-barrier grants its bytecode
every operand. -/
theorem footprintOf_grants {instr : Instruction} (h : (footprintOf instr).isBarrier = false) :
    Grants (footprintOf instr) (bytecodeOf instr) := by
  have hSub : (footprintOf instr).writes ⊆ (footprintOf instr).reads := writes_subset_reads _ _
  cases hType : instr.type <;> rw [footprintOf_eq hType, bytecodeOf_of_type hType] <;>
    rw [footprintOf_eq hType] at h hSub
  case cbranch | cfround => simp [computeFootprint] at h
  case nop => exact grants_nop hSub
  case iaddRs | imulhR | ismulhR =>
    exact grants_int hType.symm (by rw [hType]; decide) hSub rfl rfl (by rw [hType]; rintro ⟨⟩) rfl
      (fun i hi => (IntSource.reg.inj hi).symm)
  case iaddM | isubM | imulM | imulhM | ismulhM | ixorM =>
    obtain ⟨hT, hD⟩ := compileMemOp_type_idst instr _
    exact grants_int (hT.trans hType.symm) (by rw [hType]; decide) hSub rfl rfl (fun _ => rfl) hD
      (compileMemOp_isrc instr _)
  case isubR | imulR | ixorR | irorR | irolR =>
    obtain ⟨hT, hD⟩ := compileAluReg_type_idst instr _ _
    exact grants_int (hT.trans hType.symm) (by rw [hType]; decide) hSub rfl rfl
      (by rw [hType]; rintro ⟨⟩) hD (compileAluReg_isrc instr _ _)
  case imulRcp =>
    -- a real reciprocal multiplies `dst` by an immediate, the rest compile to nothing
    simp only [kCompileHandlers, hImulRcp]
    split
    · refine ⟨hSub, ⟨?_, ?_⟩, fun _ => bit_dst instr, ?_, ?_, ?_, ?_, ?_⟩
      case refine_4 => rintro _ i ⟨⟩
      all_goals rintro ⟨⟩
    · exact grants_nop hSub
  case inegR =>
    refine ⟨hSub, ⟨?_, ?_⟩, fun _ => bit_dst instr, ?_, ?_, ?_, ?_, ?_⟩ <;> rintro ⟨⟩
  case iswapR =>
    simp only [kCompileHandlers, hIswapR]
    split
    · have hSrc (i : Fin 8) (hi : IntSource.reg (regOf instr.src) = .reg i) :
          (bit (normalize instr).dst ||| bit (normalize instr).src).getLsbD i = true := by
        rw [← IntSource.reg.inj hi]
        exact bits_src instr
      refine ⟨hSub, ⟨?_, ?_⟩, fun _ => bits_dst instr, ?_, fun _ => hSrc, fun _ => hSrc, ?_, ?_⟩ <;>
        rintro ⟨⟩
    · exact grants_nop hSub
  case fswapR =>
    refine grants_float hSub rfl (fswapR_fdst instr) ?_ ?_ <;> rintro ⟨⟩
  case faddR | fsubR | fscalR | fmulR | fsqrtR =>
    refine grants_float hSub rfl (bit_dst4 instr) ?_ ?_ <;> rintro ⟨⟩
  case faddM | fsubM | fdivM =>
    refine grants_float hSub rfl (bit_dst4 instr) (fun _ => rfl) fun _ i hi => ?_
    rw [← IntSource.reg.inj hi]
    exact bit_src instr
  case istore =>
    -- the address reads `dst` too, and nothing but memory is written
    refine ⟨hSub, ⟨?_, ?_⟩, ?_, fun _ => bits_dst instr, fun _ i hi => ?_, ?_, ?_, fun _ => rfl⟩
    case refine_4 =>
      rw [← IntSource.reg.inj hi]
      exact bits_src instr
    all_goals rintro ⟨⟩

/-- The footprint of a non-barrier over-approximates what the interpreter does
for it. -/
theorem executeInstr_hasFootprint {instr : Instruction} (ops : FpOps) (eMask : FloatRegister)
    (h : (footprintOf instr).isBarrier = false) :
    HasFootprint observe (executeInstruction ops eMask (bytecodeOf instr))
      (footprintOf instr).reads (footprintOf instr).writes :=
  (footprintOf_grants h).hasFootprint ops eMask

/-- Masks whose conjunction is zero share no bit. -/
theorem no_common_bit {x y : BitVec 8} (h : (x &&& y != 0) = false) {i : Nat}
    (hx : x.getLsbD i = true) (hy : y.getLsbD i = true) : False := by
  have hAnd : x &&& y = 0 := by simpa using h
  have hBit := congrArg (·.getLsbD i) hAnd
  simp [hx, hy] at hBit

/-- What `hasHazard` rules out. -/
theorem not_hasHazard {a b : InstrFootprint} (h : hasHazard a b = false) :
    a.isBarrier = false ∧ b.isBarrier = false ∧
      (∀ l ∈ a.writes, l ∉ b.reads) ∧ (∀ l ∈ b.writes, l ∉ a.reads) ∧
      (∀ l ∈ a.writes, l ∉ b.writes) := by
  -- one test after the other, each of which has to fail
  unfold hasHazard at h
  split at h
  · cases h
  rename_i hBar
  split at h
  · cases h
  rename_i hMem
  split at h
  · cases h
  rename_i hInt
  split at h
  · cases h
  rename_i hF
  split at h
  · cases h
  rename_i hE
  simp only [Bool.not_eq_true, Bool.or_eq_false_iff, Bool.and_eq_false_iff] at hBar hMem hInt hF hE
  obtain ⟨⟨hIntWR, hIntRW⟩, hIntWW⟩ := hInt
  obtain ⟨⟨hFWR, hFRW⟩, hFWW⟩ := hF
  obtain ⟨⟨hEWR, hERW⟩, hEWW⟩ := hE
  refine ⟨hBar.1, hBar.2, ?_, ?_, ?_⟩
  · intro l hl hl'
    cases l with
    | r i => exact no_common_bit hIntWR hl hl'
    | f i => exact no_common_bit hFWR hl hl'
    | e i => exact no_common_bit hEWR hl hl'
    | a => exact hl
    | scratchpad => simp_all
    | rounding => exact hl
  · intro l hl hl'
    cases l with
    | r i => exact no_common_bit hIntRW hl' hl
    | f i => exact no_common_bit hFRW hl' hl
    | e i => exact no_common_bit hERW hl' hl
    | a => exact hl
    | scratchpad => simp_all
    | rounding => exact hl
  · intro l hl hl'
    cases l with
    | r i => exact no_common_bit hIntWW hl hl'
    | f i => exact no_common_bit hFWW hl hl'
    | e i => exact no_common_bit hEWW hl hl'
    | a => exact hl
    | scratchpad => simp_all
    | rounding => exact hl

/-- Instructions without a hazard commute. -/
theorem executeInstr_commute {i j : Instruction} (ops : FpOps) (eMask : FloatRegister)
    (h : hasHazard (footprintOf i) (footprintOf j) = false) (s : VmState) :
    executeInstruction ops eMask (bytecodeOf i) (executeInstruction ops eMask (bytecodeOf j) s) =
      executeInstruction ops eMask (bytecodeOf j)
        (executeInstruction ops eMask (bytecodeOf i) s) := by
  obtain ⟨hi, hj, hWR, hRW, hWW⟩ := not_hasHazard h
  exact (executeInstr_hasFootprint ops eMask hi).commute observe_ext
    (executeInstr_hasFootprint ops eMask hj) hWR hRW hWW s

end ArmRx.Jit
