import ArmRx.A64.Run

/-!
# What instructions leave alone

The destination registers of an instruction, and whether it writes memory, the
stack pointer, the flags or `FPCR`. Everything else keeps its value, over one
instruction and over a block; a block's other results are then computed only
for the registers it writes.
-/

namespace ArmRx.A64

/-! ## Destinations -/

/-- General-purpose registers an instruction writes. -/
def Insn.xDests : Insn → List Nat
  | .movz d _ _ | .movn d _ _ | .movk d _ _ | .orrImm d _ _ | .addImm d _ _ | .subImm d _ _
  | .subsImm d _ _ | .addReg d _ _ _ | .subReg d _ _ _ | .subsReg d _ _ | .eorReg d _ _
  | .eorReg32 d _ _ | .orrReg d _ _ | .orrReg32 d _ _ | .andImm d _ _ | .andImm32 d _ _
  | .andsImm d _ _ | .madd d _ _ _ | .umulh d _ _ | .smulh d _ _ | .rorv d _ _ | .extr d _ _ _
  | .ubfx d _ _ _ | .bfi d _ _ _ | .rbit d _ | .mrsFpcr d | .smovS d _ _ | .umovS d _ _ => [d]
  | .ldr t _ _ | .ldrW t _ _ | .ldrReg t _ _ _ | .ldrLit t _ => [t]
  | .strPre _ n _ => [n]
  | .ldrPost t n _ => [t, n]
  | .ldp t u _ _ => [t, u]
  | .bl _ => [30]
  | _ => []

/-- Vector registers an instruction writes. -/
def Insn.vDests : Insn → List Nat
  | .ldrD t _ _ | .ldrDReg t _ _ | .ldrQ t _ _ | .ldrLitQ t _ => [t]
  | .ldpD t u _ _ | .ldpQ t u _ _ => [t, u]
  | .insD d _ _ | .sshll d _ | .scvtf d _ | .bifV d _ _ | .eorV d _ _ | .extV d _ _
  | .faddV d _ _ | .fsubV d _ _ | .fmulV d _ _ | .fdivV d _ _ | .fsqrtV d _ => [d]
  | _ => []

/-- The instruction may write memory. -/
def Insn.stores : Insn → Bool
  | .str _ _ _ | .strPre _ _ _ | .strReg _ _ _ | .stp _ _ _ _ | .stpD _ _ _ _
  | .stpQ _ _ _ _ => true
  | _ => false

/-- The instruction may move the stack pointer. -/
def Insn.movesSp : Insn → Bool
  | .addImm d _ _ | .subImm d _ _ => d = 31
  | .strPre _ n _ | .ldrPost _ n _ => n = 31
  | _ => false

/-- The instruction may set the flags. -/
def Insn.setsFlags : Insn → Bool
  | .subsImm _ _ _ | .subsReg _ _ _ | .andsImm _ _ _ => true
  | _ => false

/-- The instruction may write `FPCR`. -/
def Insn.setsFpcr : Insn → Bool
  | .msrFpcr _ => true
  | _ => false

/-! ## One instruction -/

section One

variable {i : Insn} (fu : FloatUnit) (code : Code) (s : State)

theorem State.setXsp_x_of_ne {s : State} {r d : Nat} {w : BitVec 64} (h : r ≠ d) :
    (s.setXsp d w).x r = s.x r := by
  unfold State.setXsp
  split
  · rfl
  · exact Function.update_of_ne h _ _

theorem State.setXsp_sp_of_ne {s : State} {d : Nat} {w : BitVec 64} (h : d ≠ 31) :
    (s.setXsp d w).sp = s.sp := by
  rw [State.setXsp_of_ne h]
  rfl

@[simp] theorem State.setXsp_v {s : State} {d : Nat} {w : BitVec 64} :
    (s.setXsp d w).v = s.v := by
  unfold State.setXsp
  split <;> rfl

@[simp] theorem State.setXsp_mem {s : State} {d : Nat} {w : BitVec 64} :
    (s.setXsp d w).mem = s.mem := by
  unfold State.setXsp
  split <;> rfl

@[simp] theorem State.setXsp_flags {s : State} {d : Nat} {w : BitVec 64} :
    (s.setXsp d w).flags = s.flags := by
  unfold State.setXsp
  split <;> rfl

@[simp] theorem State.setXsp_fpcr {s : State} {d : Nat} {w : BitVec 64} :
    (s.setXsp d w).fpcr = s.fpcr := by
  unfold State.setXsp
  split <;> rfl

theorem exec_x_of_notMem {r : Nat} (h : r ∉ i.xDests) : (exec fu code i s).x r = s.x r := by
  cases i with
  | addImm | subImm =>
    rw [Insn.xDests, List.mem_singleton] at h
    exact State.setXsp_x_of_ne h
  | strPre =>
    rw [Insn.xDests, List.mem_singleton] at h
    exact State.setXsp_x_of_ne (s := s.setMem _) h
  | ldrPost t n off =>
    simp only [Insn.xDests, List.mem_cons, List.not_mem_nil, or_false, not_or] at h
    exact (State.setXsp_x_of_ne (s := s.setX t _) h.2).trans (Function.update_of_ne h.1 _ _)
  | ldp t u n off =>
    simp only [Insn.xDests, List.mem_cons, List.not_mem_nil, or_false, not_or] at h
    exact (Function.update_of_ne h.2 _ _).trans (Function.update_of_ne h.1 _ _)
  | bCond | cbzW =>
    simp only [exec]
    split <;> rfl
  | str | strReg | stp | ldrD | ldrDReg | ldpD | stpD | ldrQ | ldpQ | stpQ | ldrLitQ | prfm | nop | b
  | ret | insD | sshll | scvtf | bifV | eorV | extV | faddV | fsubV | fmulV | fdivV | fsqrtV
  | msrFpcr => rfl
  | _ =>
    simp only [Insn.xDests, List.mem_singleton] at h
    exact Function.update_of_ne h _ _

theorem exec_v_of_notMem {r : Nat} (h : r ∉ i.vDests) : (exec fu code i s).v r = s.v r := by
  cases i with
  | addImm | subImm | strPre | ldrPost => simp [exec]
  | bCond | cbzW =>
    simp only [exec]
    split <;> rfl
  | ldpD | ldpQ =>
    simp only [Insn.vDests, List.mem_cons, List.not_mem_nil, or_false, not_or] at h
    exact (Function.update_of_ne h.2 _ _).trans (Function.update_of_ne h.1 _ _)
  | ldrD | ldrDReg | ldrQ | ldrLitQ | insD | sshll | scvtf | bifV | eorV | extV | faddV | fsubV
  | fmulV | fdivV | fsqrtV =>
    simp only [Insn.vDests, List.mem_singleton] at h
    exact Function.update_of_ne h _ _
  | _ => rfl

theorem exec_mem_of_not_stores (h : i.stores = false) : (exec fu code i s).mem = s.mem := by
  cases i with
  | addImm | subImm | ldrPost => simp [exec]
  | bCond | cbzW =>
    simp only [exec]
    split <;> rfl
  | str | strPre | strReg | stp | stpD | stpQ => cases h
  | _ => rfl

theorem exec_sp_of_not_movesSp (h : i.movesSp = false) : (exec fu code i s).sp = s.sp := by
  cases i with
  | addImm | subImm =>
    simp only [Insn.movesSp, decide_eq_false_iff_not] at h
    exact State.setXsp_sp_of_ne h
  | strPre =>
    simp only [Insn.movesSp, decide_eq_false_iff_not] at h
    exact State.setXsp_sp_of_ne (s := s.setMem _) h
  | ldrPost t =>
    simp only [Insn.movesSp, decide_eq_false_iff_not] at h
    exact State.setXsp_sp_of_ne (s := s.setX t _) h
  | bCond | cbzW =>
    simp only [exec]
    split <;> rfl
  | _ => rfl

theorem exec_flags_of_not_setsFlags (h : i.setsFlags = false) :
    (exec fu code i s).flags = s.flags := by
  cases i with
  | addImm | subImm | strPre | ldrPost => simp [exec]
  | bCond | cbzW =>
    simp only [exec]
    split <;> rfl
  | subsImm | subsReg | andsImm => cases h
  | _ => rfl

theorem exec_fpcr_of_not_setsFpcr (h : i.setsFpcr = false) :
    (exec fu code i s).fpcr = s.fpcr := by
  cases i with
  | addImm | subImm | strPre | ldrPost => simp [exec]
  | bCond | cbzW =>
    simp only [exec]
    split <;> rfl
  | msrFpcr => cases h
  | _ => rfl

end One

/-! ## Blocks -/

/-- A part of the state that no instruction of a block changes, the block does
not change. -/
theorem execAll_unchanged {α : Type} (part : State → α) {fu : FloatUnit} {code : Code}
    {is : List Insn} (h : ∀ i ∈ is, ∀ s, part (exec fu code i s) = part s) (s : State) :
    part (execAll fu code is s) = part s := by
  induction is generalizing s with
  | nil => rfl
  | cons i is ih =>
    rw [execAll_cons, ih fun j hj => h j (List.mem_cons_of_mem _ hj)]
    exact h i (List.mem_cons_self ..) s

section Blocks

variable {is : List Insn} (fu : FloatUnit) (code : Code) (s : State)

theorem execAll_x {r : Nat} (h : r ∉ is.flatMap Insn.xDests) :
    (execAll fu code is s).x r = s.x r :=
  execAll_unchanged (·.x r) (fun _ hi t =>
    exec_x_of_notMem fu code t fun hr => h (List.mem_flatMap.mpr ⟨_, hi, hr⟩)) s

theorem execAll_v {r : Nat} (h : r ∉ is.flatMap Insn.vDests) :
    (execAll fu code is s).v r = s.v r :=
  execAll_unchanged (·.v r) (fun _ hi t =>
    exec_v_of_notMem fu code t fun hr => h (List.mem_flatMap.mpr ⟨_, hi, hr⟩)) s

theorem execAll_mem (h : is.any Insn.stores = false) : (execAll fu code is s).mem = s.mem :=
  execAll_unchanged (·.mem) (fun i hi t => exec_mem_of_not_stores fu code t
    (by simpa using List.any_eq_false.mp h i hi)) s

theorem execAll_sp (h : is.any Insn.movesSp = false) : (execAll fu code is s).sp = s.sp :=
  execAll_unchanged (·.sp) (fun i hi t => exec_sp_of_not_movesSp fu code t
    (by simpa using List.any_eq_false.mp h i hi)) s

theorem execAll_flags (h : is.any Insn.setsFlags = false) :
    (execAll fu code is s).flags = s.flags :=
  execAll_unchanged (·.flags) (fun i hi t => exec_flags_of_not_setsFlags fu code t
    (by simpa using List.any_eq_false.mp h i hi)) s

theorem execAll_fpcr (h : is.any Insn.setsFpcr = false) :
    (execAll fu code is s).fpcr = s.fpcr :=
  execAll_unchanged (·.fpcr) (fun i hi t => exec_fpcr_of_not_setsFpcr fu code t
    (by simpa using List.any_eq_false.mp h i hi)) s

end Blocks

/-! ## Computing on registers only -/

/-- At most the general-purpose registers `ds` and the program counter differ. -/
structure Keeps (ds : List Nat) (s t : State) : Prop where
  x : ∀ r, r ∉ ds → t.x r = s.x r
  sp : t.sp = s.sp
  v : t.v = s.v
  flags : t.flags = s.flags
  fpcr : t.fpcr = s.fpcr
  mem : t.mem = s.mem

namespace Keeps

variable {ds ds' : List Nat} {s t u : State}

theorem refl (ds : List Nat) (s : State) : Keeps ds s s := ⟨fun _ _ => rfl, rfl, rfl, rfl, rfl, rfl⟩

theorem trans (h : Keeps ds s t) (h' : Keeps ds t u) : Keeps ds s u where
  x r hr := (h'.x r hr).trans (h.x r hr)
  sp := h'.sp.trans h.sp
  v := h'.v.trans h.v
  flags := h'.flags.trans h.flags
  fpcr := h'.fpcr.trans h.fpcr
  mem := h'.mem.trans h.mem

theorem mono (h : Keeps ds s t) (hSub : ∀ r ∈ ds, r ∈ ds') : Keeps ds' s t :=
  { h with x := fun r hr => h.x r fun hIn => hr (hSub r hIn) }

theorem jump (s : State) (k : Nat) :
    Keeps ds s (s.jump k) := ⟨fun _ _ => rfl, rfl, rfl, rfl, rfl, rfl⟩

theorem setX {r : Nat} (s : State) (w : BitVec 64) (hr : r ∈ ds) : Keeps ds s (s.setX r w) where
  x r' hr' := by
    have hNe : r' ≠ r := fun h => hr' (h ▸ hr)
    exact Function.update_of_ne hNe _ _
  sp := rfl
  v := rfl
  flags := rfl
  fpcr := rfl
  mem := rfl

end Keeps

/-- The instruction writes general-purpose registers only. -/
def Insn.registersOnly (i : Insn) : Bool :=
  i.vDests.isEmpty && !i.stores && !i.movesSp && !i.setsFlags && !i.setsFpcr

theorem execAll_keeps {is : List Insn} {ds : List Nat} (fu : FloatUnit) (code : Code) (s : State)
    (hOnly : is.all Insn.registersOnly = true) (hDests : ∀ r ∈ is.flatMap Insn.xDests, r ∈ ds) :
    Keeps ds s (execAll fu code is s) := by
  have hEach (i : Insn) (hi : i ∈ is) : i.vDests = [] ∧ i.stores = false ∧ i.movesSp = false ∧
      i.setsFlags = false ∧ i.setsFpcr = false := by
    have := List.all_eq_true.mp hOnly i hi
    simpa [Insn.registersOnly, and_assoc] using this
  have hNone (p : Insn → Bool) (hp : ∀ i ∈ is, p i = false) : is.any p = false :=
    List.any_eq_false.mpr fun i hi => by simp [hp i hi]
  refine ⟨fun r hr => execAll_x fu code s fun hIn => hr (hDests r hIn), ?_, ?_, ?_, ?_, ?_⟩
  · exact execAll_sp fu code s (hNone _ fun i hi => (hEach i hi).2.2.1)
  · refine funext fun r => execAll_v fu code s fun hIn => ?_
    obtain ⟨i, hi, hr⟩ := List.mem_flatMap.mp hIn
    rw [(hEach i hi).1] at hr
    cases hr
  · exact execAll_flags fu code s (hNone _ fun i hi => (hEach i hi).2.2.2.1)
  · exact execAll_fpcr fu code s (hNone _ fun i hi => (hEach i hi).2.2.2.2)
  · exact execAll_mem fu code s (hNone _ fun i hi => (hEach i hi).2.1)

end ArmRx.A64
