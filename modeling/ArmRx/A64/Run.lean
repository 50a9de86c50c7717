import ArmRx.A64.Insn

/-!
# Runs of A64 code

A run executes the instruction at the program counter, step after step.
Straight-line code is reasoned about as a list: `execAll` runs the list, and
`Block.reaches` says that the machine does the same when the list lies at the
program counter. Longer paths are put together with `Reaches.trans`.
-/

namespace ArmRx.A64

/-- Execute `n` instructions; `none` when there is none at the program counter. -/
def run (fu : FloatUnit) (code : Code) : Nat → State → Option State
  | 0, s => some s
  | n + 1, s =>
    match code.insn s.pc with
    | none => none
    | some i => run fu code n (exec fu code i s)

/-- Some number of instructions leads from `s` to `t`. -/
def Reaches (fu : FloatUnit) (code : Code) (s t : State) : Prop := ∃ n, run fu code n s = some t

section Reaches

variable {fu : FloatUnit} {code : Code} {s t u : State}

theorem Reaches.refl (s : State) : Reaches fu code s s := ⟨0, rfl⟩

theorem run_add (m n : Nat) (s : State) :
    run fu code (m + n) s = (run fu code m s).bind (run fu code n) := by
  induction m generalizing s with
  | zero => simp [run]
  | succ m ih =>
    rw [Nat.add_right_comm, run, run]
    cases code.insn s.pc with
    | none => rfl
    | some i => exact ih _

theorem Reaches.trans (h : Reaches fu code s t) (h' : Reaches fu code t u) :
    Reaches fu code s u := by
  obtain ⟨m, hm⟩ := h
  obtain ⟨n, hn⟩ := h'
  refine ⟨m + n, ?_⟩
  rw [run_add, hm]
  exact hn

theorem Reaches.step {i : Insn} (h : code.insn s.pc = some i) :
    Reaches fu code s (exec fu code i s) := by
  refine ⟨1, ?_⟩
  simp [run, h]

end Reaches

/-! ## Straight-line blocks -/

/-- The instruction only ever continues with the next one. -/
def Insn.straight : Insn → Bool
  | .b _ | .bCond _ _ | .cbzW _ _ | .bl _ | .ret => false
  | _ => true

theorem exec_pc {i : Insn} (h : i.straight = true) (fu : FloatUnit) (code : Code) (s : State) :
    (exec fu code i s).pc = s.pc + 4 := by
  cases i with
  | b | bCond | cbzW | bl | ret => cases h
  | addImm | subImm | strPre | ldrPost => simp [exec]
  | _ => rfl

/-- Execute a list of instructions in order. -/
def execAll (fu : FloatUnit) (code : Code) (is : List Insn) (s : State) : State :=
  is.foldl (fun t i => exec fu code i t) s

@[simp] theorem execAll_nil (fu : FloatUnit) (code : Code) (s : State) :
    execAll fu code [] s = s := rfl

@[simp] theorem execAll_cons (fu : FloatUnit) (code : Code) (i : Insn) (is : List Insn)
    (s : State) : execAll fu code (i :: is) s = execAll fu code is (exec fu code i s) := rfl

theorem execAll_append (fu : FloatUnit) (code : Code) (is js : List Insn) (s : State) :
    execAll fu code (is ++ js) s = execAll fu code js (execAll fu code is s) :=
  List.foldl_append

/-- The data addresses a list of instructions accesses, in order. -/
def accesses (fu : FloatUnit) (code : Code) : List Insn → State → List (BitVec 64)
  | [], _ => []
  | i :: is, s => (i.address s).toList ++ accesses fu code is (exec fu code i s)

@[simp] theorem accesses_nil (fu : FloatUnit) (code : Code) (s : State) :
    accesses fu code [] s = [] := rfl

theorem accesses_cons (fu : FloatUnit) (code : Code) (i : Insn) (is : List Insn) (s : State) :
    accesses fu code (i :: is) s =
      (i.address s).toList ++ accesses fu code is (exec fu code i s) := rfl

theorem accesses_append (fu : FloatUnit) (code : Code) (is js : List Insn) (s : State) :
    accesses fu code (is ++ js) s =
      accesses fu code is s ++ accesses fu code js (execAll fu code is s) := by
  induction is generalizing s with
  | nil => rfl
  | cons i is ih => rw [List.cons_append, accesses_cons, accesses_cons, ih, List.append_assoc,
      execAll_cons]

theorem accesses_eq_nil {fu : FloatUnit} {code : Code} {is : List Insn}
    (h : ∀ i ∈ is, ∀ s, i.address s = none) (s : State) : accesses fu code is s = [] := by
  induction is generalizing s with
  | nil => rfl
  | cons i is ih =>
    rw [accesses_cons, h i (List.mem_cons_self ..), ih fun j hj => h j (List.mem_cons_of_mem _ hj)]
    rfl

/-- The instructions `is` lie at offset `k`. -/
def Block (code : Code) (k : Nat) (is : List Insn) : Prop :=
  ∀ j (h : j < is.length), code.insn (k + 4 * j) = some is[j]

theorem Block.of_eq {code : Code} {k k' : Nat} {is : List Insn} (h : Block code k is)
    (hk : k = k') : Block code k' is := hk ▸ h

theorem Block.head {code : Code} {k : Nat} {i : Insn} {is : List Insn}
    (h : Block code k (i :: is)) : code.insn k = some i := h 0 (Nat.succ_pos _)

theorem Block.tail {code : Code} {k : Nat} {i : Insn} {is : List Insn}
    (h : Block code k (i :: is)) : Block code (k + 4) is := by
  intro j hj
  have := h (j + 1) (Nat.succ_lt_succ hj)
  rwa [show k + 4 * (j + 1) = k + 4 + 4 * j by omega] at this

theorem block_cons {code : Code} {k : Nat} {i : Insn} {is : List Insn}
    (hi : code.insn k = some i) (his : Block code (k + 4) is) : Block code k (i :: is) := by
  intro j hj
  cases j with
  | zero => exact hi
  | succ j =>
    have := his j (Nat.lt_of_succ_lt_succ hj)
    rwa [show k + 4 + 4 * j = k + 4 * (j + 1) by omega] at this

theorem Block.append_left {code : Code} {k : Nat} {is js : List Insn}
    (h : Block code k (is ++ js)) : Block code k is := by
  intro j hj
  have := h j (by rw [List.length_append]; omega)
  rwa [List.getElem_append_left hj] at this

theorem Block.append_right {code : Code} {k : Nat} {is js : List Insn}
    (h : Block code k (is ++ js)) : Block code (k + 4 * is.length) js := by
  intro j hj
  have := h (is.length + j) (by rw [List.length_append]; omega)
  rw [List.getElem_append_right (Nat.le_add_right _ _)] at this
  simp only [Nat.add_sub_cancel_left] at this
  rwa [show k + 4 * (is.length + j) = k + 4 * is.length + 4 * j by omega] at this

theorem block_append {code : Code} {k : Nat} {is js : List Insn} (his : Block code k is)
    (hjs : Block code (k + 4 * is.length) js) : Block code k (is ++ js) := by
  intro j hj
  rw [List.length_append] at hj
  by_cases hIn : j < is.length
  · rw [his j hIn, List.getElem_append_left hIn]
  · have := hjs (j - is.length) (by omega)
    rw [List.getElem_append_right (by omega), ← this]
    congr 1
    omega

/-- A straight-line block at the program counter runs as a list. -/
theorem Block.run {fu : FloatUnit} {code : Code} {is : List Insn} {s : State}
    (h : Block code s.pc is) (hs : ∀ i ∈ is, i.straight = true) :
    ArmRx.A64.run fu code is.length s = some (execAll fu code is s) ∧
      (execAll fu code is s).pc = s.pc + 4 * is.length := by
  induction is generalizing s with
  | nil => exact ⟨rfl, rfl⟩
  | cons i is ih =>
    have hPc := exec_pc (hs i (List.mem_cons_self ..)) fu code s
    have hTail : Block code (exec fu code i s).pc is := hPc ▸ h.tail
    obtain ⟨hRun, hEnd⟩ := ih hTail fun j hj => hs j (List.mem_cons_of_mem _ hj)
    refine ⟨?_, ?_⟩
    · rw [List.length_cons, ArmRx.A64.run, h.head]
      exact hRun
    · rw [execAll_cons, hEnd, hPc, List.length_cons]
      omega

theorem Block.reaches {fu : FloatUnit} {code : Code} {is : List Insn} {s : State}
    (h : Block code s.pc is) (hs : ∀ i ∈ is, i.straight = true) :
    Reaches fu code s (execAll fu code is s) := ⟨_, (h.run hs).1⟩

theorem Block.execAll_pc {fu : FloatUnit} {code : Code} {is : List Insn} {s : State}
    (hs : ∀ i ∈ is, i.straight = true) : (execAll fu code is s).pc = s.pc + 4 * is.length := by
  induction is generalizing s with
  | nil => rfl
  | cons i is ih =>
    rw [execAll_cons, ih fun j hj => hs j (List.mem_cons_of_mem _ hj),
      exec_pc (hs i (List.mem_cons_self ..)), List.length_cons]
    omega

end ArmRx.A64
