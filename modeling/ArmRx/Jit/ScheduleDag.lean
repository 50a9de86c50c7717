import ArmRx.Jit.ScheduleSound

/-!
# The dependence-graph scheduler

Embeds `JitCompilerA64::scheduleProgramDag`, which `emitPrologueMix` uses when
`ARMRX_DAG_SCHED` is set. It walks over the output slots, emits the instruction
of the slot or, behind a multiplication that the slot would wait for, a ready
later one, and falls back to the original order when it is stuck.

It is stuck whenever it has moved anything. Every candidate for a slot has the
number of the slot or a larger one, so an instruction that its own slot passes
over is never looked at again, and the last slot cannot be filled. What is left
of the scheduler is the original order, and there the positions the JIT's
handlers record are the indices the interpreter records.

* `dagSlot_spec` — what one slot does.
* `scheduleProgramDag_eq` — the order returned is the original one.
* `scheduleProgramDag_preserves` — emission in that order.
-/

namespace ArmRx.Jit

open ArmRx.Lib ArmRx.Vm

/-! ## The planner -/

/-- `is_anchor[i]`: the multiplications that take no memory operand. -/
def isDagAnchor (program : List Instruction) (i : Nat) : Bool :=
  let type := (instrAt program i).type
  type == .imulR || type == .imulhR || type == .ismulhR || type == .imulRcp

/-- `is_fixed[i]`: multiplications, barriers and the anchors that the loop over
the `CBRANCH` domains marks, which is the loop of `scheduleProgram`. -/
def isDagFixed (program : List Instruction) (i : Nat) : Bool :=
  isDagAnchor program i || (fpAt program i).isBarrier || (anchorsOf program).contains i

/-- There is an edge from `i` to `j`. -/
def dagEdge (program : List Instruction) (i j : Nat) : Bool :=
  decide (i < j) && hasHazard (fpAt program i) (fpAt program j)

/-- The variables of the loop over the slots. -/
structure DagState where
  emitted : Nat → Bool
  indegree : Nat → Nat
  order : List Nat
  activeAnchor : Option Nat
  budget : Int

/-- The graph, before anything is emitted. -/
def DagState.init (program : List Instruction) (budget : Int) : DagState where
  emitted := fun _ => false
  indegree := fun j => ((List.range program.length).filter fun i => dagEdge program i j).length
  order := []
  activeAnchor := none
  budget

/-- `ready`. -/
def DagState.ready (st : DagState) (i : Nat) : Bool := !st.emitted i && st.indegree i == 0

/-- `commit`, followed by the choice of the active anchor. -/
def DagState.commit (program : List Instruction) (st : DagState) (i : Nat) : DagState :=
  { st with
    emitted := Function.update st.emitted i true
    indegree := fun j =>
      if dagEdge program i j && decide (j < program.length) then st.indegree j - 1
      else st.indegree j
    order := st.order ++ [i]
    activeAnchor := if isDagAnchor program i then some i else none }

/-- An instruction that `j` would cross, from `slot` on, has to stay. -/
def crossesFixed (program : List Instruction) (st : DagState) (slot j : Nat) : Bool :=
  (List.range j).any fun k =>
    decide (slot ≤ k) && !st.emitted k && (isDagFixed program k || srcEqDst program k)

/-- `j` has no hazard with the active anchor, with what it would cross or with
what was emitted although it comes later. -/
def safeToMove (program : List Instruction) (st : DagState) (anchor slot j : Nat) : Bool :=
  !hasHazard (fpAt program anchor) (fpAt program j) &&
  ((List.range j).all fun k =>
    !(decide (slot ≤ k) && !st.emitted k) || !hasHazard (fpAt program k) (fpAt program j)) &&
  st.order.all fun prior =>
    !(decide (j < prior) && hasHazard (fpAt program prior) (fpAt program j))

/-- The search for an instruction to fill the slot, over the indices behind it. -/
def reorderCandidate (program : List Instruction) (st : DagState) (anchor slot : Nat) :
    List Nat → Option Nat
  | [] => none
  | j :: js =>
    if isDagFixed program j then none
    else if !st.ready j || srcEqDst program j || isDagAnchor program j then
      reorderCandidate program st anchor slot js
    else if crossesFixed program st slot j then none
    else if !safeToMove program st anchor slot j then reorderCandidate program st anchor slot js
    else some j

/-- The search for the earliest ready instruction, from the slot on. -/
def fallbackCandidate (program : List Instruction) (st : DagState) : List Nat → Option Nat
  | [] => none
  | j :: js =>
    if isDagFixed program j then none
    else if st.ready j && !srcEqDst program j then some j
    else fallbackCandidate program st js

/-- The reordering choice of a slot: the instruction moved there, if any. -/
def reordered (program : List Instruction) (st : DagState) (slot : Nat) : Option Nat :=
  match st.activeAnchor with
  | none => none
  | some anchor =>
    if !isDagFixed program slot && st.ready slot &&
        hasHazard (fpAt program anchor) (fpAt program slot) then
      reorderCandidate program st anchor slot
        (List.range' (slot + 1) (program.length - (slot + 1)))
    else none

/-- One slot; `none` stands for `return identity`. A move is paid for from the
budget, a fallback is not. -/
def dagSlot (program : List Instruction) (st : DagState) (slot : Nat) : Option DagState :=
  match reordered program st slot with
  | some j =>
    if st.budget ≠ 0 then
      some ({ st with budget := spendSwap st.budget }.commit program j)
    else none
  | none =>
    if st.ready slot then some (st.commit program slot)
    else
      match fallbackCandidate program st (List.range' slot (program.length - slot)) with
      | none => none
      | some j => some (st.commit program j)

/-- `scheduleProgramDag`. -/
def scheduleProgramDag (program : List Instruction) (budget : Int) : List Nat :=
  let identity := List.range program.length
  if budget = 0 then identity
  else
    match (List.range program.length).foldlM (dagSlot program) (.init program budget) with
    | none => identity
    | some st => st.order

/-- Execute a program in the order this scheduler gives the JIT. -/
def executeEmittedDag (ops : FpOps) (eMask : FloatRegister) (program : Program) (budget : Int)
    (fuel : Nat) (s : VmState) : Option VmState :=
  let order := scheduleProgramDag program.programBuffer budget
  runCells (emitFrom ops eMask program.programBuffer order 0 fun _ => 0) fuel 0 s

/-! ## One slot -/

section Slot

variable {program : List Instruction} {st st' : DagState}

theorem reorderCandidate_spec {anchor slot j : Nat} {js : List Nat}
    (h : reorderCandidate program st anchor slot js = some j) : j ∈ js ∧ st.ready j = true := by
  fun_induction reorderCandidate program st anchor slot js with
  | case1 => cases h
  | case2 => cases h
  | case3 i js _ _ ih => exact (ih h).imp_left (List.mem_cons_of_mem i)
  | case4 => cases h
  | case5 i js _ _ _ _ ih => exact (ih h).imp_left (List.mem_cons_of_mem i)
  | case6 i js _ hReady _ _ =>
    cases h
    simp only [Bool.not_eq_true, Bool.or_eq_false_iff, Bool.not_eq_false'] at hReady
    exact ⟨List.mem_cons_self, hReady.1.1⟩

theorem fallbackCandidate_spec {j : Nat} {js : List Nat}
    (h : fallbackCandidate program st js = some j) : j ∈ js ∧ st.ready j = true := by
  fun_induction fallbackCandidate program st js with
  | case1 => cases h
  | case2 => cases h
  | case3 i js _ hReady =>
    cases h
    exact ⟨List.mem_cons_self, (Bool.and_eq_true _ _ ▸ hReady).1⟩
  | case4 i js _ _ ih => exact (ih h).imp_left (List.mem_cons_of_mem i)

theorem reordered_spec {slot j : Nat} (h : reordered program st slot = some j) :
    slot < j ∧ j < program.length ∧ st.ready j = true := by
  unfold reordered at h
  split at h
  · cases h
  · split at h
    · obtain ⟨hMem, hReady⟩ := reorderCandidate_spec h
      rw [List.mem_range'_1] at hMem
      exact ⟨by omega, by omega, hReady⟩
    · cases h

/-- **One slot.** A slot that does not give up appends an instruction that was
not emitted yet and does not come before the slot. -/
theorem dagSlot_spec {slot : Nat} (hSlot : slot < program.length)
    (h : dagSlot program st slot = some st') :
    ∃ j, slot ≤ j ∧ j < program.length ∧ st.emitted j = false ∧
      st'.order = st.order ++ [j] ∧ st'.emitted = Function.update st.emitted j true := by
  have hFree {j : Nat} (hReady : st.ready j = true) : st.emitted j = false := by
    rw [DagState.ready, Bool.and_eq_true, Bool.not_eq_true'] at hReady
    exact hReady.1
  unfold dagSlot at h
  split at h
  · rename_i j hReordered
    obtain ⟨hLt, hLength, hReady⟩ := reordered_spec hReordered
    split at h
    · cases h
      exact ⟨j, hLt.le, hLength, hFree hReady, rfl, rfl⟩
    · cases h
  · split at h
    · rename_i hReady
      cases h
      exact ⟨slot, le_rfl, hSlot, hFree hReady, rfl, rfl⟩
    · split at h
      · cases h
      · rename_i j hFallback
        obtain ⟨hMem, hReady⟩ := fallbackCandidate_spec hFallback
        rw [List.mem_range'_1] at hMem
        cases h
        exact ⟨j, hMem.1, by omega, hFree hReady, rfl, rfl⟩

end Slot

/-! ## The whole loop -/

/-- The state before a slot: what was emitted are that many different
instructions, and they are the first ones or one of the first ones is missing. -/
structure DagInv (program : List Instruction) (slot : Nat) (st : DagState) : Prop where
  emitted : ∀ i, st.emitted i = true ↔ i ∈ st.order
  nodup : st.order.Nodup
  bound : ∀ i ∈ st.order, i < program.length
  length : st.order.length = slot
  front : st.order = List.range slot ∨ ∃ i < slot, i ∉ st.order

theorem dagInv_init (program : List Instruction) (budget : Int) :
    DagInv program 0 (.init program budget) where
  emitted := by simp [DagState.init]
  nodup := List.nodup_nil
  bound := nofun
  length := rfl
  front := .inl rfl

/-- An instruction that its slot passes over stays behind: the later slots only
take instructions from themselves on. -/
theorem DagInv.step {program : List Instruction} {slot : Nat} {st st' : DagState}
    (hInv : DagInv program slot st) (hSlot : slot < program.length)
    (h : dagSlot program st slot = some st') : DagInv program (slot + 1) st' := by
  obtain ⟨j, hFrom, hLength, hFree, hOrder, hEmitted⟩ := dagSlot_spec hSlot h
  have hFresh : j ∉ st.order := fun hMem => by
    rw [(hInv.emitted j).mpr hMem] at hFree
    cases hFree
  refine ⟨fun i => ?_, ?_, fun i hi => ?_, ?_, ?_⟩
  · rw [hEmitted, hOrder, List.mem_append, List.mem_singleton, Function.update_apply,
      ← hInv.emitted i]
    by_cases hij : i = j <;> simp [hij]
  · rw [hOrder]
    exact List.nodup_append.mpr ⟨hInv.nodup, List.nodup_singleton j, fun i hi k hk hik =>
      hFresh (List.mem_singleton.mp hk ▸ hik ▸ hi)⟩
  · rw [hOrder, List.mem_append, List.mem_singleton] at hi
    exact hi.elim (hInv.bound i) fun hij => hij ▸ hLength
  · rw [hOrder, List.length_append, hInv.length]
    rfl
  · rw [hOrder]
    obtain hFront | ⟨i, hi, hMissing⟩ := hInv.front
    · obtain rfl | hLater := Nat.eq_or_lt_of_le hFrom
      · exact .inl (by rw [hFront, List.range_succ])
      · refine .inr ⟨slot, by omega, fun hMem => ?_⟩
        rw [hFront, List.mem_append, List.mem_range, List.mem_singleton] at hMem
        omega
    · refine .inr ⟨i, by omega, fun hMem => ?_⟩
      rw [List.mem_append, List.mem_singleton] at hMem
      exact hMem.elim hMissing fun hij => by omega

/-- The slots up to `slot`, by induction. -/
theorem dagInv_run {program : List Instruction} {budget : Int} {slot : Nat} {st : DagState}
    (hSlot : slot ≤ program.length)
    (h : (List.range slot).foldlM (dagSlot program) (.init program budget) = some st) :
    DagInv program slot st := by
  induction slot generalizing st with
  | zero =>
    cases h
    exact dagInv_init program budget
  | succ slot ih =>
    rw [List.range_succ, List.foldlM_append] at h
    obtain ⟨st₁, hRun, hLast⟩ := Option.bind_eq_some_iff.mp h
    rw [List.foldlM_cons] at hLast
    obtain ⟨st₂, hStep, hSame⟩ := Option.bind_eq_some_iff.mp hLast
    cases hSame
    exact (ih (by omega) hRun).step (by omega) hStep

/-- **The planner moves nothing.** All slots are only filled if no instruction
was passed over. -/
theorem scheduleProgramDag_eq (program : List Instruction) (budget : Int) :
    scheduleProgramDag program budget = List.range program.length := by
  unfold scheduleProgramDag
  dsimp only
  split
  · rfl
  · split
    · rfl
    · rename_i st hRun
      have hInv := dagInv_run le_rfl hRun
      obtain hFront | ⟨i, hi, hMissing⟩ := hInv.front
      · exact hFront
      · -- `program.length` different indices below it leave none out
        have hSubset : st.order ⊆ List.range program.length :=
          fun j hj => List.mem_range.mpr (hInv.bound j hj)
        have hPerm : st.order.Perm (List.range program.length) :=
          (List.subperm_of_subset hInv.nodup hSubset).perm_of_length_le
            (by rw [List.length_range, hInv.length])
        exact absurd (hPerm.mem_iff.mpr (List.mem_range.mpr hi)) hMissing

/-! ## Emission in the original order -/

/-- In the original order a register is recorded as changed right behind the
instruction that `register_usage_` names. -/
theorem changedAt_range (program : List Instruction) {k : Nat} (hk : k ≤ program.length)
    (r : Fin 8) :
    changedAt program (List.range program.length) k r = (usageAt program k r + 1).toNat := by
  induction k with
  | zero => rfl
  | succ k ih =>
    have hOrder : (List.range program.length).getD k 0 = k := by
      rw [List.getD_eq_getElem?_getD, List.getElem?_range (by omega)]
      rfl
    rw [changedAt_succ program _ hOrder, usageAt_succ]
    split
    · omega
    · exact ih (by omega)

theorem emitFrom_length (ops : FpOps) (eMask : FloatRegister) (program : List Instruction)
    (order : List Nat) (pos : Nat) (changed : RegChanged) :
    (emitFrom ops eMask program order pos changed).length = order.length := by
  induction order generalizing pos changed with
  | nil => rfl
  | cons idx rest ih => rw [emitFrom_cons, List.length_cons, List.length_cons, ih]

/-- Cell by cell, the emitted program is the interpreter's. -/
theorem emitted_identity (ops : FpOps) (eMask : FloatRegister) (program : List Instruction)
    (k : Nat) (c d : Cell VmState) (hc : (sourceCells ops eMask program)[k]? = some c)
    (hd : (emitFrom ops eMask program (List.range program.length) 0 fun _ => 0)[k]? = some d) :
    c.SameAction d ∧ (¬c.Straight → d.target = c.target) := by
  have hk : k < program.length := by
    have h := (List.getElem?_eq_some_iff.mp hc).1
    rwa [sourceCells, sourceFrom_length] at h
  rw [← List.head?_drop, sourceCells, sourceFrom_drop ops eMask program hk.le,
    drop_eq_getD_cons hk default, sourceFrom_cons, List.head?_cons, Option.some.injEq] at hc
  have hOrder : (List.range program.length).getD k 0 = k := by
    rw [List.getD_eq_getElem?_getD, List.getElem?_range hk]
    rfl
  rw [← List.head?_drop, emitFrom_drop, drop_eq_getD_cons (by rwa [List.length_range]) 0, hOrder,
    emitFrom_cons, List.head?_cons, Option.some.injEq] at hd
  subst hc hd
  refine ⟨sameAction_emittedCell k _ _ _, fun hJumps => ?_⟩
  have hSource : (cellOf ops eMask
      (compileInstruction (program.getD k default) k (usageAt program k)).1).target =
      (usageAt program k (regOf (program.getD k default).dst) + 1).toNat := by
    unfold compileInstruction
    rw [type_of_not_straight hJumps]
    rfl
  rw [hSource, ← changedAt_range program hk.le]
  exact congrArg _ (regOf_normalize_dst _)

/-- **The dependence-graph scheduler preserves meaning.** For every program,
budget and start, emission in the order it returns takes the interpreter's steps
and ends in its state: registers, scratchpad and the history of rounding modes. -/
theorem scheduleProgramDag_preserves (ops : FpOps) (eMask : FloatRegister) (program : Program)
    (budget : Int) (fuel : Nat) (s : VmState) :
    executeEmittedDag ops eMask program budget fuel s =
      executeBytecode ops eMask program fuel s := by
  unfold executeEmittedDag executeBytecode
  rw [scheduleProgramDag_eq, executeBytecodeFrom_eq_runCells]
  refine (runCells_congr ?_ (emitted_identity ops eMask program.programBuffer) fuel 0 s).symm
  rw [sourceCells, sourceFrom_length, emitFrom_length, List.length_range]

end ArmRx.Jit
