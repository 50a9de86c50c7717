import ArmRx.Jit.Dataset2WaySound
import ArmRx.Jit.ScheduleWindows

/-!
# The order the schedulers emit

Both schedulers scan the program once. A round emits one instruction, or a
window in which one instruction overtakes one or two others it has no hazard
with; whatever later rounds emit stands behind the window in the program too.

* `scheduleLoop_perm` — every index is emitted once.
* `scheduleLoop_ascending` — only pairs without a hazard trade places.
* `schedules_keep_hazards` — both schedulers, in terms of positions.
-/

namespace ArmRx.Jit

open ArmRx.Lib ArmRx.Vm ArmRx.A64

/-! ## The main program -/

section MainProgram

variable {program : List Instruction} {anchors : List Nat}

/-- From index `i` on, the scan emits every index once. -/
theorem scheduleLoop_perm (n : Nat) : ∀ (i : Nat) (budget : Int), program.length ≤ i + n →
    (scheduleLoop program anchors n i budget).Perm (List.range' i (program.length - i)) := by
  induction n with
  | zero =>
    intro i budget hLen
    rw [show program.length - i = 0 by omega]
    exact List.Perm.refl _
  | succ n ih =>
    intro i budget hLen
    unfold scheduleLoop
    by_cases hEnd : program.length ≤ i
    · rw [if_pos hEnd, show program.length - i = 0 by omega]
      exact List.Perm.refl _
    · rw [if_neg hEnd]
      cases hStep : scanStep program anchors i budget with
      | keep =>
        rw [show program.length - i = program.length - (i + 1) + 1 by omega]
        exact (ih (i + 1) budget (by omega)).cons i
      | third =>
        obtain ⟨hIn, -⟩ := swapsThird_spec (scanStep_third hStep)
        have hRest := ih (i + 3) (spendSwap budget) (by omega)
        rw [show program.length - i = program.length - (i + 3) + 3 by omega]
        exact ((List.Perm.swap (i + 1) (i + 2) _).trans ((hRest.cons _).cons _)).cons i
      | fourth =>
        obtain ⟨hIn, -⟩ := swapsFourth_spec (scanStep_fourth hStep)
        have hRest := ih (i + 4) (spendSwap budget) (by omega)
        rw [show program.length - i = program.length - (i + 4) + 4 by omega]
        -- the last of the window passes the two in the middle
        have hMiddle : [i + 3, i + 1, i + 2].Perm [i + 1, i + 2, i + 3] :=
          (List.Perm.swap _ _ _).trans ((List.Perm.swap _ _ _).cons _)
        exact (hMiddle.append hRest).cons i

theorem le_of_mem_scheduleLoop {n i : Nat} {budget : Int} (hLen : program.length ≤ i + n) {j : Nat}
    (hj : j ∈ scheduleLoop program anchors n i budget) : i ≤ j := by
  have hIn := (scheduleLoop_perm n i budget hLen).subset hj
  rw [List.mem_range'_1] at hIn
  exact hIn.1

/-- A pair emitted out of order has no hazard. -/
def Unhazarded (program : List Instruction) (a b : Nat) : Prop :=
  hasHazard (fpAt program a) (fpAt program b) = true → a < b

/-- A window followed by what stands behind it in the program. -/
theorem pairwise_window {w rest : List Nat} (bound : Nat)
    (hWindow : w.Pairwise (Unhazarded program))
    (hBelow : ∀ a ∈ w, a < bound) (hRest : rest.Pairwise (Unhazarded program))
    (hLater : ∀ b ∈ rest, bound ≤ b) : (w ++ rest).Pairwise (Unhazarded program) := by
  refine List.pairwise_append.mpr ⟨hWindow, hRest, fun a ha b hb _ => ?_⟩
  exact Nat.lt_of_lt_of_le (hBelow a ha) (hLater b hb)

theorem unhazarded_of_free {a b : Nat} (h : hasHazard (fpAt program a) (fpAt program b) = false) :
    Unhazarded program b a := by
  intro hHazard
  rw [JitDataset2Way.hasHazard_comm, h] at hHazard
  cases hHazard

theorem unhazarded_of_lt {a b : Nat} (h : a < b) : Unhazarded program a b := fun _ => h

/-- **Only pairs without a hazard trade places.** -/
theorem scheduleLoop_ascending (n : Nat) : ∀ (i : Nat) (budget : Int), program.length ≤ i + n →
    (scheduleLoop program anchors n i budget).Pairwise (Unhazarded program) := by
  induction n with
  | zero => exact fun _ _ _ => List.Pairwise.nil
  | succ n ih =>
    intro i budget hLen
    unfold scheduleLoop
    by_cases hEnd : program.length ≤ i
    · rw [if_pos hEnd]
      exact List.Pairwise.nil
    · rw [if_neg hEnd]
      cases hStep : scanStep program anchors i budget with
      | keep =>
        refine pairwise_window (i + 1) (List.pairwise_singleton _ i) ?_
          (ih (i + 1) budget (by omega)) fun b hb => le_of_mem_scheduleLoop (by omega) hb
        simp
      | third =>
        obtain ⟨-, -, -, -, -, hFree⟩ := swapsThird_spec (scanStep_third hStep)
        have hWindow : [i, i + 2, i + 1].Pairwise (Unhazarded program) := by
          simp [unhazarded_of_lt, unhazarded_of_free hFree]
        refine pairwise_window (i + 3) hWindow ?_
          (ih (i + 3) (spendSwap budget) (by omega)) fun b hb => le_of_mem_scheduleLoop (by omega) hb
        simp
      | fourth =>
        obtain ⟨-, -, -, -, -, -, -, hFree, hFree'⟩ := swapsFourth_spec (scanStep_fourth hStep)
        have hWindow : [i, i + 3, i + 1, i + 2].Pairwise (Unhazarded program) := by
          simp [unhazarded_of_lt, unhazarded_of_free hFree, unhazarded_of_free hFree']
        refine pairwise_window (i + 4) hWindow ?_
          (ih (i + 4) (spendSwap budget) (by omega)) fun b hb => le_of_mem_scheduleLoop (by omega) hb
        simp

end MainProgram

/-! ## Positions -/

/-- `order` emits each of the instructions `0` to `size - 1` once, and related
ones in program order. -/
structure KeepsOrder (related : Nat → Nat → Prop) (size : Nat) (order : List Nat) : Prop where
  perm : order.Perm (List.range size)
  positions : ∀ i j, i < j → j < size → related i j → order.idxOf i < order.idxOf j

theorem keepsOrder_of_pairwise {related : Nat → Nat → Prop} {size : Nat} {order : List Nat}
    (hSymm : ∀ i j, related i j → related j i) (hPerm : order.Perm (List.range size))
    (hAscending : order.Pairwise fun i j => related i j → i < j) :
    KeepsOrder related size order := by
  refine ⟨hPerm, fun i j hij hj hRelated => ?_⟩
  have hi : i ∈ order := hPerm.symm.subset (List.mem_range.mpr (by omega))
  have hj' : j ∈ order := hPerm.symm.subset (List.mem_range.mpr hj)
  have hi' : order.idxOf i < order.length := List.idxOf_lt_length_iff.mpr hi
  have hj'' : order.idxOf j < order.length := List.idxOf_lt_length_iff.mpr hj'
  by_contra hNot
  have hNe : order.idxOf i ≠ order.idxOf j := fun h => by
    have := (List.idxOf_inj hi).mp h
    omega
  -- otherwise `j` would stand in front of `i`, although they are related
  have hBack := List.pairwise_iff_getElem.mp hAscending (order.idxOf j) (order.idxOf i) hj'' hi'
    (by omega)
  rw [List.getElem_idxOf, List.getElem_idxOf] at hBack
  have := hBack (hSymm i j hRelated)
  omega

/-! ## Both schedulers -/

/-- Two instructions of the main program with a hazard. -/
def Conflicting (program : List Instruction) (i j : Nat) : Prop :=
  hasHazard (fpAt program i) (fpAt program j) = true

/-- Instruction `k` is a `CBRANCH` or a `CFROUND`. -/
def IsBarrierAt (program : List Instruction) (k : Nat) : Prop :=
  (program.getD k default).type = .cbranch ∨ (program.getD k default).type = .cfround

theorem conflicting_symm {program : List Instruction} (i j : Nat) (h : Conflicting program i j) :
    Conflicting program j i :=
  (JitDataset2Way.hasHazard_comm _ _).trans h

theorem conflicting_barrier {program : List Instruction} {k : Nat} (h : IsBarrierAt program k)
    (i : Nat) : Conflicting program k i := by
  have hBarrier : (fpAt program k).isBarrier = true := by
    rcases h with h | h <;> rw [fpAt, footprintOf_eq h] <;> rfl
  unfold Conflicting hasHazard
  rw [hBarrier]
  simp

theorem scheduleProgram_keepsOrder (program : List Instruction) (budget : Int) :
    KeepsOrder (Conflicting program) program.length (scheduleProgram program budget) := by
  refine keepsOrder_of_pairwise conflicting_symm ?_
    (scheduleLoop_ascending program.length 0 budget (by omega))
  rw [List.range_eq_range']
  exact scheduleLoop_perm program.length 0 budget (by omega)

/-- Two instructions of a superscalar program that are dependent. -/
def DependentAt (instructions : List Instruction) (i j : Nat) : Prop :=
  JitDataset2Way.Dependent (instructions.getD i default) (instructions.getD j default)

theorem dependentAt_symm {instructions : List Instruction} (i j : Nat)
    (h : DependentAt instructions i j) : DependentAt instructions j i := by
  rcases h with h | ⟨hi, hj⟩
  · exact .inl ((JitDataset2Way.hasHazard_comm _ _).trans h)
  · exact .inr ⟨hj, hi⟩

theorem scheduleSuperscalarProgram_keepsOrder (instructions : List Instruction) :
    KeepsOrder (DependentAt instructions) instructions.length
      (scheduleSuperscalarProgram instructions) :=
  have hValid := JitDataset2Way.scheduleSuperscalarProgram_validOrder instructions
  keepsOrder_of_pairwise dependentAt_symm hValid.perm hValid.ascending

/-- **The schedulers permute the program and respect its hazards.** In the main
program, conflicting instructions keep their order and nothing moves across a
`CBRANCH` or `CFROUND`; in a superscalar program, so do conflicting instructions
and any two `IMUL_RCP`. -/
theorem schedules_keep_hazards (program superscalar : List Instruction) (budget : Int) :
    KeepsOrder (Conflicting program) program.length (scheduleProgram program budget) ∧
      (∀ k, k < program.length → IsBarrierAt program k → ∀ i, i < program.length →
        ((scheduleProgram program budget).idxOf i < (scheduleProgram program budget).idxOf k ↔
          i < k)) ∧
      KeepsOrder (DependentAt superscalar) superscalar.length
        (scheduleSuperscalarProgram superscalar) := by
  have hOrder := scheduleProgram_keepsOrder program budget
  refine ⟨hOrder, fun k hk hBarrier i hi => ?_, scheduleSuperscalarProgram_keepsOrder superscalar⟩
  rcases Nat.lt_trichotomy i k with hLt | rfl | hGt
  · have hBefore := hOrder.positions i k hLt hk
      (conflicting_symm k i (conflicting_barrier hBarrier i))
    exact ⟨fun _ => hLt, fun _ => hBefore⟩
  · simp
  · have hBehind := hOrder.positions k i hGt hi (conflicting_barrier hBarrier i)
    exact ⟨fun h => by omega, fun h => by omega⟩

end ArmRx.Jit
