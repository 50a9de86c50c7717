import ArmRx.Jit.ScheduleWindows

/-!
# The scheduler preserves program meaning, up to shadowed updates

A taken `CBRANCH` resumes behind the last real update of its register, in
program order for the interpreter and in emission order for the JIT. The two
agree whenever that update was not permuted. Anchors are meant to guarantee
it, but an anchor is the last *footprint* write: `ISWAP_R r, r` and `IMUL_RCP`
by zero or a power of two write nothing and still count. Such an instruction
shadows the real update, which is then free to move, and a branch replays a
different set of instructions.

* `scheduleProgram_preserves` — if no shadowed update moves, the emitted order
  computes what the interpreter computes.
* `Unshadowed.updatesStay`, `unshadowed_of_writes_update` — programs without shadowed
  updates, which meet the condition whatever the budget.
* `scheduleProgram_not_preserves` — a program where one does.
-/

namespace ArmRx.Jit

open ArmRx.Lib ArmRx.Vm

/-! ## Runs of the scan -/

/-- The scan stands at index `i` with swap budget `b`. -/
inductive ScanReaches (program : List Instruction) (budget : Int) : Nat → Int → Prop
  | start : ScanReaches program budget 0 budget
  | keep {i : Nat} {b : Int} : ScanReaches program budget i b → i < program.length →
      scanStep program (anchorsOf program) i b = .keep → ScanReaches program budget (i + 1) b
  | third {i : Nat} {b : Int} : ScanReaches program budget i b → i < program.length →
      scanStep program (anchorsOf program) i b = .third →
      ScanReaches program budget (i + 3) (spendSwap b)
  | fourth {i : Nat} {b : Int} : ScanReaches program budget i b → i < program.length →
      scanStep program (anchorsOf program) i b = .fourth →
      ScanReaches program budget (i + 4) (spendSwap b)

/-- Instruction `w` is one of those a swap of the scan permutes. -/
def MovedBySwap (program : List Instruction) (budget : Int) (w : Nat) : Prop :=
  ∃ i b, ScanReaches program budget i b ∧ i < program.length ∧
    ((scanStep program (anchorsOf program) i b = .third ∧ (w = i + 1 ∨ w = i + 2)) ∨
      (scanStep program (anchorsOf program) i b = .fourth ∧
        (w = i + 1 ∨ w = i + 2 ∨ w = i + 3)))

/-- Every instruction is met by the scan or moved by one of its swaps. -/
theorem reached_or_moved {program : List Instruction} (budget : Int) {m : Nat}
    (hm : m ≤ program.length) :
    (∃ b, ScanReaches program budget m b) ∨ MovedBySwap program budget m := by
  induction m with
  | zero => exact .inl ⟨budget, .start⟩
  | succ m ih =>
    rcases ih (by omega) with ⟨b, hReach⟩ | ⟨i, b, hReach, hi, ⟨hStep, hw⟩ | ⟨hStep, hw⟩⟩
    · cases hStep : scanStep program (anchorsOf program) m b with
      | keep => exact .inl ⟨b, hReach.keep (by omega) hStep⟩
      | third => exact .inr ⟨m, b, hReach, by omega, .inl ⟨hStep, .inl rfl⟩⟩
      | fourth => exact .inr ⟨m, b, hReach, by omega, .inr ⟨hStep, .inl rfl⟩⟩
    · rcases hw with rfl | rfl
      · exact .inr ⟨i, b, hReach, hi, .inl ⟨hStep, .inr rfl⟩⟩
      · exact .inl ⟨_, hReach.third hi hStep⟩
    · rcases hw with rfl | rfl | rfl
      · exact .inr ⟨i, b, hReach, hi, .inr ⟨hStep, .inr (.inl rfl)⟩⟩
      · exact .inr ⟨i, b, hReach, hi, .inr ⟨hStep, .inr (.inr rfl)⟩⟩
      · exact .inl ⟨_, hReach.fourth hi hStep⟩

/-- Neither an anchor nor a barrier is ever moved. -/
theorem MovedBySwap.spec {program : List Instruction} {budget : Int} {w : Nat}
    (h : MovedBySwap program budget w) :
    w < program.length ∧ w ∉ anchorsOf program ∧ (fpAt program w).isBarrier = false := by
  obtain ⟨i, b, _, _, ⟨hStep, hw⟩ | ⟨hStep, hw⟩⟩ := h
  · obtain ⟨hLen, hB1, hB2, hA1, hA2, _⟩ := swapsThird_spec (scanStep_third hStep)
    rcases hw with rfl | rfl
    · exact ⟨by omega, hA1, hB1⟩
    · exact ⟨by omega, hA2, hB2⟩
  · obtain ⟨hLen, hB1, hB2, hB3, hA1, hA2, hA3, _, _⟩ := swapsFourth_spec (scanStep_fourth hStep)
    rcases hw with rfl | rfl | rfl
    · exact ⟨by omega, hA1, hB1⟩
    · exact ⟨by omega, hA2, hB2⟩
    · exact ⟨by omega, hA3, hB3⟩

/-- What is still to be emitted when the scan stands at `i`. -/
theorem ScanReaches.order_drop {program : List Instruction} {budget : Int} {i : Nat} {b : Int}
    (h : ScanReaches program budget i b) :
    i ≤ program.length ∧ ∃ n, program.length ≤ i + n ∧
      (scheduleProgram program budget).drop i =
        scheduleLoop program (anchorsOf program) n i b := by
  -- the scan's own recursion, one case for each kind of round
  induction h with
  | start => exact ⟨by omega, program.length, by omega, rfl⟩
  | @keep i b _ hi hStep ih =>
    obtain ⟨_, n, hn, hDrop⟩ := ih
    obtain _ | n := n
    · omega
    refine ⟨by omega, n, by omega, ?_⟩
    rw [← List.tail_drop, hDrop, scheduleLoop, if_neg (by omega), hStep]
    rfl
  | @third i b _ hi hStep ih =>
    obtain ⟨_, n, hn, hDrop⟩ := ih
    obtain _ | n := n
    · omega
    have hLen := (swapsThird_spec (scanStep_third hStep)).1
    refine ⟨by omega, n, by omega, ?_⟩
    rw [← List.drop_drop, hDrop, scheduleLoop, if_neg (by omega), hStep]
    rfl
  | @fourth i b _ hi hStep ih =>
    obtain ⟨_, n, hn, hDrop⟩ := ih
    obtain _ | n := n
    · omega
    have hLen := (swapsFourth_spec (scanStep_fourth hStep)).1
    refine ⟨by omega, n, by omega, ?_⟩
    rw [← List.drop_drop, hDrop, scheduleLoop, if_neg (by omega), hStep]
    rfl

theorem getD_of_drop {α : Type} {l rest : List α} {i : Nat} (h : l.drop i = rest) (k : Nat)
    (d : α) : l.getD (i + k) d = rest.getD k d := by
  rw [List.getD_eq_getElem?_getD, List.getD_eq_getElem?_getD, ← h, List.getElem?_drop]

/-! ## Where branches resume -/

/-- `w` is the last instruction before `i` that really updates `r`. -/
def LastUpdate (program : List Instruction) (i : Nat) (r : Fin 8) (w : Nat) : Prop :=
  w < i ∧ reallyUpdates (program.getD w default) r = true ∧
    ∀ j, w < j → j < i → reallyUpdates (program.getD j default) r = false

/-- A later instruction before `i` has `r` in its footprint without really
updating it: it takes the place of `w` as the anchor of `r`. -/
def Shadowed (program : List Instruction) (i : Nat) (r : Fin 8) (w : Nat) : Prop :=
  ∃ j, w < j ∧ j < i ∧ (fpAt program j).intWrite.getLsbD r = true

/-- No swap moves the last real update of a branch register that a runtime
no-op shadows. -/
def ShadowedUpdatesStay (program : List Instruction) (budget : Int) : Prop :=
  ∀ i w, i < program.length → (program.getD i default).type = .cbranch →
    LastUpdate program i (regOf (program.getD i default).dst) w →
    Shadowed program i (regOf (program.getD i default).dst) w →
    ¬MovedBySwap program budget w

/-- No last update of a branch register is shadowed: a condition on the program
alone. -/
def Unshadowed (program : List Instruction) : Prop :=
  ∀ i w, i < program.length → (program.getD i default).type = .cbranch →
    LastUpdate program i (regOf (program.getD i default).dst) w →
    ¬Shadowed program i (regOf (program.getD i default).dst) w

theorem Unshadowed.updatesStay {program : List Instruction} (h : Unshadowed program)
    (budget : Int) : ShadowedUpdatesStay program budget := by
  intro i w hi hType hLast hShadow
  exact absurd hShadow (h i w hi hType hLast)

/-- Without `ISWAP_R r, r` and `IMUL_RCP` by zero or a power of two, every footprint
write is an update and nothing is shadowed. -/
theorem unshadowed_of_writes_update {program : List Instruction}
    (h : ∀ (j : Nat) (r : Fin 8), (fpAt program j).intWrite.getLsbD r = true →
      reallyUpdates (program.getD j default) r = true) :
    Unshadowed program := by
  rintro i w - - ⟨-, -, hLater⟩ ⟨j, hwj, hji, hWrite⟩
  have hUpdate := h j _ hWrite
  rw [hLater j hwj hji] at hUpdate
  cases hUpdate

theorem LastUpdate.succ {program : List Instruction} {i : Nat} {r : Fin 8} {w : Nat}
    (h : LastUpdate program i r w) (hi : reallyUpdates (program.getD i default) r = false) :
    LastUpdate program (i + 1) r w := by
  obtain ⟨hw, hUpd, hLater⟩ := h
  refine ⟨by omega, hUpd, fun j hj hj' => ?_⟩
  by_cases hji : j = i
  · rw [hji]
    exact hi
  · exact hLater j hj (by omega)

theorem lastUpdate_self {program : List Instruction} {i : Nat} {r : Fin 8}
    (hi : reallyUpdates (program.getD i default) r = true) : LastUpdate program (i + 1) r i :=
  ⟨by omega, hi, fun j hj hj' => by omega⟩

theorem usageAt_succ (program : List Instruction) (k : Nat) (r : Fin 8) :
    usageAt program (k + 1) r =
      if reallyUpdates (program.getD k default) r then (k : Int) else usageAt program k r :=
  compileInstruction_usage _ _ _ _

theorem changedAt_succ (program : List Instruction) (order : List Nat) {k idx : Nat}
    (h : order.getD k 0 = idx) (r : Fin 8) :
    changedAt program order (k + 1) r =
      if reallyUpdates (program.getD idx default) r then k + 1 else changedAt program order k r := by
  rw [changedAt, h, regChangedBy_apply, instrAt, reallyUpdates_normalize]

section Tracking

variable (ops : FpOps) (eMask : FloatRegister) (program : List Instruction) (budget : Int)

/-- The interpreter's cells. -/
def sourceCells : List (Cell VmState) := sourceFrom ops eMask program 0 fun _ => -1

/-- The emitted cells. -/
def emittedCells : List (Cell VmState) :=
  emitFrom ops eMask program (scheduleProgram program budget) 0 fun _ => 0

/-- `c` is a sound value of `reg_changed_offset[r]` after `k` instructions: it
is where the interpreter resumes and a cut, unless a swap has moved the last
real update. -/
def Tracked (k : Nat) (r : Fin 8) (c : Nat) : Prop :=
  (usageAt program k r = -1 ∧ c = 0) ∨
    ∃ w : Nat, usageAt program k r = w ∧ LastUpdate program k r w ∧
      (MovedBySwap program budget w ∨
        (c = w + 1 ∧ Cut (sourceCells ops eMask program) (emittedCells ops eMask program budget) c))

variable {ops eMask program budget} {k : Nat} {r : Fin 8} {c : Nat}

theorem Tracked.skip (h : Tracked ops eMask program budget k r c)
    (hk : reallyUpdates (program.getD k default) r = false) :
    Tracked ops eMask program budget (k + 1) r c := by
  have hUsage : usageAt program (k + 1) r = usageAt program k r := by
    rw [usageAt_succ, hk]
    rfl
  rcases h with ⟨hu, hc⟩ | ⟨w, hu, hLast, hRest⟩
  · exact .inl ⟨hUsage.trans hu, hc⟩
  · exact .inr ⟨w, hUsage.trans hu, hLast.succ hk, hRest⟩

theorem tracked_moved (hk : reallyUpdates (program.getD k default) r = true)
    (hMoved : MovedBySwap program budget k) : Tracked ops eMask program budget (k + 1) r c := by
  refine .inr ⟨k, ?_, lastUpdate_self hk, .inl hMoved⟩
  rw [usageAt_succ, hk]
  rfl

theorem tracked_kept (hk : reallyUpdates (program.getD k default) r = true)
    (hCut : Cut (sourceCells ops eMask program) (emittedCells ops eMask program budget) (k + 1)) :
    Tracked ops eMask program budget (k + 1) r (k + 1) := by
  refine .inr ⟨k, ?_, lastUpdate_self hk, .inr ⟨rfl, hCut⟩⟩
  rw [usageAt_succ, hk]
  rfl

/-- Every register is tracked after the first `k` instructions. -/
def AllTracked (ops : FpOps) (eMask : FloatRegister) (program : List Instruction) (budget : Int)
    (k : Nat) : Prop :=
  ∀ r, Tracked ops eMask program budget k r
    (changedAt program (scheduleProgram program budget) k r)

theorem AllTracked.keep (h : AllTracked ops eMask program budget k)
    (hOrder : (scheduleProgram program budget).getD k 0 = k)
    (hCut : Cut (sourceCells ops eMask program) (emittedCells ops eMask program budget) (k + 1)) :
    AllTracked ops eMask program budget (k + 1) := by
  intro r
  rw [changedAt_succ program _ hOrder]
  cases hUpd : reallyUpdates (program.getD k default) r with
  | true => exact tracked_kept hUpd hCut
  | false => exact (h r).skip hUpd

/-- A window of two instructions emitted in the opposite order. -/
theorem AllTracked.swap (h : AllTracked ops eMask program budget k)
    (hOrder : (scheduleProgram program budget).getD k 0 = k + 1)
    (hOrder' : (scheduleProgram program budget).getD (k + 1) 0 = k)
    (hMoved : MovedBySwap program budget k) (hMoved' : MovedBySwap program budget (k + 1)) :
    AllTracked ops eMask program budget (k + 2) := by
  intro r
  rw [changedAt_succ program _ hOrder', changedAt_succ program _ hOrder]
  cases hUpd' : reallyUpdates (program.getD (k + 1) default) r with
  | true => exact tracked_moved hUpd' hMoved'
  | false =>
    cases hUpd : reallyUpdates (program.getD k default) r with
    | true => exact (tracked_moved hUpd hMoved).skip hUpd'
    | false => exact ((h r).skip hUpd).skip hUpd'

/-- A window of three instructions whose last one is emitted first. -/
theorem AllTracked.rotate (h : AllTracked ops eMask program budget k)
    (hOrder : (scheduleProgram program budget).getD k 0 = k + 2)
    (hOrder' : (scheduleProgram program budget).getD (k + 1) 0 = k)
    (hOrder'' : (scheduleProgram program budget).getD (k + 2) 0 = k + 1)
    (hMoved : MovedBySwap program budget k) (hMoved' : MovedBySwap program budget (k + 1))
    (hMoved'' : MovedBySwap program budget (k + 2)) :
    AllTracked ops eMask program budget (k + 3) := by
  intro r
  rw [changedAt_succ program _ hOrder'', changedAt_succ program _ hOrder',
    changedAt_succ program _ hOrder]
  cases hUpd'' : reallyUpdates (program.getD (k + 2) default) r with
  | true => exact tracked_moved hUpd'' hMoved''
  | false =>
    cases hUpd' : reallyUpdates (program.getD (k + 1) default) r with
    | true => exact (tracked_moved hUpd' hMoved').skip hUpd''
    | false =>
      cases hUpd : reallyUpdates (program.getD k default) r with
      | true => exact ((tracked_moved hUpd hMoved).skip hUpd').skip hUpd''
      | false => exact (((h r).skip hUpd).skip hUpd').skip hUpd''

/-- Suffixes of the emission order that permute windows are cuts. -/
theorem cut_of_order_drop (hk : k ≤ program.length) {rest : List Nat}
    (hDrop : (scheduleProgram program budget).drop k = rest)
    (h : ∀ (j : Int) usage pos changed, Windowed
      (sourceFrom ops eMask (program.drop k) j usage)
      (emitFrom ops eMask program rest pos changed)) :
    Cut (sourceCells ops eMask program) (emittedCells ops eMask program budget) k := by
  unfold Cut sourceCells emittedCells
  rw [sourceFrom_drop ops eMask program hk, emitFrom_drop, hDrop]
  exact h ..

/-- The scan only stands at cuts. -/
theorem ScanReaches.cut {b : Int} (h : ScanReaches program budget k b) :
    Cut (sourceCells ops eMask program) (emittedCells ops eMask program budget) k := by
  obtain ⟨hk, n, hn, hDrop⟩ := h.order_drop
  exact cut_of_order_drop hk hDrop (windowed_scheduleLoop n k b hn)

/-- The invariant holds wherever the scan stands. -/
theorem ScanReaches.allTracked {b : Int} (h : ScanReaches program budget k b) :
    AllTracked ops eMask program budget k := by
  induction h with
  | start => exact fun r => .inl ⟨rfl, rfl⟩
  | @keep i b hReach hi hStep ih =>
    obtain ⟨_, n, hn, hDrop⟩ := hReach.order_drop
    obtain _ | n := n
    · omega
    rw [scheduleLoop, if_neg (by omega), hStep] at hDrop
    exact ih.keep (getD_of_drop hDrop 0 0) (hReach.keep hi hStep).cut
  | @third i b hReach hi hStep ih =>
    obtain ⟨_, n, hn, hDrop⟩ := hReach.order_drop
    obtain _ | n := n
    · omega
    rw [scheduleLoop, if_neg (by omega), hStep] at hDrop
    have hSwap := scanStep_third hStep
    have hLen := (swapsThird_spec hSwap).1
    have hMoved (w : Nat) (hw : w = i + 1 ∨ w = i + 2) : MovedBySwap program budget w :=
      ⟨i, b, hReach, hi, .inl ⟨hStep, hw⟩⟩
    -- `P` stays in front of the window, so the position behind it is a cut
    have hCut : Cut (sourceCells ops eMask program)
        (emittedCells ops eMask program budget) (i + 1) := by
      have hDrop' := congrArg List.tail hDrop
      rw [List.tail_drop] at hDrop'
      exact cut_of_order_drop (by omega) hDrop'
        (windowed_third hSwap _ (windowed_scheduleLoop n (i + 3) _ (by omega)))
    exact (ih.keep (getD_of_drop hDrop 0 0) hCut).swap (getD_of_drop hDrop 1 0)
      (getD_of_drop hDrop 2 0) (hMoved _ (.inl rfl)) (hMoved _ (.inr rfl))
  | @fourth i b hReach hi hStep ih =>
    obtain ⟨_, n, hn, hDrop⟩ := hReach.order_drop
    obtain _ | n := n
    · omega
    rw [scheduleLoop, if_neg (by omega), hStep] at hDrop
    have hSwap := scanStep_fourth hStep
    have hLen := (swapsFourth_spec hSwap).1
    have hMoved (w : Nat) (hw : w = i + 1 ∨ w = i + 2 ∨ w = i + 3) :
        MovedBySwap program budget w := ⟨i, b, hReach, hi, .inr ⟨hStep, hw⟩⟩
    have hCut : Cut (sourceCells ops eMask program)
        (emittedCells ops eMask program budget) (i + 1) := by
      have hDrop' := congrArg List.tail hDrop
      rw [List.tail_drop] at hDrop'
      exact cut_of_order_drop (by omega) hDrop'
        (windowed_fourth hSwap _ (windowed_scheduleLoop n (i + 4) _ (by omega)))
    exact (ih.keep (getD_of_drop hDrop 0 0) hCut).rotate (getD_of_drop hDrop 1 0)
      (getD_of_drop hDrop 2 0) (getD_of_drop hDrop 3 0) (hMoved _ (.inl rfl))
      (hMoved _ (.inr (.inl rfl))) (hMoved _ (.inr (.inr rfl)))

end Tracking

/-! ## Anchors protect the last update -/

section Anchors

variable {program : List Instruction}

/-- A real update is in the footprint. -/
theorem intWrite_of_reallyUpdates {instr : Instruction} {r : Fin 8}
    (h : reallyUpdates instr r = true) (hType : instr.type ≠ .cbranch) :
    (footprintOf instr).intWrite.getLsbD r = true := by
  unfold reallyUpdates at h
  cases hT : instr.type <;> rw [hT] at h hType <;> rw [footprintOf_eq hT] <;>
    simp only [decide_eq_true_eq, Bool.and_eq_true, Bool.or_eq_true, reduceCtorEq] at h
  case cbranch => exact absurd rfl hType
  case imulRcp =>
    rw [h.2]
    exact bit_dst instr
  case iswapR =>
    rcases h.2 with h | h
    · rw [h]
      exact bits_dst instr
    · rw [h]
      exact bits_src instr
  all_goals
    rw [h]
    exact bit_dst instr

theorem reallyUpdates_cbranch {instr : Instruction} (h : instr.type = .cbranch) (r : Fin 8) :
    reallyUpdates instr r = true := by
  unfold reallyUpdates
  rw [h]

/-- The mask test of the anchor search. -/
theorem and_bit_ne_zero {x b : BitVec 8} (hb : b.toNat < 8) :
    (x &&& bit b != 0) = x.getLsbD b.toNat := by
  rw [Bool.eq_iff_iff, bne_iff_ne]
  constructor
  · intro h
    by_contra hx
    apply h
    apply BitVec.eq_of_getLsbD_eq
    intro i hi
    rw [BitVec.getLsbD_and, bit_getLsbD b hi]
    by_cases hib : i = b.toNat
    · subst hib
      rw [Bool.eq_false_of_not_eq_true hx, Bool.false_and, BitVec.ofNat_eq_ofNat,
        BitVec.getLsbD_zero]
    · simp [hib]
  · intro h h0
    have hBit := congrArg (·.getLsbD b.toNat) h0
    simp [h, bit_getLsbD b hb] at hBit

/-- The search stops at the last footprint write of its domain. -/
theorem findAnchor_eq_some {creg : BitVec 8} (hc : creg.toNat < 8) {domainStart w i : Nat}
    (hStart : domainStart ≤ w) (hw : w < i)
    (hWrite : (fpAt program w).intWrite.getLsbD creg.toNat = true)
    (hLater : ∀ j, w < j → j < i → (fpAt program j).intWrite.getLsbD creg.toNat = false) :
    findAnchor program creg domainStart i = some w := by
  induction i with
  | zero => omega
  | succ i ih =>
    unfold findAnchor
    rw [if_neg (by omega), and_bit_ne_zero hc]
    by_cases hwi : w = i
    · rw [← hwi, hWrite]
      rfl
    · rw [hLater i (by omega) (by omega)]
      exact ih (by omega) fun j hj hj' => hLater j hj (by omega)

/-- A domain starts at the program's start or right behind a `CBRANCH`. -/
theorem anchorScan_domainStart (program : List Instruction) (i : Nat) :
    (anchorScan program i).1 = 0 ∨
      ∃ d, (anchorScan program i).1 = d + 1 ∧ d < i ∧ (fpAt program d).isCbranch = true := by
  induction i with
  | zero => exact .inl rfl
  | succ i ih =>
    unfold anchorScan
    cases hB : (fpAt program i).isCbranch with
    | true => exact .inr ⟨i, rfl, by omega, hB⟩
    | false =>
      rcases ih with h | ⟨d, h, hd, hC⟩
      · exact .inl h
      · exact .inr ⟨d, h, by omega, hC⟩

theorem anchorScan_mono {i m : Nat} (h : i ≤ m) {w : Nat} (hw : w ∈ (anchorScan program i).2) :
    w ∈ (anchorScan program m).2 := by
  induction m, h using Nat.le_induction with
  | base => exact hw
  | succ m _ ih =>
    unfold anchorScan
    cases (fpAt program m).isCbranch with
    | true => exact List.mem_append_right _ ih
    | false => exact ih

theorem isCbranch_iff (instr : Instruction) :
    (footprintOf instr).isCbranch = true ↔ instr.type = .cbranch := by
  cases hT : instr.type <;> rw [footprintOf_eq hT] <;> simp [computeFootprint]
  split <;> rfl

/-- The last real update of a branch register is an anchor unless a later
no-op shadows it. -/
theorem anchor_of_not_shadowed {i w : Nat} (hi : i < program.length)
    (hBranch : (program.getD i default).type = .cbranch)
    (hLast : LastUpdate program i (regOf (program.getD i default).dst) w)
    (hw : (fpAt program w).isBarrier = false)
    (hShadow : ¬Shadowed program i (regOf (program.getD i default).dst) w) :
    w ∈ anchorsOf program := by
  obtain ⟨hwi, hUpd, hLater⟩ := hLast
  have hNotBranch : (program.getD w default).type ≠ .cbranch := by
    intro h
    rw [fpAt, footprintOf_eq h] at hw
    cases hw
  -- a branch between the two would have updated every register
  have hStart : (anchorScan program i).1 ≤ w := by
    rcases anchorScan_domainStart program i with h | ⟨d, h, hd, hC⟩
    · omega
    · have hdType := (isCbranch_iff _).mp hC
      by_contra hlt
      rcases Nat.lt_or_ge w d with hwd | hwd
      · have := hLater d hwd hd
        rw [reallyUpdates_cbranch hdType] at this
        cases this
      · exact hNotBranch ((show w = d by omega) ▸ hdType)
  have hDst : (instrAt program i).dst.toNat = regOf (program.getD i default).dst := by
    simp [instrAt, normalize, regOf]
  have hFound : findAnchor program (instrAt program i).dst (anchorScan program i).1 i = some w := by
    apply findAnchor_eq_some (by rw [hDst]; exact Fin.isLt _) hStart hwi
    · rw [hDst]
      exact intWrite_of_reallyUpdates hUpd hNotBranch
    · -- a later footprint write is no real update, so it shadows `w`
      intro j hj hj'
      rw [hDst]
      by_contra h
      exact hShadow ⟨j, hj, hj', by simpa using h⟩
  apply anchorScan_mono (i := i + 1) (by omega)
  have hC : (fpAt program i).isCbranch = true := (isCbranch_iff _).mpr hBranch
  simp only [anchorScan, hC, if_true, hFound]
  exact List.mem_append_left _ (List.mem_singleton_self w)

end Anchors

/-! ## The scheduled program computes what the interpreter computes -/

/-- Whatever the interpreter computes from some state, the emitted order
computes too. -/
def SchedulePreserves (ops : FpOps) (eMask : FloatRegister) (program : Program) (budget : Int) :
    Prop :=
  ∀ s fuel t, executeBytecode ops eMask program fuel s = some t →
    ∃ fuel', executeEmitted ops eMask program budget fuel' s = some t

/-- Only a `CBRANCH` compiles to bytecode that jumps. -/
theorem type_of_not_straight {ops : FpOps} {eMask : FloatRegister} {instr : Instruction}
    {j : Int} {usage : RegisterUsage}
    (h : ¬(cellOf ops eMask (compileInstruction instr j usage).1).Straight) :
    instr.type = .cbranch := by
  by_contra hType
  apply h
  intro s
  rw [cellOf_compile_jumps]
  exact branchTaken_eq_false hType s

/-- Taken branches lead from a cut to the same cut. -/
theorem jump_to_cut {ops : FpOps} {eMask : FloatRegister} {program : List Instruction}
    {budget : Int} (hStay : ShadowedUpdatesStay program budget) {k : Nat} {c d : Cell VmState}
    (hc : (sourceCells ops eMask program)[k]? = some c)
    (hd : (emittedCells ops eMask program budget)[k]? = some d) (hJumps : ¬c.Straight) :
    d.target = c.target ∧
      Cut (sourceCells ops eMask program) (emittedCells ops eMask program budget) c.target := by
  have hk : k < program.length := by
    have h := (List.getElem?_eq_some_iff.mp hc).1
    rwa [sourceCells, sourceFrom_length] at h
  -- the source cell is a `CBRANCH`, so the scan stands at it and keeps it
  rw [← List.head?_drop, sourceCells, sourceFrom_drop ops eMask program hk.le,
    drop_eq_getD_cons hk default, sourceFrom_cons, List.head?_cons, Option.some.injEq] at hc
  subst hc
  have hType := type_of_not_straight hJumps
  have hBarrier : (fpAt program k).isBarrier = true := by
    rw [fpAt, footprintOf_eq hType]
    rfl
  obtain ⟨b, hReach⟩ : ∃ b, ScanReaches program budget k b := by
    rcases reached_or_moved budget hk.le with h | h
    · exact h
    · rw [h.spec.2.2] at hBarrier
      cases hBarrier
  obtain ⟨_, n, hn, hDrop⟩ := hReach.order_drop
  obtain _ | n := n
  · omega
  rw [scheduleLoop, if_neg (by omega), scanStep, if_pos hBarrier] at hDrop
  rw [← List.head?_drop, emittedCells, emitFrom_drop, hDrop, emitFrom_cons, List.head?_cons,
    Option.some.injEq] at hd
  subst hd
  have hSource : (cellOf ops eMask
      (compileInstruction (program.getD k default) k (usageAt program k)).1).target =
      (usageAt program k (regOf (program.getD k default).dst) + 1).toNat := by
    unfold compileInstruction
    rw [hType]
    rfl
  have hEmitted : (regOf (instrAt program k).dst) = regOf (program.getD k default).dst :=
    regOf_normalize_dst _
  rw [hSource]
  show changedAt program (scheduleProgram program budget) k _ = _ ∧ _
  rw [hEmitted]
  have hTracked : AllTracked ops eMask program budget k := hReach.allTracked
  rcases hTracked (regOf (program.getD k default).dst) with ⟨hUsage, hChanged⟩ | ⟨w, hUsage, hLast, hRest⟩
  · rw [hUsage, hChanged]
    exact ⟨rfl, ScanReaches.start.cut⟩
  · rcases hRest with hMoved | ⟨hChanged, hCut⟩
    · -- an anchor stays in place, a shadowed update does so by assumption
      exfalso
      by_cases hShadow : Shadowed program k (regOf (program.getD k default).dst) w
      · exact hStay k w hk hType hLast hShadow hMoved
      · exact hMoved.spec.2.1
          (anchor_of_not_shadowed hk hType hLast hMoved.spec.2.2 hShadow)
    · have hNat : (usageAt program k (regOf (program.getD k default).dst) + 1).toNat = w + 1 := by
        rw [hUsage]
        rfl
      rw [hNat, hChanged]
      exact ⟨rfl, hChanged ▸ hCut⟩

/-- **Scheduling preserves meaning.** -/
theorem scheduleProgram_preserves (ops : FpOps) (eMask : FloatRegister) (program : Program)
    (budget : Int) (hStay : ShadowedUpdatesStay program.programBuffer budget) :
    SchedulePreserves ops eMask program budget := by
  intro s fuel t hRun
  refine ⟨fuel, ?_⟩
  unfold executeBytecode at hRun
  rw [executeBytecodeFrom_eq_runCells] at hRun
  exact runCells_of_windowed (fun k c d hc hd _ _ hJumps => jump_to_cut hStay hc hd hJumps)
    fuel 0 s t ScanReaches.start.cut hRun

/-! ## A program that shadows its branch register's update -/

/-- `IMUL_R r0, r1; IADD_RS r0, r2; INEG_R r3; ISWAP_R r3, r3; CBRANCH r3`, then
no-ops. The scheduler emits `INEG_R` before `IADD_RS`; when the branch is taken
the JIT replays `IADD_RS` and the interpreter does not. -/
def shadowedProgram : Program :=
  ⟨[⟨46, 0, 1, 0, 0⟩, ⟨0, 0, 2, 0, 0⟩, ⟨84, 3, 4, 0, 0⟩, ⟨116, 3, 3, 0, 0⟩, ⟨214, 3, 0, 0, 0⟩] ++
    List.replicate 251 ⟨116, 7, 7, 0, 0⟩, by decide +kernel⟩

def shadowedStart : VmState :=
  { r := fun i => if i = 3 then 0x100 else 1
    f := fun _ => ⟨0, 0⟩
    e := fun _ => ⟨0, 0⟩
    a := fun _ => ⟨0, 0⟩
    scratchpad := fun _ => 0
    lastRoundingMode := 0
    roundingHistory := [] }

/-- Behind its first instructions a program that ends in copies of one has that one. -/
theorem getD_append_replicate {front : List Instruction} {n i : Nat} (instr : Instruction)
    (hFront : front.length ≤ i) (hi : i < front.length + n) :
    (front ++ List.replicate n instr).getD i default = instr := by
  rw [List.getD_append_right _ _ _ _ hFront, List.getD_eq_getElem?_getD,
    List.getElem?_replicate_of_lt (by omega), Option.getD_some]

/-- `ISWAP_R r7, r7` compiles to a no-op. -/
theorem executeInstruction_swapSelf (s : VmState) :
    executeInstruction leftOps ⟨0, 0⟩ (bytecodeOf (normalize ⟨116, 7, 7, 0, 0⟩)) s = s ∧
      branchTaken (bytecodeOf (normalize ⟨116, 7, 7, 0, 0⟩)) s = false :=
  ⟨rfl, rfl⟩

theorem mem_emitFrom {program : List Instruction} {c : Cell VmState} {order : List Nat} {pos : Nat}
    {changed : RegChanged} (h : c ∈ emitFrom leftOps ⟨0, 0⟩ program order pos changed) :
    ∃ idx ∈ order, ∃ target, c = emittedCell leftOps ⟨0, 0⟩ program idx target := by
  induction order generalizing pos changed with
  | nil => cases h
  | cons idx rest ih =>
    rw [emitFrom_cons] at h
    rcases List.mem_cons.mp h with rfl | h
    · exact ⟨idx, List.mem_cons_self, _, rfl⟩
    · obtain ⟨idx, hIdx, hCell⟩ := ih h
      exact ⟨idx, List.mem_cons_of_mem _ hIdx, hCell⟩

/-- The emitted `shadowedProgram` is idle behind its branch. -/
theorem shadowed_idle {order : List Nat} (hOrder : ∀ idx ∈ order.drop 5, 5 ≤ idx ∧ idx < 256) :
    ∀ c ∈ (emitFrom leftOps ⟨0, 0⟩ shadowedProgram.programBuffer order 0 fun _ => 0).drop 5,
      ∀ s, c.effect s = s ∧ c.jumps s = false := by
  intro c hc s
  rw [emitFrom_drop] at hc
  obtain ⟨idx, hIdx, target, rfl⟩ := mem_emitFrom hc
  have hInstr : shadowedProgram.programBuffer.getD idx default = ⟨116, 7, 7, 0, 0⟩ :=
    getD_append_replicate _ (hOrder idx hIdx).1 (hOrder idx hIdx).2
  simp only [emittedCell, instrAt, hInstr]
  exact executeInstruction_swapSelf s

theorem shadowed_order :
    scheduleProgram shadowedProgram.programBuffer (-1) = [0, 2, 1] ++ List.range' 3 253 := by
  decide +kernel

theorem shadowed_interpreted :
    (executeBytecode leftOps ⟨0, 0⟩ shadowedProgram 261 shadowedStart).map (·.r 0) = some 2 := by
  have hTail : (compileProgram shadowedProgram).drop 5 = List.replicate 251 { type := .nop } := by
    decide +kernel
  -- five instructions, then the branch replays two
  rw [executeBytecode, executeBytecodeFrom_eq_runCells,
    @runCells_of_idle _ _ _ 7 254 5 (by decide +kernel) ?_ (by decide +kernel), Option.map_some]
  · decide +kernel
  · intro c hc s
    rw [← List.map_drop, hTail, List.map_replicate] at hc
    obtain rfl := List.eq_of_mem_replicate hc
    exact ⟨rfl, rfl⟩

theorem shadowed_emitted :
    (executeEmitted leftOps ⟨0, 0⟩ shadowedProgram (-1) 261 shadowedStart).map (·.r 0) =
      some 3 := by
  -- five instructions, then the branch replays three
  rw [executeEmitted, shadowed_order,
    @runCells_of_idle _ _ _ 8 253 5 (by decide +kernel) (shadowed_idle ?_) (by decide +kernel),
    Option.map_some]
  · decide +kernel
  · intro idx hIdx
    simpa using hIdx

/-- **The scheduler changes the meaning of `shadowedProgram`.** -/
theorem scheduleProgram_not_preserves :
    ¬SchedulePreserves leftOps ⟨0, 0⟩ shadowedProgram (-1) := by
  intro h
  obtain ⟨t, hRun, ht⟩ := Option.map_eq_some_iff.mp shadowed_interpreted
  obtain ⟨t', hRun', ht'⟩ := Option.map_eq_some_iff.mp shadowed_emitted
  obtain ⟨fuel, hEmitted⟩ := h _ _ _ hRun
  unfold executeEmitted at hEmitted hRun'
  have hEq : t = t' := runCells_unique hEmitted hRun'
  rw [hEq, ht'] at ht
  exact absurd ht (by decide)

/-- `IADD_RS r3, r1; IMUL_R r0, r1; IADD_RS r0, r2; INEG_R r5; CBRANCH r3`, then
no-ops: a swap happens, the branch register's update stays. -/
def unshadowedProgram : Program :=
  ⟨[⟨0, 3, 1, 0, 0⟩, ⟨46, 0, 1, 0, 0⟩, ⟨0, 0, 2, 0, 0⟩, ⟨84, 5, 4, 0, 0⟩, ⟨214, 3, 0, 0, 0⟩] ++
    List.replicate 251 ⟨116, 7, 7, 0, 0⟩, by decide +kernel⟩

theorem scheduleProgram_preserves_unshadowed :
    SchedulePreserves leftOps ⟨0, 0⟩ unshadowedProgram (-1) := by
  apply scheduleProgram_preserves
  apply Unshadowed.updatesStay
  intro i w hi hType hLast hShadow
  have hBranch : ∀ i < 256, (unshadowedProgram.programBuffer.getD i default).type = .cbranch →
      i = 4 := by
    intro i hi hType
    by_cases hFront : i < 5
    · revert i
      decide +kernel
    · have hInstr : unshadowedProgram.programBuffer.getD i default = ⟨116, 7, 7, 0, 0⟩ :=
        getD_append_replicate _ (Nat.le_of_not_lt hFront) hi
      rw [hInstr] at hType
      cases hType
  rw [unshadowedProgram.getSize] at hi
  obtain rfl := hBranch i hi hType
  obtain ⟨j, hwj, hj, hWrite⟩ := hShadow
  have hNone : ∀ j < 4, ∀ w < j,
      (fpAt unshadowedProgram.programBuffer j).intWrite.getLsbD
        (regOf (unshadowedProgram.programBuffer.getD 4 default).dst) = false := by
    decide +kernel
  rw [hNone j hj w hwj] at hWrite
  cases hWrite

end ArmRx.Jit
