import ArmRx.Lib.Literals

/-!
# Labelled transition systems and threads over one memory

A system steps by events; an event that is not enabled yields `none`. The
states a system reaches are collected under a side condition on the steps
taken, so that "in every run" and "in every run whose steps all meet a
condition" are one notion.

* `System.Reachable.induct` — the invariant rule.
* `System.reachable_of_run` — an executed list of events is a run.
* `forall_update` — the interference rule: what a step of one thread must
  keep for a property of every thread to survive it.
* `headcount_update` — the threads of a kind before and after one of them moved.
-/

namespace ArmRx.Lib

/-! ## Reachable states -/

/-- A system: its initial states and its partial step function. -/
structure System (S E : Type*) where
  init : S → Prop
  step : S → E → Option S

namespace System

variable {S E : Type*} (sys : System S E)

/-- The states reached from an initial state by steps that all meet `ok`. -/
inductive Reachable (ok : S → E → Prop) : S → Prop
  | start {s : S} (hInit : sys.init s) : Reachable ok s
  | next {s t : S} {e : E} (hReach : Reachable ok s) (hOk : ok s e)
      (hStep : sys.step s e = some t) : Reachable ok t

/-- The condition met by every step: `Reachable Any` is plain reachability. -/
def Any (_ : S) (_ : E) : Prop := True

variable {sys}

/-- **Invariant rule.** A property of the initial states that every admitted
step keeps holds in every reachable state. -/
theorem Reachable.induct {ok : S → E → Prop} {P : S → Prop}
    (hInit : ∀ s, sys.init s → P s)
    (hStep : ∀ s e t, P s → ok s e → sys.step s e = some t → P t)
    {s : S} (h : sys.Reachable ok s) : P s := by
  induction h with
  | start hi => exact hInit _ hi
  | next _ hOk hs ih => exact hStep _ _ _ ih hOk hs

variable (sys)

/-- Take the listed events one after the other. -/
def run (s : S) : List E → Option S
  | [] => some s
  | e :: es => (sys.step s e).bind fun t => run t es

/-- Every step of the listed run meets `ok`. -/
def RunOk (ok : S → E → Prop) (s : S) : List E → Prop
  | [] => True
  | e :: es => ok s e ∧ ∀ t, sys.step s e = some t → RunOk ok t es

variable {sys}

theorem reachable_of_run {ok : S → E → Prop} (es : List E) {s t : S}
    (h : sys.Reachable ok s) (hOk : sys.RunOk ok s es) (hRun : sys.run s es = some t) :
    sys.Reachable ok t := by
  induction es generalizing s with
  | nil => exact Option.some.inj hRun ▸ h
  | cons e es ih =>
    obtain ⟨u, hu, hRest⟩ := Option.bind_eq_some_iff.mp hRun
    exact ih (.next h hOk.1 hu) (hOk.2 u hu) hRest

variable (sys) in
/-- Take the listed events while each of them meets `ok`. -/
def runWhile (ok : S → E → Prop) [∀ s e, Decidable (ok s e)] (s : S) : List E → Option S
  | [] => some s
  | e :: es => if ok s e then (sys.step s e).bind fun t => runWhile ok t es else none

theorem reachable_of_runWhile {ok : S → E → Prop} [∀ s e, Decidable (ok s e)] (es : List E)
    {s t : S} (h : sys.Reachable ok s) (hRun : sys.runWhile ok s es = some t) :
    sys.Reachable ok t := by
  induction es generalizing s with
  | nil => exact Option.some.inj hRun ▸ h
  | cons e es ih =>
    rw [runWhile] at hRun
    split at hRun
    · rename_i hOk
      obtain ⟨u, hu, hRest⟩ := Option.bind_eq_some_iff.mp hRun
      exact ih (.next h hOk hu) hRest
    · cases hRun

/-- A condition that looks at the events only. -/
theorem runOk_of_forall {ok : S → E → Prop} (es : List E) (h : ∀ e ∈ es, ∀ s, ok s e) (s : S) :
    sys.RunOk ok s es := by
  induction es generalizing s with
  | nil => trivial
  | cons e es ih =>
    refine ⟨h e List.mem_cons_self s, fun t _ => ih (fun e' he' => ?_) t⟩
    exact h e' (List.mem_cons_of_mem _ he')

/-- The run lemma without a condition on the steps. -/
theorem reachable_of_run_any (es : List E) {s t : S} (hInit : sys.init s)
    (hRun : sys.run s es = some t) : sys.Reachable Any t :=
  reachable_of_run es (.start hInit) (runOk_of_forall es (fun _ _ _ => trivial) s) hRun

end System

/-! ## Threads -/

/-- **Interference rule.** `Ok i l` says what the memory promises thread `i`
in local state `l`; after thread `i` moved to `l'`, it holds for every thread
if it holds for the new local state of `i` and was kept for the others. -/
theorem forall_update {ι L : Type*} [DecidableEq ι] {Ok Ok' : ι → L → Prop} {threads : ι → L}
    {i : ι} {l' : L} (h : ∀ j, Ok j (threads j)) (hOwn : Ok' i l')
    (hOthers : ∀ j, j ≠ i → Ok j (threads j) → Ok' j (threads j)) :
    ∀ j, Ok' j (Function.update threads i l' j) := by
  intro j
  by_cases hj : j = i
  · subst hj
    simpa using hOwn
  · simpa [Function.update_of_ne hj] using hOthers j hj (h j)

/-- The number of threads whose local state is of a kind. -/
def headcount {ι L : Type*} [Fintype ι] (kind : L → Bool) (threads : ι → L) : Nat :=
  ∑ i, (kind (threads i)).toNat

section Headcount

variable {ι L : Type*} [Fintype ι] {kind : L → Bool} {threads : ι → L}

theorem headcount_congr {kind' : L → Bool} {threads' : ι → L}
    (h : ∀ i, kind' (threads' i) = kind (threads i)) :
    headcount kind' threads' = headcount kind threads :=
  Finset.sum_congr rfl fun i _ => by rw [h i]

theorem headcount_eq_zero_iff : headcount kind threads = 0 ↔ ∀ i, kind (threads i) = false := by
  rw [headcount, Finset.sum_eq_zero_iff]
  simp [Bool.toNat_eq_zero]

theorem headcount_pos (i : ι) (h : kind (threads i) = true) : 0 < headcount kind threads := by
  rw [Nat.pos_iff_ne_zero, ne_eq, headcount_eq_zero_iff]
  intro hNone
  simp [hNone i] at h

/-- One thread moves. -/
theorem headcount_update [DecidableEq ι] (i : ι) (l : L) :
    headcount kind (Function.update threads i l) + (kind (threads i)).toNat =
      headcount kind threads + (kind l).toNat := by
  unfold headcount
  rw [← Finset.add_sum_erase _ _ (Finset.mem_univ i),
    ← Finset.add_sum_erase _ (fun j => (kind (threads j)).toNat) (Finset.mem_univ i)]
  have hRest : ∑ j ∈ Finset.univ.erase i, (kind (Function.update threads i l j)).toNat =
      ∑ j ∈ Finset.univ.erase i, (kind (threads j)).toNat :=
    Finset.sum_congr rfl fun j hj => by rw [Function.update_of_ne (Finset.ne_of_mem_erase hj)]
  rw [hRest, Function.update_self]
  omega

/-- Two threads of a kind that has one are the same. -/
theorem eq_of_headcount_le_one [DecidableEq ι] (h : headcount kind threads ≤ 1) {i j : ι}
    (hi : kind (threads i) = true) (hj : kind (threads j) = true) : i = j := by
  by_contra hNe
  have hPair : ∑ k ∈ {i, j}, (kind (threads k)).toNat ≤ headcount kind threads :=
    Finset.sum_le_sum_of_subset (Finset.subset_univ _)
  rw [Finset.sum_pair hNe, hi, hj, Bool.toNat_true] at hPair
  omega

end Headcount

end ArmRx.Lib
