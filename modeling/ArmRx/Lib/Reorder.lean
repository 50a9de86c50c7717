import ArmRx.Lib.Literals

/-!
# Rearranged lists of steps

A scheduler that emits steps in another order keeps their effect when any two
steps that depend on each other stay in order. `Rearranges` says so one step at
a time: the first step of the original list may stand behind others only when
none of them depends on it.

* `rearranges_of_pairwise` — an order given by positions is such a rearrangement.
* `Rearranges.foldlM_eq` — commuting steps may trade places in a partial fold.
* `Rearranges.filter_eq` — steps that all depend on each other keep their order.
-/

namespace ArmRx.Lib

/-- The second list is the first in another order, in which no element overtakes
one it depends on. -/
inductive Rearranges {α : Type} (dep : α → α → Prop) : List α → List α → Prop
  | nil : Rearranges dep [] []
  | cons {a : α} {l xs ys : List α} (hFree : ∀ x ∈ xs, ¬dep x a)
      (hRest : Rearranges dep l (xs ++ ys)) : Rearranges dep (a :: l) (xs ++ a :: ys)

namespace Rearranges

variable {α β : Type} {dep : α → α → Prop} {l l' : List α}

theorem perm (h : Rearranges dep l l') : l'.Perm l := by
  induction h with
  | nil => exact List.Perm.refl _
  | cons _ _ ih => exact List.perm_middle.trans (ih.cons _)

theorem map {dep' : β → β → Prop} (f : α → β) (h : Rearranges dep l l')
    (hDep : ∀ x ∈ l, ∀ y ∈ l, dep' (f x) (f y) → dep x y) :
    Rearranges dep' (l.map f) (l'.map f) := by
  induction h with
  | nil => exact .nil
  | @cons a l xs ys hFree hRest ih =>
    have hIn (x : α) (hx : x ∈ xs) : x ∈ l := hRest.perm.subset (List.mem_append_left _ hx)
    rw [List.map_cons, List.map_append, List.map_cons]
    refine .cons (fun y hy hBad => ?_) ?_
    · obtain ⟨x, hx, rfl⟩ := List.mem_map.mp hy
      exact hFree x hx (hDep x (List.mem_cons_of_mem _ (hIn x hx)) a List.mem_cons_self hBad)
    · rw [← List.map_append]
      exact ih fun x hx y hy => hDep x (List.mem_cons_of_mem _ hx) y (List.mem_cons_of_mem _ hy)

/-- Elements that depend on each other keep their order. -/
theorem filter_eq {p : α → Bool} (h : Rearranges dep l l')
    (hDep : ∀ x y, p x = true → p y = true → dep x y) : l'.filter p = l.filter p := by
  induction h with
  | nil => rfl
  | @cons a l xs ys hFree hRest ih =>
    rw [List.filter_append] at ih
    rw [List.filter_append, List.filter_cons, List.filter_cons, ← ih]
    by_cases ha : p a = true
    · -- nothing that is kept stands in front of `a`
      have hNone : xs.filter p = [] := by
        rw [List.filter_eq_nil_iff]
        exact fun x hx hpx => hFree x hx (hDep x a hpx ha)
      rw [if_pos ha, if_pos ha, hNone]
      rfl
    · rw [if_neg ha, if_neg ha]

variable {S : Type} {step : S → α → Option S}

/-- A step that commutes with a whole segment may run in front of it. -/
theorem foldlM_middle {a : α} {xs : List α}
    (hComm : ∀ x ∈ xs, ∀ s, (step s x).bind (step · a) = (step s a).bind (step · x))
    (ys : List α) (s : S) : (xs ++ a :: ys).foldlM step s = (a :: (xs ++ ys)).foldlM step s := by
  induction xs generalizing s with
  | nil => rfl
  | cons x xs ih =>
    have hSwap := hComm x List.mem_cons_self s
    have ih' (t : S) := ih (fun z hz => hComm z (List.mem_cons_of_mem _ hz)) t
    simp only [List.cons_append, List.foldlM_cons, Option.bind_eq_bind] at ih' ⊢
    simp only [ih', ← Option.bind_assoc, hSwap]

/-- **A rearrangement has the effect of the original order**, when steps that do
not depend on each other commute. -/
theorem foldlM_eq (h : Rearranges dep l l')
    (hComm : ∀ x ∈ l, ∀ y ∈ l, ¬dep x y →
      ∀ s, (step s x).bind (step · y) = (step s y).bind (step · x)) (s : S) :
    l'.foldlM step s = l.foldlM step s := by
  induction h generalizing s with
  | nil => rfl
  | @cons a l xs ys hFree hRest ih =>
    have hIn (x : α) (hx : x ∈ xs) : x ∈ l := hRest.perm.subset (List.mem_append_left _ hx)
    have hMove (x : α) (hx : x ∈ xs) :=
      hComm x (List.mem_cons_of_mem _ (hIn x hx)) a List.mem_cons_self (hFree x hx)
    rw [foldlM_middle hMove, List.foldlM_cons, List.foldlM_cons]
    refine congrArg _ (funext fun t => ?_)
    exact ih (fun x hx y hy => hComm x (List.mem_cons_of_mem _ hx) y (List.mem_cons_of_mem _ hy)) t

end Rearranges

/-! ## Orders of positions -/

/-- A permutation of an ascending list in which dependent elements ascend is a
rearrangement of it. -/
theorem rearranges_of_ascending {dep : Nat → Nat → Prop} {is order : List Nat}
    (hAscending : is.Pairwise (· < ·)) (hPerm : order.Perm is)
    (hKeep : order.Pairwise fun i j => dep i j → i < j) : Rearranges dep is order := by
  induction is generalizing order with
  | nil =>
    rw [hPerm.eq_nil]
    exact .nil
  | cons i is ih =>
    obtain ⟨hLeast, hTail⟩ := List.pairwise_cons.mp hAscending
    obtain ⟨xs, ys, rfl⟩ := List.append_of_mem (hPerm.symm.subset List.mem_cons_self)
    have hRest : (xs ++ ys).Perm is := (List.perm_middle.symm.trans hPerm).cons_inv
    refine .cons (fun x hx hDep => ?_) (ih hTail hRest (hKeep.sublist ?_))
    · -- everything in front of the least position is larger
      have hLt : x < i :=
        (List.pairwise_append.mp hKeep).2.2 x hx i List.mem_cons_self hDep
      have hGt : i < x := hLeast x (hRest.subset (List.mem_append_left _ hx))
      omega
    · exact (List.sublist_cons_self i ys).append_left xs

/-- An order of a list's positions that keeps dependent elements in order
rearranges the list. -/
theorem rearranges_of_pairwise {α : Type} {dep : α → α → Prop} {l : List α} {order : List Nat}
    (d : α) (hPerm : order.Perm (List.range l.length))
    (hKeep : order.Pairwise fun i j => dep (l.getD i d) (l.getD j d) → i < j) :
    Rearranges dep l (order.map fun i => l.getD i d) := by
  have hSelf : (List.range l.length).map (fun i => l.getD i d) = l := by
    refine List.ext_getElem (by simp) fun i hi hi' => ?_
    rw [List.getElem_map, List.getElem_range, List.getD_eq_getElem _ _ hi']
  have hOrder : Rearranges (fun i j => dep (l.getD i d) (l.getD j d)) (List.range l.length) order :=
    rearranges_of_ascending List.pairwise_lt_range hPerm hKeep
  have hMap : Rearranges dep _ _ := hOrder.map (fun i => l.getD i d) fun _ _ _ _ h => h
  rwa [hSelf] at hMap

end ArmRx.Lib
