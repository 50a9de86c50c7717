import ArmRx.Mining.FillSafety

/-!
# A fill that is not disturbed completes

The exchange of the publish loop can store an older cursor over a newer one.
Nothing is lost by it, because whoever stores a bound different from the one
it finds goes round the loop again. So at any time either `contiguous_done_`
already stands in front of an unfinished chunk (`Settled`) or some worker is
still going to load it again (`Responsible`); the same holds of `item_count_`
with respect to `contiguous_done_`, and of `fill_complete_` with respect to
the workers that have not returned.

* `Progress` — the three debts of the publish loop.
* `Progress.step` — each step of a worker settles or hands on every debt.
* `fill_completes` — chunks and completion of an undisturbed fill.
-/

namespace ArmRx.Mining.PartialDataset

open ArmRx.Lib

variable {A : Nat} {m m' : Memory} {R : Nat}

/-! ## Debts of the publish loop -/

/-- `contiguous_done_` stands behind the leading finished chunks. -/
def Settled (A : Nat) (m : Memory) : Prop :=
  ∃ k ≤ m.chunkDone.length, m.contiguousDone = min (k * m.itemsPerChunk) A ∧
    (∀ j < k, Done m j) ∧ (k < m.chunkDone.length → ¬ Done m k)

/-- A worker here will load `contiguous_done_` again before it returns. -/
def Responsible (m : Memory) : FillPc → Prop
  | .loadCursor | .advance _ => True
  | .exchange cursor => cursor ≠ m.contiguousDone
  | .loadItemCount cursor prev | .raiseItemCount cursor prev _ => cursor ≠ prev
  | _ => False

/-- A worker here is about to raise `item_count_` to the current
`contiguous_done_`. -/
def Raising (m : Memory) : FillPc → Prop
  | .loadItemCount cursor _ | .raiseItemCount cursor _ _ => cursor = m.contiguousDone
  | _ => False

/-- The points before the chunk's flag is set, in a fill nobody disturbs. -/
def FillPc.filling : FillPc → Bool
  | .entry | .entryShutdown | .head _ | .headShutdown _ | .initializeDataset _ | .writing _
  | .markDone => true
  | _ => false

/-- What one worker of an undisturbed fill knows in addition. -/
def Undisturbed (m : Memory) : FillPc → Prop
  | .failed | .failedStop => False
  | .raiseItemCount _ _ itemPrev => itemPrev ≤ m.itemCount
  | _ => True

/-- The state of a fill in progress: `spawned` workers run, the rest of the
chunks have no worker yet. -/
structure Progress (A : Nat) (m : Memory) (spawned : Nat) (pcs : Nat → FillPc) : Prop where
  undisturbed : ∀ i, Undisturbed m (pcs i)
  filling : ∀ i < m.chunkDone.length, ¬ Done m i → i < spawned → (pcs i).filling = true
  contiguous : Settled A m ∨ ∃ i, Responsible m (pcs i)
  itemCount : m.contiguousDone ≤ m.itemCount ∨ ∃ i, Raising m (pcs i)
  complete : m.fillComplete = true ∨
    ∃ i < m.chunkDone.length, spawned ≤ i ∨ pcs i ≠ .returned

/-- **Completion.** Once every chunk has had a worker and all of them have
returned, the three counters are final. -/
theorem Progress.final {pcs : Nat → FillPc} (hm : MemoryOk A m) (hSome : m.chunkDone ≠ [])
    (h : Progress A m m.chunkDone.length pcs) (hReturned : ∀ i, pcs i = .returned) :
    m.fillComplete = true ∧ m.itemCount = A ∧ m.contiguousDone = A := by
  have hc := hm.chunking hSome
  have hAll : ∀ i < m.chunkDone.length, Done m i := by
    intro i hi
    by_contra hNot
    have := h.filling i hi hNot hi
    simp [hReturned i, FillPc.filling] at this
  have hContiguous : m.contiguousDone = A := by
    rcases h.contiguous with ⟨k, hk, hEq, -, hStop⟩ | ⟨i, hResp⟩
    · have hFull : k = m.chunkDone.length := by
        by_contra hne
        exact hStop (by omega) (hAll k (by omega))
      rw [hEq, hFull]
      exact Nat.min_eq_right hc.cover
    · simp [hReturned i, Responsible] at hResp
  have hItems : m.contiguousDone ≤ m.itemCount := by
    rcases h.itemCount with hLe | ⟨i, hRaise⟩
    · exact hLe
    · simp [hReturned i, Raising] at hRaise
  have hComplete : m.fillComplete = true := by
    rcases h.complete with hDone | ⟨i, hi, hLate | hActive⟩
    · exact hDone
    · omega
    · exact absurd (hReturned i) hActive
  exact ⟨hComplete, Nat.le_antisymm hm.itemCount.le (by omega), hContiguous⟩

/-! ## What a step of a worker does for the debts -/

/-- What a step from `pc` to `pc'` owes the rest of the fill. -/
structure Pays (A : Nat) (m : Memory) (i : Nat) (st : Store) (pc pc' : FillPc) : Prop where
  undisturbed : Undisturbed (st.apply m) pc'
  filling : pc.filling = true → pc'.filling = true ∨ Done (st.apply m) i
  cursor : ((st.apply m).contiguousDone = m.contiguousDone ∧
    ∀ j, Done (st.apply m) j → Done m j) ∨ Responsible (st.apply m) pc'
  responsible : Responsible m pc → Responsible (st.apply m) pc' ∨ Settled A (st.apply m)
  raised : (st.apply m).contiguousDone = m.contiguousDone ∨ Raising (st.apply m) pc'
  raising : Raising m pc →
    Raising (st.apply m) pc' ∨ (st.apply m).contiguousDone ≤ (st.apply m).itemCount
  returned : pc' = .returned → (st.apply m).fillComplete = true ∨
    (st = .none ∧ pc = .checkContiguous ∧ m.contiguousDone < A)

/-- A step that only loads, from a point with no debt of its own to a point
the worker does not return at. -/
theorem Pays.load {i : Nat} {pc pc' : FillPc} (hUndisturbed : Undisturbed m pc')
    (hFilling : pc.filling = true → pc'.filling = true)
    (hResp : Responsible m pc → Responsible m pc' ∨ Settled A m)
    (hRaise : Raising m pc → Raising m pc' ∨ m.contiguousDone ≤ m.itemCount)
    (hStay : pc' ≠ .returned) : Pays A m i .none pc pc' where
  undisturbed := hUndisturbed
  filling := fun h => .inl (hFilling h)
  cursor := .inl ⟨rfl, fun _ h => h⟩
  responsible := hResp
  raised := .inl rfl
  raising := hRaise
  returned := fun h => absurd h hStay

/-- The inner loop stops where it must: a safe cursor it cannot move is in
front of an unfinished chunk or at the end. -/
theorem MemoryOk.settled_of_stuck (hm : MemoryOk A m) (hSome : m.chunkDone ≠ []) {x : Nat}
    (hx : Safe A m x) (hEq : x = m.contiguousDone) (hStuck : advanceCursor A m x = none) :
    Settled A m := by
  obtain ⟨k, hk, hCursor, hDone⟩ := hx
  have hc := hm.chunking hSome
  have hPos := hc.itemsPerChunk_pos
  refine ⟨k, hk, hEq ▸ hCursor, hDone, fun hLt hFlag => ?_⟩
  -- chunk `k` starts inside the buffer, so the cursor stands at its first item
  have hStart := hc.start_lt_end hLt
  have hInside : k * m.itemsPerChunk < A := by
    unfold chunkEnd chunkStart at hStart
    omega
  have hAt : x = k * m.itemsPerChunk := by omega
  have hFlag' : m.chunkDone[k]? = some true := hFlag
  simp [advanceCursor, hAt, hInside, Nat.mul_div_cancel _ hPos, hFlag'] at hStuck

/-- **Each step of an undisturbed worker pays.** -/
theorem fillWorker_pays {i : Nat} {w : FillWorker} {weakFails : Bool} {st : Store} {pc : FillPc}
    (hm : MemoryOk A m) (hw : WorkerOk A m i w) (hu : Undisturbed m w.pc)
    (hShutdown : m.shutdownRequested = false) (hStop : m.stop w.stop = false)
    (hStep : fillWorker A m w weakFails = some (st, pc)) : Pays A m i st w.pc pc := by
  have hActive : w.pc ≠ .returned := by
    intro hRet
    simp [fillWorker, hRet] at hStep
  obtain ⟨ha, hpc⟩ := hw hActive
  have hSome : m.chunkDone ≠ [] := List.ne_nil_of_length_pos (Nat.zero_lt_of_lt ha.lt)
  unfold fillWorker at hStep
  simp only [hShutdown, hStop, Bool.false_eq_true, if_false] at hStep
  split at hStep <;> rename_i hAt <;> rw [hAt] at hpc hu ⊢
  -- the entry, the sub-chunk loop and the handler
  · cases hStep
    exact .load trivial (fun _ => rfl) (fun h => h.elim) (fun h => h.elim) (by simp)
  · cases hStep
    exact .load trivial (fun _ => rfl) (fun h => h.elim) (fun h => h.elim) (by simp)
  · cases hStep
    split
    · exact .load trivial (fun _ => rfl) (fun h => h.elim) (fun h => h.elim) (by simp)
    · exact .load trivial (fun _ => rfl) (fun h => h.elim) (fun h => h.elim) (by simp)
  · cases hStep
    exact .load trivial (fun _ => rfl) (fun h => h.elim) (fun h => h.elim) (by simp)
  · cases hStep
    exact ⟨trivial, fun _ => .inl rfl, .inl ⟨rfl, fun _ h => h⟩, fun h => h.elim, .inl rfl,
      fun h => h.elim, fun h => by simp at h⟩
  · cases hStep
    exact ⟨trivial, fun _ => .inl rfl, .inl ⟨rfl, fun _ h => h⟩, fun h => h.elim, .inl rfl,
      fun h => h.elim, fun h => by simp at h⟩
  · exact hu.elim
  · exact hu.elim
  -- the flag: whoever sets one goes through the publish loop
  · cases hStep
    have hDone : Done ((Store.chunkDone w.chunkId).apply m) i := by
      rw [ha.chunkId]
      exact (done_set_iff m i i).mpr (.inr ⟨rfl, ha.lt⟩)
    exact ⟨trivial, fun _ => .inr hDone, .inr trivial, fun h => h.elim, .inl rfl,
      fun h => h.elim, fun h => by simp at h⟩
  -- the publish loop
  · cases hStep
    exact .load trivial (fun h => by simp [FillPc.filling] at h) (fun _ => .inl trivial)
      (fun h => h.elim) (by simp)
  · rename_i cursor
    cases hStep
    split
    · exact .load trivial (fun h => by simp [FillPc.filling] at h) (fun _ => .inl trivial)
        (fun h => h.elim) (by simp)
    · rename_i hStuck
      refine .load trivial (fun h => by simp [FillPc.filling] at h) (fun _ => ?_)
        (fun h => h.elim) (by simp)
      by_cases hEq : cursor = m.contiguousDone
      · exact .inr (hm.settled_of_stuck hSome hpc hEq hStuck)
      · exact .inl hEq
  · rename_i cursor
    cases hStep
    refine ⟨trivial, fun h => by simp [FillPc.filling] at h, ?_, fun h => .inl h, .inr rfl,
      fun h => h.elim, fun h => by simp at h⟩
    by_cases hEq : cursor = m.contiguousDone
    · exact .inl ⟨hEq, fun _ h => h⟩
    · exact .inr hEq
  · cases hStep
    exact .load (Nat.le_refl _) (fun h => by simp [FillPc.filling] at h) (fun h => .inl h)
      (fun h => .inl h) (by simp)
  · rename_i cursor prev itemPrev
    have hAfter : ∀ m : Memory, Undisturbed m (afterPublish cursor prev) ∧
        (cursor ≠ prev → Responsible m (afterPublish cursor prev)) ∧
        afterPublish cursor prev ≠ .returned := by
      intro m
      unfold afterPublish
      split
      · rename_i hEq
        exact ⟨trivial, fun hne => absurd hEq hne, by simp⟩
      · exact ⟨trivial, fun _ => trivial, by simp⟩
    split at hStep
    · split at hStep
      · cases hStep
        exact ⟨(hAfter _).1, fun h => by simp [FillPc.filling] at h, .inl ⟨rfl, fun _ h => h⟩,
          fun h => .inl ((hAfter _).2.1 h), .inl rfl, fun h => .inr (Nat.le_of_eq h.symm),
          fun h => absurd h (hAfter m).2.2⟩
      · cases hStep
        exact .load (Nat.le_refl _) (fun h => by simp [FillPc.filling] at h) (fun h => .inl h)
          (fun h => .inl h) (by simp)
    · rename_i hReached
      cases hStep
      refine .load (hAfter m).1 (fun h => by simp [FillPc.filling] at h)
        (fun h => .inl ((hAfter m).2.1 h)) (fun h => .inr ?_) (hAfter m).2.2
      have hCursor : cursor = m.contiguousDone := h
      have hPrev : itemPrev ≤ m.itemCount := hu
      omega
  -- the completion test
  · cases hStep
    exact .load trivial (fun h => by simp [FillPc.filling] at h) (fun h => h.elim)
      (fun h => h.elim) (by simp)
  · cases hStep
    exact .load trivial (fun h => by simp [FillPc.filling] at h) (fun h => h.elim)
      (fun h => h.elim) (by simp)
  · cases hStep
    split
    · exact .load trivial (fun h => by simp [FillPc.filling] at h) (fun h => h.elim)
        (fun h => h.elim) (by simp)
    · rename_i hShort
      exact ⟨trivial, fun h => by simp [FillPc.filling] at h, .inl ⟨rfl, fun _ h => h⟩,
        fun h => h.elim, .inl rfl, fun h => h.elim,
        fun _ => .inr ⟨rfl, rfl, Nat.lt_of_not_le hShort⟩⟩
  · cases hStep
    exact ⟨trivial, fun h => by simp [FillPc.filling] at h, .inl ⟨rfl, fun _ h => h⟩,
      fun h => h.elim, .inl rfl, fun h => h.elim, fun _ => .inl rfl⟩
  · cases hStep

section Step

variable {n i : Nat} {pcs : Nat → FillPc} {st : Store} {pc' : FillPc}

/-- Whoever still owes a load of `contiguous_done_` has not returned. -/
theorem Responsible.active {pc : FillPc} (h : Responsible m pc) : pc ≠ .returned := by
  rintro rfl
  exact h

/-- A worker other than `i` keeps its debt while the cursor stands. -/
theorem Responsible.other {pc : FillPc} (h : Responsible m pc)
    (hCursor : m'.contiguousDone = m.contiguousDone) : Responsible m' pc := by
  cases pc <;> try exact h
  simpa [Responsible, hCursor] using h

theorem Raising.other {pc : FillPc} (h : Raising m pc)
    (hCursor : m'.contiguousDone = m.contiguousDone) : Raising m' pc := by
  cases pc <;> try exact h
  all_goals simpa [Raising, hCursor] using h

theorem Undisturbed.other {pc : FillPc} (h : Undisturbed m pc)
    (hCount : m.itemCount ≤ m'.itemCount) : Undisturbed m' pc := by
  cases pc <;> try exact h
  exact Nat.le_trans h hCount

/-- A worker that leaves with an unfinished bound in sight is not the last. -/
theorem Progress.not_last (h : Progress A m n pcs) (hm : MemoryOk A m)
    (hRunning : ∀ j, pcs j ≠ .returned → j < m.chunkDone.length ∧ j < n)
    (hAt : pcs i = .checkContiguous) (hShort : m.contiguousDone < A) :
    ∃ j < m.chunkDone.length, j ≠ i ∧ (n ≤ j ∨ pcs j ≠ .returned) := by
  rcases h.contiguous with ⟨k, hk, hEq, -, hNext⟩ | ⟨j, hResp⟩
  · obtain ⟨hi, hin⟩ := hRunning i (by simp [hAt])
    have hCover := (hm.chunking (List.ne_nil_of_length_pos (Nat.zero_lt_of_lt hi))).cover
    have hLt : k < m.chunkDone.length := by
      rcases Nat.lt_or_eq_of_le hk with hLt | rfl
      · exact hLt
      · omega
    by_cases hn : n ≤ k
    · exact ⟨k, hLt, by omega, .inl hn⟩
    · have hFill := h.filling k hLt (hNext hLt) (Nat.lt_of_not_le hn)
      refine ⟨k, hLt, ?_, .inr ?_⟩
      · rintro rfl
        simp [hAt, FillPc.filling] at hFill
      · intro hRet
        simp [hRet, FillPc.filling] at hFill
  · refine ⟨j, (hRunning j hResp.active).1, ?_, .inr hResp.active⟩
    rintro rfl
    rw [hAt] at hResp
    exact hResp

/-- **One step of a worker.** Every debt is settled or handed on. -/
theorem Progress.step (h : Progress A m n pcs) (hm : MemoryOk A m)
    (hRunning : ∀ j, pcs j ≠ .returned → j < m.chunkDone.length ∧ j < n)
    (hActive : pcs i ≠ .returned) (g : Guarantee A i m (st.apply m))
    (hPays : Pays A m i st (pcs i) pc') :
    Progress A (st.apply m) n (Function.update pcs i pc') where
  undisturbed := forall_update h.undisturbed hPays.undisturbed
    (fun j _ hj => hj.other g.itemCount)
  filling := by
    intro j hj hNot hjn
    rw [g.length] at hj
    by_cases hji : j = i
    · subst hji
      rw [Function.update_self]
      have hOld := h.filling j hj (fun hd => hNot (g.done j hd)) hjn
      exact (hPays.filling hOld).resolve_right hNot
    · rw [Function.update_of_ne hji]
      exact h.filling j hj (fun hd => hNot (g.done j hd)) hjn
  contiguous := by
    -- a step that moves the cursor or sets a flag takes the debt over
    rcases hPays.cursor with ⟨hCursor, hFlags⟩ | hResp
    · rcases h.contiguous with ⟨k, hk, hEq, hDone, hNext⟩ | ⟨j, hResp⟩
      · left
        refine ⟨k, g.length ▸ hk, ?_, fun j hj => g.done j (hDone j hj), fun hLt hd => ?_⟩
        · rw [hCursor, g.itemsPerChunk]
          exact hEq
        · exact hNext (g.length ▸ hLt) (hFlags k hd)
      · by_cases hji : j = i
        · subst hji
          rcases hPays.responsible hResp with hNew | hSettled
          · exact .inr ⟨j, by rwa [Function.update_self]⟩
          · exact .inl hSettled
        · exact .inr ⟨j, by rw [Function.update_of_ne hji]; exact hResp.other hCursor⟩
    · exact .inr ⟨i, by rwa [Function.update_self]⟩
  itemCount := by
    rcases hPays.raised with hCursor | hRaise
    · rcases h.itemCount with hLe | ⟨j, hRaise⟩
      · left
        rw [hCursor]
        exact hLe.trans g.itemCount
      · by_cases hji : j = i
        · subst hji
          rcases hPays.raising hRaise with hNew | hLe
          · exact .inr ⟨j, by rwa [Function.update_self]⟩
          · exact .inl hLe
        · exact .inr ⟨j, by rw [Function.update_of_ne hji]; exact hRaise.other hCursor⟩
    · exact .inr ⟨i, by rwa [Function.update_self]⟩
  complete := by
    rw [g.length]
    by_cases hRet : pc' = .returned
    · rcases hPays.returned hRet with hDone | ⟨-, hAt, hShort⟩
      · exact .inl hDone
      · -- a worker that leaves without completing the fill is not the last one
        obtain ⟨j, hj, hji, hLeft⟩ := h.not_last hm hRunning hAt hShort
        exact .inr ⟨j, hj, by rwa [Function.update_of_ne hji]⟩
    · exact .inr ⟨i, (hRunning i hActive).1, .inr (by rwa [Function.update_self])⟩

/-- A new worker takes the next chunk. -/
theorem Progress.spawn (h : Progress A m n pcs) (hIdle : pcs n = .returned) :
    Progress A m (n + 1) (Function.update pcs n .entry) where
  undisturbed := forall_update h.undisturbed trivial (fun _ _ hj => hj)
  filling := by
    intro j hj hNot hjn
    by_cases hjEq : j = n
    · subst hjEq
      rw [Function.update_self]
      rfl
    · rw [Function.update_of_ne hjEq]
      exact h.filling j hj hNot (by omega)
  contiguous := by
    refine h.contiguous.imp_right fun ⟨j, hResp⟩ => ⟨j, ?_⟩
    have hne : j ≠ n := by
      rintro rfl
      exact hResp.active hIdle
    rwa [Function.update_of_ne hne]
  itemCount := by
    refine h.itemCount.imp_right fun ⟨j, hRaise⟩ => ⟨j, ?_⟩
    have hne : j ≠ n := by
      rintro rfl
      rw [hIdle] at hRaise
      exact hRaise
    rwa [Function.update_of_ne hne]
  complete := by
    refine h.complete.imp_right fun ⟨j, hj, hLeft⟩ => ⟨j, hj, ?_⟩
    by_cases hjEq : j = n
    · subst hjEq
      exact .inr (by simp)
    · rw [Function.update_of_ne hjEq]
      exact hLeft.imp_left (by omega)

end Step

/-- A fill starts without debts: nothing is published and every chunk still
waits for its worker. -/
theorem Progress.start {pcs : Nat → FillPc} (hSome : m.chunkDone ≠ [])
    (hFlags : ∀ j, ¬ Done m j) (hCont : m.contiguousDone = 0)
    (hReturned : ∀ i, pcs i = .returned) : Progress A m 0 pcs where
  undisturbed := fun i => by rw [hReturned i]; trivial
  filling := fun i _ _ hi => absurd hi (Nat.not_lt_zero i)
  contiguous := .inl ⟨0, Nat.zero_le _, by simp [hCont], fun j hj => absurd hj (Nat.not_lt_zero j),
    fun _ => hFlags 0⟩
  itemCount := .inl (by omega)
  complete := .inr ⟨0, List.length_pos_of_ne_nil hSome, .inl (Nat.zero_le 0)⟩

/-! ## Undisturbed runs -/

/-- No cancellation and no exception. -/
def Quiet (_ : State R) : Event R → Prop
  | .throws _ | .cancel | .cancelToken _ => False
  | _ => True

/-- The workers of the last rotation are spawned and the next one, if any, has
not joined them. -/
def Rotation.spawned : Rotation → Bool
  | .idle | .checkShutdown | .join => true
  | _ => false

/-- The fill of the current vector of flags is on its way. -/
structure FillOk (d : Allocation) (s : State R) : Prop where
  some : s.memory.chunkDone ≠ []
  le : s.fillThreads ≤ s.memory.chunkDone.length
  progress : Progress d.items s.memory s.fillThreads fun i => (s.workers i).pc

/-- The invariant of an undisturbed run. -/
structure QuietInv (d : Allocation) (s : State R) : Prop where
  inv : Inv d s
  shutdown : s.memory.shutdownRequested = false
  stop : ∀ token, s.memory.stop token = false
  unset : s.memory.chunkDone = [] → s.memory.cacheHolder = 0
  spawned : s.rotation.spawned = true → s.memory.chunkDone ≠ [] →
    FillOk d s ∧ s.fillThreads = s.memory.chunkDone.length
  spawning : ∀ i, s.rotation = .spawn i → FillOk d s

theorem quietInv_initial (d : Allocation) : QuietInv d (State.initial R d) where
  inv := inv_initial d
  shutdown := rfl
  stop := fun _ => rfl
  unset := fun _ => rfl
  spawned := fun _ h => absurd rfl h
  spawning := fun i h => by simp [State.initial] at h

section QuietRuns

variable {d : Allocation} {s t : State R}

/-- Only the exception handler stops a fill. -/
theorem pc_of_store_stop {w : FillWorker} {weakFails : Bool} {token : Nat} {pc : FillPc}
    (h : fillWorker A m w weakFails = some (.stop token, pc)) : w.pc = .failedStop := by
  unfold fillWorker at h
  split at h <;> first | assumption | (split at h <;> (try split at h) <;> cases h) | cases h

/-- While a worker runs, the rotation is outside its reset. -/
theorem QuietInv.fillOk (h : QuietInv d s) {i : Nat} (hActive : (s.workers i).pc ≠ .returned) :
    FillOk d s := by
  have hLt := h.inv.lt_fillThreads hActive
  have hSome : s.memory.chunkDone ≠ [] :=
    List.ne_nil_of_length_pos (Nat.zero_lt_of_lt (h.inv.workers i hActive).1.lt)
  have hRotation := h.inv.rotation
  unfold RotationOk at hRotation
  cases hRot : s.rotation with
  | idle | checkShutdown | join => exact (h.spawned (by simp [hRot, Rotation.spawned]) hSome).1
  | spawn j => exact h.spawning j hRot
  | _ =>
    simp only [hRot] at hRotation
    omega

/-- A step of a worker keeps the fill on its way. -/
theorem FillOk.workerStep (h : FillOk d s) (hInv : Inv d s) {i : Nat}
    (hActive : (s.workers i).pc ≠ .returned) {st : Store} {pc : FillPc}
    (hOk : StoreOk d.items s.memory i st) (hPays : Pays d.items s.memory i st (s.workers i).pc pc) :
    FillOk d (s.workerStep i st pc) := by
  have g := guarantee_apply hOk
  refine ⟨?_, ?_, ?_⟩
  · intro hNil
    have hLen : (st.apply s.memory).chunkDone.length = 0 := by
      rw [show (st.apply s.memory).chunkDone = [] from hNil]
      rfl
    rw [g.length] at hLen
    exact h.some (List.length_eq_zero_iff.mp hLen)
  · show s.fillThreads ≤ (st.apply s.memory).chunkDone.length
    rw [g.length]
    exact h.le
  · have hPcs : (fun j => ((s.workerStep i st pc).workers j).pc) =
        Function.update (fun j => (s.workers j).pc) i pc :=
      funext fun j => Function.apply_update (fun _ w => w.pc) s.workers i _ j
    rw [hPcs]
    exact h.progress.step hInv.memory
      (fun j hj => ⟨(hInv.workers j hj).1.lt, hInv.lt_fillThreads hj⟩) hActive g hPays

/-- The parts of the state the invariant of undisturbed runs looks at. -/
theorem QuietInv.frame (h : QuietInv d s) (hInv : Inv d t) (hMem : t.memory = s.memory)
    (hWorkers : t.workers = s.workers) (hThreads : t.fillThreads = s.fillThreads)
    (hSpawned : t.rotation.spawned = true → s.rotation.spawned = true)
    (hSpawn : ∀ i, t.rotation = .spawn i → s.rotation = .spawn i) : QuietInv d t where
  inv := hInv
  shutdown := hMem ▸ h.shutdown
  stop := hMem ▸ h.stop
  unset := hMem ▸ h.unset
  spawned := fun hRot hSome => by
    rw [hMem] at hSome
    obtain ⟨hFill, hAll⟩ := h.spawned (hSpawned hRot) hSome
    refine ⟨⟨?_, ?_, ?_⟩, ?_⟩
    · rw [hMem]
      exact hFill.some
    · rw [hMem, hThreads]
      exact hFill.le
    · rw [hMem, hThreads, hWorkers]
      exact hFill.progress
    · rw [hMem, hThreads]
      exact hAll
  spawning := fun i hRot => by
    have hFill := h.spawning i (hSpawn i hRot)
    refine ⟨?_, ?_, ?_⟩
    · rw [hMem]
      exact hFill.some
    · rw [hMem, hThreads]
      exact hFill.le
    · rw [hMem, hThreads, hWorkers]
      exact hFill.progress

/-- A statement of `start_fill` between the join and the first spawn: the
previous fill is over and the next one has not begun. -/
theorem QuietInv.between (h : QuietInv d s) (hInv : Inv d t)
    (hMem : t.memory.shutdownRequested = s.memory.shutdownRequested)
    (hStop : ∀ token, t.memory.stop token = false)
    (hUnset : t.memory.chunkDone = [] → t.memory.cacheHolder = 0)
    (hSpawned : t.rotation.spawned = false) (hSpawn : ∀ i, t.rotation ≠ .spawn i) :
    QuietInv d t where
  inv := hInv
  shutdown := hMem.trans h.shutdown
  stop := hStop
  unset := hUnset
  spawned := fun hRot => absurd hRot (by simp [hSpawned])
  spawning := fun i hRot => absurd hRot (hSpawn i)

/-- **Each statement of `start_fill` keeps the invariant.** -/
theorem QuietInv.startFill (h : QuietInv d s) (hStep : startFill d s = some t) :
    QuietInv d t := by
  have hInv := h.inv.startFill hStep
  have hRotation := h.inv.rotation
  unfold RotationOk at hRotation
  unfold PartialDataset.startFill at hStep
  cases hRot : s.rotation with
  | idle => simp [hRot] at hStep
  | checkShutdown =>
    have hFrom : s.rotation.spawned = true := by simp [hRot, Rotation.spawned]
    simp only [hRot, h.shutdown, Bool.false_eq_true, if_false] at hStep
    split at hStep <;> cases hStep <;>
      exact h.frame hInv rfl rfl rfl (fun _ => hFrom) (fun i hi => by simp at hi)
  | join =>
    simp only [hRot] at hStep
    split at hStep
    · cases hStep
      exact h.between hInv rfl h.stop h.unset rfl (fun i => by simp)
    · cases hStep
  | acquire =>
    simp only [hRot] at hStep
    split at hStep
    · cases hStep
      exact h.between hInv rfl h.stop h.unset rfl (fun i => by simp)
    · cases hStep
  | lock | resetItemCount | resetContiguous | resetComplete | resetFailed | bumpGeneration
  | unlock =>
    simp only [hRot] at hStep
    cases hStep
    exact h.between hInv rfl h.stop h.unset rfl (fun i => by simp)
  | swapStop =>
    simp only [hRot] at hStep
    cases hStep
    refine h.between hInv rfl (fun token => ?_) h.unset rfl (fun i => by simp)
    show Function.update s.memory.stop (s.memory.stopToken + 1) false token = false
    by_cases hToken : token = s.memory.stopToken + 1
    · simp [hToken]
    · rw [Function.update_of_ne hToken]
      exact h.stop token
  | setUp =>
    simp only [hRot] at hStep hRotation
    obtain ⟨hPos, hZero, -, hCont, -⟩ := hRotation
    cases hStep
    have hSome : List.replicate (s.call.numWorkers d.items) false ≠ [] := by
      have := numWorkers_pos s.call hPos
      exact List.ne_nil_of_length_pos (by simpa using this)
    exact {
      inv := hInv
      shutdown := h.shutdown
      stop := h.stop
      unset := fun hNil => absurd hNil hSome
      spawned := fun hRot' => by simp [Rotation.spawned] at hRot'
      spawning := fun i _ => ⟨hSome, by simp [hZero], by
        simp only [hZero]
        exact Progress.start hSome (not_done_replicate rfl) hCont (h.inv.all_returned hZero)⟩ }
  | spawn i =>
    simp only [hRot] at hStep hRotation
    obtain ⟨hPos, -, hThreads, hLen, -⟩ := hRotation
    have hFill := h.spawning i hRot
    split at hStep
    · rename_i hSpawn
      cases hStep
      have hPcs : ∀ w : FillWorker, w.pc = .entry →
          (fun j => (Function.update s.workers i w j).pc) =
            Function.update (fun j => (s.workers j).pc) s.fillThreads .entry := by
        intro w hw
        rw [hThreads, ← hw]
        exact funext fun j => Function.apply_update (fun _ w => w.pc) s.workers i w j
      refine {
        inv := hInv
        shutdown := h.shutdown
        stop := h.stop
        unset := h.unset
        spawned := fun hRot' => by simp [Rotation.spawned] at hRot'
        spawning := fun _ _ => ⟨hFill.some, ?_, ?_⟩ }
      · simp only [hThreads, hLen]
        omega
      · have hNew := hFill.progress.spawn (h.inv.spawned s.fillThreads (Nat.le_refl _))
        rw [← hPcs ⟨s.memory.cacheHolder, s.memory.stopToken, chunkStart s.memory.itemsPerChunk i,
          chunkEnd d.items s.memory.itemsPerChunk i, i, .entry⟩ rfl] at hNew
        exact hNew
    · rename_i hDone
      cases hStep
      -- no chunk is empty, so the loop only ends behind the last one
      have hc := h.inv.memory.chunking hFill.some
      have hAll : s.fillThreads = s.memory.chunkDone.length := by
        refine Nat.le_antisymm hFill.le ?_
        by_contra hShort
        have hi : i < s.memory.chunkDone.length := by omega
        exact hDone ⟨hLen ▸ hi, hc.start_lt_end hi⟩
      exact {
        inv := hInv
        shutdown := h.shutdown
        stop := h.stop
        unset := h.unset
        spawned := fun _ _ => ⟨⟨hFill.some, hFill.le, hFill.progress⟩, hAll⟩
        spawning := fun j hj => by simp at hj }

/-- **One step of an undisturbed run.** -/
theorem quietInv_step (s : State R) (e : Event R) (t : State R) (h : QuietInv d s)
    (hQuiet : Quiet s e) (hStep : step d s e = some t) : QuietInv d t := by
  have hInv := inv_step s e t h.inv hStep
  cases e with
  | startFill call =>
    simp only [step] at hStep
    split at hStep
    · rename_i hIdle
      cases hStep
      refine h.frame hInv rfl rfl rfl (fun _ => by simp [hIdle, Rotation.spawned]) fun i hi => ?_
      by_cases hZero : d.items = 0 <;> simp [hZero] at hi
    · cases hStep
  | rotation => exact h.startFill hStep
  | worker i weakFails =>
    obtain ⟨⟨st, pc⟩, hWorker, rfl⟩ := Option.map_eq_some_iff.mp hStep
    have hActive : (s.workers i).pc ≠ .returned := by
      intro hRet
      simp [fillWorker, hRet] at hWorker
    have hFill := h.fillOk hActive
    have hUndisturbed := hFill.progress.undisturbed i
    have hPays := fillWorker_pays h.inv.memory (h.inv.workers i) hUndisturbed h.shutdown
      (h.stop _) hWorker
    have hOk := (fillWorker_ok h.inv.memory (h.inv.workers i) hWorker).1
    have g := guarantee_apply hOk
    have hFill' := hFill.workerStep h.inv hActive hOk hPays
    exact {
      inv := hInv
      shutdown := by cases st <;> exact h.shutdown
      stop := by
        cases st with
        | stop token =>
          rw [pc_of_store_stop hWorker] at hUndisturbed
          exact hUndisturbed.elim
        | _ => exact h.stop
      unset := fun hNil => absurd hNil hFill'.some
      spawned := fun hRot _ => ⟨hFill', by
        show s.fillThreads = (st.apply s.memory).chunkDone.length
        rw [g.length]
        exact (h.spawned hRot hFill.some).2⟩
      spawning := fun _ _ => hFill' }
  | throws i => exact hQuiet.elim
  | cancel => exact hQuiet.elim
  | cancelToken token => exact hQuiet.elim
  | lockShared r =>
    simp only [step] at hStep
    split at hStep <;> cases hStep
    exact h.frame hInv rfl rfl rfl (fun h => h) (fun _ h => h)
  | readGeneration r =>
    simp only [step] at hStep
    split at hStep <;> cases hStep
    exact h.frame hInv rfl rfl rfl (fun h => h) (fun _ h => h)
  | readItemCount r =>
    simp only [step] at hStep
    split at hStep <;> cases hStep
    exact h.frame hInv rfl rfl rfl (fun h => h) (fun _ h => h)
  | unlockShared r =>
    simp only [step] at hStep
    split at hStep <;> cases hStep
    exact h.frame hInv rfl rfl rfl (fun h => h) (fun _ h => h)

end QuietRuns

theorem quietInv_reachable {d : Allocation} {s : State R}
    (h : (system d R).Reachable Quiet s) : QuietInv d s :=
  h.induct (fun _ hInit => hInit ▸ quietInv_initial d)
    (fun s e t hs hQuiet hStep => quietInv_step s e t hs hQuiet hStep)

/-- **Fill completion.** For every buffer size and core list the chunks of a
rotation are non-empty and each item lies in exactly one of them; and in
every run without cancellation and exception, once a rotation has spawned its
workers and all of them have returned, `fill_complete_` is set and both
`item_count_` and `contiguous_done_` are the allocated item count. -/
theorem fill_completes (d : Allocation) (hPos : 0 < d.items) :
    (∀ call : FillCall,
      let workers := call.numWorkers d.items
      let itemsPerChunk := call.itemsPerWorker d.items
      0 < workers ∧
      (∀ i < workers, chunkStart itemsPerChunk i < chunkEnd d.items itemsPerChunk i ∧
        chunkEnd d.items itemsPerChunk i ≤ d.items) ∧
      ∀ x < d.items, ∃! i, i < workers ∧
        chunkStart itemsPerChunk i ≤ x ∧ x < chunkEnd d.items itemsPerChunk i) ∧
    ∀ (R : Nat) (s : State R), (system d R).Reachable Quiet s → 0 < s.memory.generation →
      s.rotation.spawned = true → (∀ i, (s.workers i).pc = .returned) →
      s.memory.fillComplete = true ∧ s.memory.itemCount = d.items ∧
        s.memory.contiguousDone = d.items := by
  constructor
  · intro call workers itemsPerChunk
    have hc : Chunking d.items workers itemsPerChunk := startFill_chunking call d hPos
    refine ⟨hc.workers_pos, fun i hi => ⟨hc.start_lt_end hi, Nat.min_le_right _ _⟩, fun x hx => ?_⟩
    refine ⟨x / itemsPerChunk, ⟨hc.div_lt hx, (hc.mem_iff hx).mpr rfl⟩, ?_⟩
    rintro i ⟨-, hMem⟩
    exact (hc.mem_iff hx).mp hMem
  · intro R s hReach hGen hSpawned hReturned
    have h := quietInv_reachable hReach
    have hCur : s.memory.cacheHolder = s.memory.generation := by
      have hRotation := h.inv.rotation
      unfold RotationOk at hRotation
      cases hRot : s.rotation <;>
        simp only [hRot, Rotation.spawned, Bool.false_eq_true] at hSpawned hRotation
      case idle => exact hRotation
      all_goals exact hRotation.2
    have hSome : s.memory.chunkDone ≠ [] := fun hNil => by
      have := h.unset hNil
      omega
    obtain ⟨hFill, hAll⟩ := h.spawned hSpawned hSome
    have hProgress := hFill.progress
    rw [hAll] at hProgress
    exact hProgress.final h.inv.memory hSome hReturned

/-- A fill by two workers to the end: they write side by side, the second one is done
first and has to leave the publishing to the other. -/
def wholeFillRun : List (Event 0) :=
  [Event.startFill ⟨true, [0, 1], []⟩] ++ List.replicate 15 Event.rotation ++
    (List.replicate 7 [Event.worker 0 false, .worker 1 false]).flatten ++
    List.replicate 9 (Event.worker 1 false) ++ List.replicate 17 (Event.worker 0 false)

theorem fill_completes_two_workers :
    ∃ s, (system twoChunks 0).run (.initial 0 twoChunks) wholeFillRun = some s ∧
      s.fillThreads = 2 ∧ s.memory.fillComplete = true ∧ s.memory.itemCount = twoChunks.items ∧
      s.memory.contiguousDone = twoChunks.items := by
  obtain ⟨s, hRun⟩ : ∃ s, (system twoChunks 0).run (.initial 0 twoChunks) wholeFillRun = some s :=
    ⟨_, rfl⟩
  have hReach : (system twoChunks 0).Reachable Quiet s := by
    refine System.reachable_of_run wholeFillRun (.start rfl) ?_ hRun
    refine System.runOk_of_forall wholeFillRun (fun e he s => ?_) _
    simp only [wholeFillRun, List.mem_append, List.mem_singleton, List.mem_replicate,
      List.mem_flatten] at he
    rcases he with (((rfl | ⟨-, rfl⟩) | ⟨_, ⟨-, rfl⟩, he⟩) | ⟨-, rfl⟩) | ⟨-, rfl⟩
    case inl.inl.inr =>
      rcases List.mem_pair.mp he with rfl | rfl <;> trivial
    all_goals trivial
  have hThreads : s.fillThreads = 2 := by
    cases hRun
    rfl
  have hReturned : ∀ i, (s.workers i).pc = .returned := by
    intro i
    match i with
    | 0 | 1 =>
      cases hRun
      rfl
    | i + 2 => exact (inv_reachable hReach).spawned (i + 2) (by rw [hThreads]; omega)
  exact ⟨s, hRun, hThreads, (fill_completes twoChunks (by decide)).2 0 s hReach
    (by cases hRun; decide) (by cases hRun; rfl) hReturned⟩

end ArmRx.Mining.PartialDataset
