import ArmRx.Mining.PartialDataset

/-!
# The published prefix is fully written

The workers of a rotation publish out of order, and the exchange of the
publish loop can move `contiguous_done_` backwards. What survives every
interleaving is that each bound in sight (`contiguous_done_`, `item_count_`
and every cursor a worker carries) ends a run of finished chunks (`Safe`),
and that a finished chunk is no longer written.

The proof is by rely and guarantee. `WorkerOk` is what one worker may count
on, `StoreOk` what it promises of its next store, and `Guarantee` what such a
store leaves to the others.

* `memoryOk_apply`, `guarantee_apply` — a promised store keeps the memory
  invariant and disturbs no other worker.
* `fillWorker_ok` — each step of `fill_worker` makes a promised store.
* `inv_step` — the invariant of the whole system is inductive.
* `published_prefix_written` — guarded readers and `fill_complete()`.
-/

namespace ArmRx.Mining.PartialDataset

open ArmRx.Lib

variable {A : Nat} {m m' : Memory} {R : Nat}

/-! ## Finished chunks and safe bounds -/

/-- The flag of chunk `j` is set. -/
def Done (m : Memory) (j : Nat) : Prop := m.chunkDone[j]? = some true

/-- The items of the range are fully written from the cache of the fill. -/
def Written (m : Memory) (first last : Nat) : Prop :=
  ∀ i, first ≤ i → i < last → m.data i = some m.cacheHolder

/-- `x` is the end of a run of finished chunks that starts at item 0. -/
def Safe (A : Nat) (m : Memory) (x : Nat) : Prop :=
  ∃ k ≤ m.chunkDone.length, x = min (k * m.itemsPerChunk) A ∧ ∀ j < k, Done m j

theorem safe_zero (A : Nat) (m : Memory) : Safe A m 0 :=
  ⟨0, Nat.zero_le _, by simp, fun j hj => absurd hj (Nat.not_lt_zero j)⟩

theorem Safe.le {x : Nat} (h : Safe A m x) : x ≤ A := by
  obtain ⟨k, -, rfl, -⟩ := h
  exact Nat.min_le_right _ _

/-- What the shared memory satisfies between two steps. -/
structure MemoryOk (A : Nat) (m : Memory) : Prop where
  chunking : m.chunkDone ≠ [] → Chunking A m.chunkDone.length m.itemsPerChunk
  written : ∀ j, Done m j →
    Written m (chunkStart m.itemsPerChunk j) (chunkEnd A m.itemsPerChunk j)
  contiguous : Safe A m m.contiguousDone
  itemCount : Safe A m m.itemCount
  complete : m.fillComplete = true → Safe A m A
  /-- Between the bump of the generation and the next set-up nothing is
  published. -/
  current : m.cacheHolder ≠ m.generation → m.itemCount = 0 ∧ m.fillComplete = false

theorem MemoryOk.safe_written (h : MemoryOk A m) {x : Nat} (hx : Safe A m x) : Written m 0 x := by
  obtain ⟨k, hk, rfl, hDone⟩ := hx
  intro i _ hi
  have hiA : i < A := by omega
  have hik : i < k * m.itemsPerChunk := by omega
  have hk0 : 0 < k := by
    rcases Nat.eq_zero_or_pos k with rfl | hPos
    · omega
    · exact hPos
  have hc := h.chunking (List.ne_nil_of_length_pos (by omega))
  have hj : i / m.itemsPerChunk < k := Nat.div_lt_of_lt_mul (by rwa [Nat.mul_comm])
  have hMem := (hc.mem_iff hiA).mpr rfl
  exact h.written _ (hDone _ hj) i hMem.1 hMem.2

/-- The inner loop stays on safe bounds: it moves to the end of the owning
chunk when that chunk is done. -/
theorem MemoryOk.advanceCursor_safe (h : MemoryOk A m) {x y : Nat} (hx : Safe A m x)
    (hy : advanceCursor A m x = some y) : Safe A m y := by
  obtain ⟨k, hk, rfl, hDone⟩ := hx
  unfold advanceCursor at hy
  split at hy
  · rename_i hLt
    dsimp only at hy
    split at hy
    · cases hy
    · cases hy
    · rename_i hOwn
      have hLen : min (k * m.itemsPerChunk) A / m.itemsPerChunk < m.chunkDone.length :=
        (List.getElem?_eq_some_iff.mp hOwn).1
      have hc := h.chunking (List.ne_nil_of_length_pos (Nat.zero_lt_of_lt hLen))
      have hPos := hc.itemsPerChunk_pos
      have hMin : min (k * m.itemsPerChunk) A = k * m.itemsPerChunk := by omega
      rw [hMin] at hOwn hLen hy hLt
      rw [Nat.mul_div_cancel _ hPos] at hOwn hLen hy
      refine ⟨k + 1, hLen, ?_, fun j hj => ?_⟩
      · have hCover := hc.cover
        have hSucc : (k + 1) * m.itemsPerChunk = k * m.itemsPerChunk + m.itemsPerChunk :=
          Nat.succ_mul _ _
        split at hy
        · -- the owning chunk is not the last one and ends where the next starts
          rename_i hNotLast
          have hNext : (k + 1) * m.itemsPerChunk ≤ (m.chunkDone.length - 1) * m.itemsPerChunk :=
            Nat.mul_le_mul_right _ (by omega)
          have hLast := hc.last
          have := Option.some.inj hy
          omega
        · have hEq : m.chunkDone.length = k + 1 := by omega
          rw [hEq] at hCover
          have := Option.some.inj hy
          omega
      · rcases Nat.lt_succ_iff_lt_or_eq.mp hj with hlt | rfl
        · exact hDone j hlt
        · exact hOwn
  · cases hy

/-! ## Stores and what they leave to the others -/

/-- What worker `i` promises of a store. -/
def StoreOk (A : Nat) (m : Memory) (i : Nat) : Store → Prop
  | .none | .fillFailed | .stop _ => True
  | .tear first last | .write first last _ =>
    chunkStart m.itemsPerChunk i ≤ first ∧ last ≤ chunkEnd A m.itemsPerChunk i ∧ ¬ Done m i
  | .chunkDone c =>
    c = i ∧ Written m (chunkStart m.itemsPerChunk i) (chunkEnd A m.itemsPerChunk i)
  | .contiguousDone x => Safe A m x
  | .itemCount x => Safe A m x ∧ m.itemCount < x ∧ m.cacheHolder = m.generation
  | .fillComplete => Safe A m A ∧ m.cacheHolder = m.generation

/-- What a step of worker `i` leaves as the others know it. -/
structure Guarantee (A i : Nat) (m m' : Memory) : Prop where
  generation : m'.generation = m.generation
  cacheHolder : m'.cacheHolder = m.cacheHolder
  itemsPerChunk : m'.itemsPerChunk = m.itemsPerChunk
  length : m'.chunkDone.length = m.chunkDone.length
  done : ∀ j, Done m j → Done m' j
  undone : ∀ j, j ≠ i → Done m' j → Done m j
  data : ∀ j, j ≠ i → ∀ x, chunkStart m.itemsPerChunk j ≤ x →
    x < chunkEnd A m.itemsPerChunk j → m'.data x = m.data x
  itemCount : m.itemCount ≤ m'.itemCount

theorem Guarantee.safe {i : Nat} (h : Guarantee A i m m') {x : Nat} (hx : Safe A m x) :
    Safe A m' x := by
  obtain ⟨k, hk, hEq, hDone⟩ := hx
  exact ⟨k, h.length ▸ hk, h.itemsPerChunk ▸ hEq, fun j hj => h.done j (hDone j hj)⟩

theorem done_set_iff (m : Memory) (i j : Nat) :
    Done ((Store.chunkDone i).apply m) j ↔ Done m j ∨ (j = i ∧ i < m.chunkDone.length) := by
  simp only [Done, Store.apply, List.getElem?_set]
  by_cases hij : i = j
  · subst hij
    by_cases hLen : i < m.chunkDone.length
    · simp [hLen]
    · simp [hLen]
  · simp [hij, Ne.symm hij]

/-- Chunks do not overlap. -/
theorem chunk_disjoint {ipc i j x : Nat} (hij : j ≠ i) (hLow : chunkStart ipc j ≤ x)
    (hHigh : x < chunkEnd A ipc j) (hLow' : chunkStart ipc i ≤ x) (hHigh' : x < chunkEnd A ipc i) :
    False := by
  unfold chunkEnd chunkStart at *
  rcases Nat.lt_or_gt_of_ne hij with h | h
  · have := Nat.mul_le_mul_right ipc (Nat.succ_le_of_lt h)
    rw [Nat.succ_mul] at this
    omega
  · have := Nat.mul_le_mul_right ipc (Nat.succ_le_of_lt h)
    rw [Nat.succ_mul] at this
    omega

/-- A write inside chunk `i` leaves the other chunks alone. -/
theorem overwrite_other {data : Nat → Option Nat} {ipc i j first last x : Nat}
    {value : Option Nat} (hFirst : chunkStart ipc i ≤ first) (hLast : last ≤ chunkEnd A ipc i)
    (hij : j ≠ i) (hLow : chunkStart ipc j ≤ x) (hHigh : x < chunkEnd A ipc j) :
    overwrite data first last value x = data x := by
  unfold overwrite
  split
  · rename_i hIn
    exact (chunk_disjoint hij hLow hHigh (hFirst.trans hIn.1) (hIn.2.trans_le hLast)).elim
  · rfl

theorem Guarantee.refl (A i : Nat) (m : Memory) : Guarantee A i m m :=
  ⟨rfl, rfl, rfl, rfl, fun _ h => h, fun _ _ h => h, fun _ _ _ _ _ => rfl, Nat.le_refl _⟩

/-- **A promised store disturbs no other worker.** -/
theorem guarantee_apply {i : Nat} {st : Store} (h : StoreOk A m i st) :
    Guarantee A i m (st.apply m) := by
  have hRefl := Guarantee.refl A i m
  cases st with
  | none => exact hRefl
  | fillFailed | stop | contiguousDone | fillComplete => exact { hRefl with }
  | tear first last =>
    exact { hRefl with
      data := fun j hj x hLow hHigh => overwrite_other h.1 h.2.1 hj hLow hHigh }
  | write first last cache =>
    exact { hRefl with
      data := fun j hj x hLow hHigh => overwrite_other h.1 h.2.1 hj hLow hHigh }
  | chunkDone c =>
    obtain ⟨rfl, -⟩ := h
    exact { hRefl with
      length := List.length_set
      done := fun j hj => (done_set_iff m c j).mpr (.inl hj)
      undone := fun j hne hj => by
        rcases (done_set_iff m c j).mp hj with hOld | ⟨hEq, -⟩
        · exact hOld
        · exact absurd hEq hne }
  | itemCount x => exact { hRefl with itemCount := h.2.1.le }

/-- A promised write keeps the finished chunks. -/
theorem written_overwrite {i first last : Nat} {value : Option Nat}
    (h : chunkStart m.itemsPerChunk i ≤ first ∧ last ≤ chunkEnd A m.itemsPerChunk i ∧ ¬ Done m i)
    (hm : MemoryOk A m) {j : Nat} (hj : Done m j) :
    Written { m with data := overwrite m.data first last value }
      (chunkStart m.itemsPerChunk j) (chunkEnd A m.itemsPerChunk j) := by
  intro x hLow hHigh
  have hne : j ≠ i := fun hEq => h.2.2 (hEq ▸ hj)
  exact (overwrite_other h.1 h.2.1 hne hLow hHigh).trans (hm.written j hj x hLow hHigh)

/-- **A promised store keeps the memory invariant.** -/
theorem memoryOk_apply {i : Nat} {st : Store} (hm : MemoryOk A m) (h : StoreOk A m i st) :
    MemoryOk A (st.apply m) := by
  have hSafe : ∀ x, Safe A m x → Safe A (st.apply m) x := fun x => (guarantee_apply h).safe
  cases st with
  | none => exact hm
  | fillFailed | stop => exact { hm with }
  | tear first last | write first last cache =>
    exact { hm with written := fun j hj => written_overwrite h hm hj }
  | chunkDone c =>
    obtain ⟨rfl, hWritten⟩ := h
    exact {
      chunking := fun hne => by
        have := hm.chunking (fun hNil => hne (by simp [Store.apply, hNil]))
        simpa [Store.apply] using this
      written := fun j hj => by
        rcases (done_set_iff m c j).mp hj with hOld | ⟨rfl, -⟩
        · exact hm.written j hOld
        · exact hWritten
      contiguous := hSafe _ hm.contiguous
      itemCount := hSafe _ hm.itemCount
      complete := fun hc => hSafe _ (hm.complete hc)
      current := hm.current }
  | contiguousDone x => exact { hm with contiguous := h }
  | itemCount x =>
    exact { hm with
      itemCount := h.1
      current := fun hne => absurd h.2.2 hne }
  | fillComplete =>
    exact { hm with
      complete := fun _ => h.1
      current := fun hne => absurd h.2 hne }

/-! ## The fill workers -/

/-- The arguments a worker of the current fill was spawned with. -/
structure Assigned (A : Nat) (m : Memory) (i : Nat) (w : FillWorker) : Prop where
  lt : i < m.chunkDone.length
  chunkId : w.chunkId = i
  cacheHolder : w.cacheHolder = m.cacheHolder
  startItem : w.startItem = chunkStart m.itemsPerChunk i
  endItem : w.endItem = chunkEnd A m.itemsPerChunk i
  current : m.cacheHolder = m.generation

/-- What a worker of chunk `i` knows at each point: before its flag is set,
how far the chunk is written; afterwards, that its cursor is safe. -/
def PcOk (A : Nat) (m : Memory) (i : Nat) : FillPc → Prop
  | .entry | .entryShutdown | .failed | .failedStop => ¬ Done m i
  | .head subStart | .headShutdown subStart | .initializeDataset subStart | .writing subStart =>
    ¬ Done m i ∧ chunkStart m.itemsPerChunk i ≤ subStart ∧
      subStart ≤ chunkEnd A m.itemsPerChunk i ∧ Written m (chunkStart m.itemsPerChunk i) subStart
  | .markDone =>
    ¬ Done m i ∧ Written m (chunkStart m.itemsPerChunk i) (chunkEnd A m.itemsPerChunk i)
  | .advance cursor | .exchange cursor | .loadItemCount cursor _ | .raiseItemCount cursor _ _ =>
    Safe A m cursor
  | .setComplete => Safe A m A
  | .loadCursor | .checkStop | .checkShutdown | .checkContiguous | .returned => True

/-- A worker that still runs belongs to the current fill. -/
def WorkerOk (A : Nat) (m : Memory) (i : Nat) (w : FillWorker) : Prop :=
  w.pc ≠ .returned → Assigned A m i w ∧ PcOk A m i w.pc

section Rely

variable {i j : Nat} (g : Guarantee A i m m') (hj : j ≠ i)

include g hj

theorem Guarantee.not_done (h : ¬ Done m j) : ¬ Done m' j :=
  fun h' => h (g.undone j hj h')

theorem Guarantee.written {last : Nat} (hLast : last ≤ chunkEnd A m.itemsPerChunk j)
    (h : Written m (chunkStart m.itemsPerChunk j) last) :
    Written m' (chunkStart m'.itemsPerChunk j) last := by
  intro x hLow hHigh
  rw [g.itemsPerChunk] at hLow
  rw [g.cacheHolder, g.data j hj x hLow (hHigh.trans_le hLast)]
  exact h x hLow hHigh

theorem Guarantee.pcOk {pc : FillPc} (h : PcOk A m j pc) : PcOk A m' j pc := by
  cases pc with
  | entry | entryShutdown | failed | failedStop => exact g.not_done hj h
  | head sub | headShutdown sub | initializeDataset sub | writing sub =>
    refine ⟨g.not_done hj h.1, ?_, ?_, g.written hj h.2.2.1 h.2.2.2⟩
    · rw [g.itemsPerChunk]
      exact h.2.1
    · rw [g.itemsPerChunk]
      exact h.2.2.1
  | markDone =>
    refine ⟨g.not_done hj h.1, ?_⟩
    have hWritten := g.written hj (Nat.le_refl _) h.2
    rwa [← g.itemsPerChunk] at hWritten
  | advance | exchange | loadItemCount | raiseItemCount | setComplete => exact g.safe h
  | loadCursor | checkStop | checkShutdown | checkContiguous | returned => trivial

end Rely

theorem Guarantee.assigned {i j : Nat} {w : FillWorker} (g : Guarantee A i m m')
    (h : Assigned A m j w) : Assigned A m' j w where
  lt := g.length ▸ h.lt
  chunkId := h.chunkId
  cacheHolder := g.cacheHolder ▸ h.cacheHolder
  startItem := g.itemsPerChunk ▸ h.startItem
  endItem := g.itemsPerChunk ▸ h.endItem
  current := by
    rw [g.cacheHolder, g.generation]
    exact h.current

/-- **Rely.** Another worker's promised store keeps what a worker knows. -/
theorem Guarantee.workerOk {i j : Nat} {w : FillWorker} (g : Guarantee A i m m') (hj : j ≠ i)
    (h : WorkerOk A m j w) : WorkerOk A m' j w :=
  fun hpc => ⟨g.assigned (h hpc).1, g.pcOk hj (h hpc).2⟩

/-- Writing a sub-chunk extends the written part of the chunk up to its end. -/
theorem written_write {first last : Nat} (start : Nat) (h : Written m start first) :
    Written ((Store.write first last m.cacheHolder).apply m) start last := by
  intro x hLow hHigh
  simp only [Store.apply, overwrite]
  by_cases hx : first ≤ x
  · simp [hx, hHigh]
  · simp only [hx, false_and, if_false]
    exact h x hLow (by omega)

/-- A torn sub-chunk leaves what is in front of it. -/
theorem written_tear {first last : Nat} (start : Nat) (h : Written m start first) :
    Written ((Store.tear first last).apply m) start first := by
  intro x hLow hHigh
  simp only [Store.apply, overwrite]
  rw [if_neg (by omega)]
  exact h x hLow hHigh

/-- What a step of worker `i` gives: a promised store, and its own knowledge
at the next point. -/
def StepOk (A : Nat) (m : Memory) (i : Nat) (st : Store) (pc : FillPc) : Prop :=
  StoreOk A m i st ∧ PcOk A (st.apply m) i pc

theorem StepOk.ofPc {i : Nat} {pc : FillPc} (h : PcOk A m i pc) : StepOk A m i .none pc :=
  ⟨trivial, h⟩

theorem pcOk_afterPublish (i cursor prev : Nat) : PcOk A m i (afterPublish cursor prev) := by
  unfold afterPublish
  split <;> trivial

/-- **Each step of `fill_worker` makes a promised store.** -/
theorem fillWorker_ok {i : Nat} {w : FillWorker} {weakFails : Bool} {st : Store} {pc : FillPc}
    (hm : MemoryOk A m) (hw : WorkerOk A m i w)
    (hStep : fillWorker A m w weakFails = some (st, pc)) : StepOk A m i st pc := by
  have hActive : w.pc ≠ .returned := by
    intro hRet
    simp [fillWorker, hRet] at hStep
  obtain ⟨ha, hpc⟩ := hw hActive
  have hc := hm.chunking (List.ne_nil_of_length_pos (Nat.zero_lt_of_lt ha.lt))
  unfold fillWorker at hStep
  split at hStep <;> rename_i hAt <;> rw [hAt] at hpc
  -- the two loads at the entry
  · cases hStep
    refine .ofPc ?_
    split
    · trivial
    · exact hpc
  · cases hStep
    refine .ofPc ?_
    split
    · trivial
    · rw [ha.startItem]
      exact ⟨hpc, Nat.le_refl _, (hc.start_lt_end ha.lt).le, fun x h1 h2 => by omega⟩
  -- the sub-chunk loop
  · rename_i sub
    cases hStep
    refine .ofPc ?_
    split
    · split
      · trivial
      · exact hpc
    · rename_i hEnd
      rw [ha.endItem] at hEnd
      obtain ⟨hDone, hLow, hHigh, hWritten⟩ := hpc
      have hEq : sub = chunkEnd A m.itemsPerChunk i := by omega
      exact ⟨hDone, hEq ▸ hWritten⟩
  · cases hStep
    refine .ofPc ?_
    split
    · trivial
    · exact hpc
  · rename_i sub
    cases hStep
    obtain ⟨hDone, hLow, hHigh, hWritten⟩ := hpc
    refine ⟨⟨hLow, ?_, hDone⟩, hDone, hLow, hHigh, written_tear _ hWritten⟩
    exact (Nat.min_le_right _ _).trans ha.endItem.le
  · rename_i sub
    cases hStep
    obtain ⟨hDone, hLow, hHigh, hWritten⟩ := hpc
    have hEnd : w.subEnd sub ≤ chunkEnd A m.itemsPerChunk i :=
      (Nat.min_le_right _ _).trans ha.endItem.le
    refine ⟨⟨hLow, hEnd, hDone⟩, hDone, ?_, hEnd, ?_⟩
    · simp only [FillWorker.subEnd, ha.endItem, Store.apply]
      omega
    · rw [ha.cacheHolder]
      exact written_write _ hWritten
  -- the exception handler
  · cases hStep
    exact ⟨trivial, hpc⟩
  · cases hStep
    exact ⟨trivial, trivial⟩
  -- the flag and the publish loop
  · cases hStep
    exact ⟨⟨ha.chunkId, hpc.2⟩, trivial⟩
  · cases hStep
    exact .ofPc hm.contiguous
  · cases hStep
    refine .ofPc ?_
    split
    · rename_i hNext
      exact hm.advanceCursor_safe hpc hNext
    · exact hpc
  · rename_i cursor
    cases hStep
    have hOk : StoreOk A m i (.contiguousDone cursor) := hpc
    exact ⟨hOk, (guarantee_apply hOk).safe hpc⟩
  · cases hStep
    exact .ofPc hpc
  · split at hStep
    · rename_i hLt
      split at hStep
      · rename_i hCas
        cases hStep
        exact ⟨⟨hpc, hCas.1 ▸ hLt, ha.current⟩, pcOk_afterPublish i _ _⟩
      · cases hStep
        exact .ofPc hpc
    · cases hStep
      exact .ofPc (pcOk_afterPublish i _ _)
  -- the completion test
  · cases hStep
    refine .ofPc ?_
    split <;> trivial
  · cases hStep
    refine .ofPc ?_
    split <;> trivial
  · cases hStep
    refine .ofPc ?_
    split
    · rename_i hFull
      have hEq : m.contiguousDone = A := Nat.le_antisymm hm.contiguous.le hFull
      exact hEq ▸ hm.contiguous
    · trivial
  · cases hStep
    exact ⟨⟨hpc, ha.current⟩, trivial⟩
  · cases hStep

/-! ## Readers and the rotation lock -/

/-- What a reader inside its guard counts on: the generation it read is the
current one and the bound it read is still published. -/
def ReaderOk (m : Memory) : Reader → Prop
  | .idle => True
  | .holding g n => (∀ x, g = some x → x = m.generation) ∧ ∀ x, n = some x → x ≤ m.itemCount

theorem ReaderOk.mono {r : Reader} (h : ReaderOk m r) (hGen : m'.generation = m.generation)
    (hCount : m.itemCount ≤ m'.itemCount) : ReaderOk m' r := by
  cases r with
  | idle => trivial
  | holding g n => exact ⟨fun x hx => hGen ▸ h.1 x hx, fun x hx => (h.2 x hx).trans hCount⟩

/-- The number of readers that hold a guard. -/
def holders (readers : Fin R → Reader) : Nat := ∑ r, (readers r).holds.toNat

theorem holders_update (readers : Fin R → Reader) (r : Fin R) (reader : Reader) :
    holders (Function.update readers r reader) + (readers r).holds.toNat =
      holders readers + reader.holds.toNat :=
  headcount_update r reader

theorem idle_of_holders_eq_zero {readers : Fin R → Reader} (h : holders readers = 0)
    (r : Fin R) : readers r = .idle := by
  have hr : (readers r).holds.toNat = 0 := by
    unfold holders at h
    exact (Finset.sum_eq_zero_iff.mp h) r (Finset.mem_univ r)
  cases hReader : readers r with
  | idle => rfl
  | holding g n => simp [hReader, Reader.holds] at hr

/-- The statements of `start_fill` under the exclusive lock. -/
def Rotation.exclusive : Rotation → Bool
  | .resetItemCount | .resetContiguous | .resetComplete | .resetFailed | .bumpGeneration
  | .swapStop | .unlock => true
  | _ => false

/-- The lock's counters describe who is inside. -/
structure LockOk (s : State R) : Prop where
  active : s.lock.activeReaders = holders s.readers
  writer : s.lock.writerActive = s.rotation.exclusive
  excluded : s.rotation.exclusive = true → s.lock.activeReaders = 0

theorem LockOk.idle {s : State R} (h : LockOk s) (hExcl : s.rotation.exclusive = true)
    (r : Fin R) : s.readers r = .idle :=
  idle_of_holders_eq_zero (h.active ▸ h.excluded hExcl) r

/-! ## The invariant of the system -/

/-- What holds at each statement of `start_fill`. -/
def RotationOk (d : Allocation) (s : State R) : Prop :=
  match s.rotation with
  | .idle => s.memory.cacheHolder = s.memory.generation
  | .checkShutdown | .join => 0 < d.items ∧ s.memory.cacheHolder = s.memory.generation
  | .lock | .acquire | .resetItemCount =>
    0 < d.items ∧ s.memory.cacheHolder = s.memory.generation ∧ s.fillThreads = 0
  | .resetContiguous =>
    0 < d.items ∧ s.memory.cacheHolder = s.memory.generation ∧ s.fillThreads = 0 ∧
      s.memory.itemCount = 0
  | .resetComplete =>
    0 < d.items ∧ s.memory.cacheHolder = s.memory.generation ∧ s.fillThreads = 0 ∧
      s.memory.itemCount = 0 ∧ s.memory.contiguousDone = 0
  | .resetFailed | .bumpGeneration | .swapStop | .unlock | .setUp =>
    0 < d.items ∧ s.fillThreads = 0 ∧
      s.memory.itemCount = 0 ∧ s.memory.contiguousDone = 0 ∧ s.memory.fillComplete = false
  | .spawn i =>
    0 < d.items ∧ s.memory.cacheHolder = s.memory.generation ∧ s.fillThreads = i ∧
      s.memory.chunkDone.length = s.call.numWorkers d.items ∧ ∀ j, i ≤ j → ¬ Done s.memory j

/-- Beyond the spawned threads no worker runs. -/
def IdleFrom (fillThreads i : Nat) (w : FillWorker) : Prop := fillThreads ≤ i → w.pc = .returned

/-- The invariant of a partial dataset. -/
structure Inv (d : Allocation) (s : State R) : Prop where
  memory : MemoryOk d.items s.memory
  workers : ∀ i, WorkerOk d.items s.memory i (s.workers i)
  spawned : ∀ i, IdleFrom s.fillThreads i (s.workers i)
  rotation : RotationOk d s
  readers : ∀ r, ReaderOk s.memory (s.readers r)
  lock : LockOk s

theorem inv_initial (d : Allocation) : Inv d (State.initial R d) where
  memory :=
    { chunking := fun h => absurd rfl h
      written := fun j hj => by simp [Done, State.initial, Memory.initial] at hj
      contiguous := safe_zero _ _
      itemCount := safe_zero _ _
      complete := fun h => by
        have hZero : d.items = 0 := by simpa [State.initial, Memory.initial] using h
        rw [hZero]
        exact safe_zero _ _
      current := fun h => absurd rfl h }
  workers := fun i h => absurd rfl h
  spawned := fun i _ => rfl
  rotation := rfl
  readers := fun r => trivial
  lock :=
    { active := by simp [State.initial, holders, Reader.holds]
      writer := rfl
      excluded := fun _ => rfl }

/-- A worker that runs at all runs while no statement between `join` and the
first spawn is in progress. -/
theorem Inv.lt_fillThreads {d : Allocation} {s : State R} (h : Inv d s) {i : Nat}
    (hActive : (s.workers i).pc ≠ .returned) : i < s.fillThreads := by
  by_contra hLe
  exact hActive (h.spawned i (Nat.le_of_not_lt hLe))

/-- The rotation's facts survive a worker's store. -/
theorem RotationOk.workerStep {d : Allocation} {s : State R} (h : RotationOk d s) {i : Nat}
    (hi : i < s.fillThreads) {st : Store} {pc : FillPc}
    (g : Guarantee d.items i s.memory (st.apply s.memory)) :
    RotationOk d (s.workerStep i st pc) := by
  unfold RotationOk at *
  cases hRot : s.rotation <;> simp only [hRot, State.workerStep, g.generation, g.cacheHolder,
    g.length] at h ⊢
  case idle | checkShutdown | join => exact h
  case spawn n =>
    obtain ⟨hPos, hCur, hThreads, hLen, hFlags⟩ := h
    exact ⟨hPos, hCur, hThreads, hLen, fun j hj => g.not_done (by omega) (hFlags j hj)⟩
  all_goals omega

/-- **A worker's step keeps the invariant**, given that its store is promised
and it knows what it needs at its next point. -/
theorem Inv.workerStep {d : Allocation} {s : State R} (h : Inv d s) {i : Nat}
    (hActive : (s.workers i).pc ≠ .returned) {st : Store} {pc : FillPc}
    (hOk : StepOk d.items s.memory i st pc) : Inv d (s.workerStep i st pc) := by
  have hi := h.lt_fillThreads hActive
  have g := guarantee_apply hOk.1
  have hAssigned := g.assigned (h.workers i hActive).1
  exact {
    memory := memoryOk_apply h.memory hOk.1
    workers := forall_update h.workers
      (fun _ => ⟨{ hAssigned with }, hOk.2⟩) (fun j hj hw => g.workerOk hj hw)
    spawned := forall_update h.spawned (fun hLe => absurd hi (Nat.not_lt.mpr hLe))
      (fun j _ hj => hj)
    rotation := h.rotation.workerStep hi g
    readers := fun r => (h.readers r).mono g.generation g.itemCount
    lock := { h.lock with } }

/-- A change of the memory that no predicate of the invariant looks at. -/
theorem Inv.congr_memory {d : Allocation} {s : State R} (h : Inv d s) (stop : Nat → Bool)
    (stopToken : Nat) (shutdown failed : Bool) :
    Inv d { s with memory := { s.memory with
      stop := stop, stopToken := stopToken, shutdownRequested := shutdown,
      fillFailed := failed } } where
  memory := { h.memory with }
  workers := fun i hActive => ⟨{ (h.workers i hActive).1 with }, (h.workers i hActive).2⟩
  spawned := h.spawned
  rotation := h.rotation
  readers := h.readers
  lock := { h.lock with }

section Rotations

variable {d : Allocation} {s t : State R}

theorem Inv.all_returned (h : Inv d s) (hZero : s.fillThreads = 0) (i : Nat) :
    (s.workers i).pc = .returned :=
  h.spawned i (hZero ▸ Nat.zero_le i)

/-- A statement outside the exclusive section that moves on and changes
nothing else. -/
theorem Inv.goto (h : Inv d s) {pc : Rotation} (hFrom : s.rotation.exclusive = false)
    (hTo : pc.exclusive = false) (hOk : RotationOk d { s with rotation := pc }) :
    Inv d { s with rotation := pc } where
  memory := h.memory
  workers := h.workers
  spawned := h.spawned
  rotation := hOk
  readers := h.readers
  lock :=
    { active := h.lock.active
      writer := h.lock.writer.trans (hFrom.trans hTo.symm)
      excluded := fun hEx => absurd hEx (by simp [hTo]) }

/-- A store of the exclusive section: all workers have returned and no reader
is inside, so only the memory's own invariant and the rotation's facts are to
be shown. -/
theorem Inv.reset (h : Inv d s) {m' : Memory} {pc : Rotation} (hZero : s.fillThreads = 0)
    (hFrom : s.rotation.exclusive = true) (hTo : pc.exclusive = true)
    (hMem : MemoryOk d.items m') (hOk : RotationOk d { s with memory := m', rotation := pc }) :
    Inv d { s with memory := m', rotation := pc } where
  memory := hMem
  workers := fun i hActive => absurd (h.all_returned hZero i) hActive
  spawned := h.spawned
  rotation := hOk
  readers := fun r => by
    show ReaderOk m' (s.readers r)
    rw [h.lock.idle hFrom r]
    trivial
  lock :=
    { active := h.lock.active
      writer := h.lock.writer.trans (hFrom.trans hTo.symm)
      excluded := fun _ => h.lock.excluded hFrom }

/-- A new vector of flags has none set. -/
theorem not_done_replicate {n : Nat} (h : m.chunkDone = List.replicate n false) (j : Nat) :
    ¬ Done m j := by
  unfold Done
  rw [h, List.getElem?_replicate]
  split <;> simp

/-- The memory after `chunk_done_` and `items_per_chunk_` were set up. -/
theorem memoryOk_setUp (call : FillCall) (hPos : 0 < d.items) (hCount : m.itemCount = 0)
    (hCont : m.contiguousDone = 0) (hComplete : m.fillComplete = false) :
    MemoryOk d.items { m with
      cacheHolder := m.generation
      chunkDone := List.replicate (call.numWorkers d.items) false
      itemsPerChunk := call.itemsPerWorker d.items } where
  chunking := fun _ => by
    rw [List.length_replicate]
    exact startFill_chunking call d hPos
  written := fun j hj => absurd hj (not_done_replicate rfl j)
  contiguous := by
    show Safe _ _ m.contiguousDone
    rw [hCont]
    exact safe_zero _ _
  itemCount := by
    show Safe _ _ m.itemCount
    rw [hCount]
    exact safe_zero _ _
  complete := fun h => absurd h (by simp [hComplete])
  current := fun h => absurd rfl h

/-- **Each statement of `start_fill` keeps the invariant.** -/
theorem Inv.startFill (h : Inv d s) (hStep : startFill d s = some t) : Inv d t := by
  have hRotation := h.rotation
  have hLock := h.lock
  unfold RotationOk at hRotation
  unfold PartialDataset.startFill at hStep
  cases hRot : s.rotation with
  | idle => simp [hRot] at hStep
  | checkShutdown =>
    simp only [hRot] at hStep hRotation
    have hIdle : Inv d { s with rotation := .idle } :=
      h.goto (by simp [hRot, Rotation.exclusive]) rfl hRotation.2
    split at hStep
    · exact Option.some.inj hStep ▸ hIdle
    · split at hStep
      · exact Option.some.inj hStep ▸ hIdle
      · exact Option.some.inj hStep ▸ h.goto (by simp [hRot, Rotation.exclusive]) rfl hRotation
  | join =>
    simp only [hRot] at hStep hRotation
    split at hStep
    · rename_i hAll
      cases hStep
      have hReturned : ∀ i, (s.workers i).pc = .returned := by
        intro i
        by_cases hi : i < s.fillThreads
        · exact hAll i hi
        · exact h.spawned i (Nat.le_of_not_lt hi)
      exact {
        memory := h.memory
        workers := h.workers
        spawned := fun i _ => hReturned i
        rotation := ⟨hRotation.1, hRotation.2, rfl⟩
        readers := h.readers
        lock :=
          { active := hLock.active
            writer := hLock.writer.trans (by simp [hRot, Rotation.exclusive])
            excluded := fun hEx => by simp [Rotation.exclusive] at hEx } }
    · cases hStep
  | lock =>
    simp only [hRot] at hStep hRotation
    cases hStep
    exact { h with
      rotation := hRotation
      lock :=
        { active := hLock.active
          writer := hLock.writer.trans (by simp [hRot, Rotation.exclusive])
          excluded := fun hEx => by simp [Rotation.exclusive] at hEx } }
  | acquire =>
    simp only [hRot] at hStep hRotation
    split at hStep
    · rename_i hFree
      cases hStep
      exact { h with
        rotation := hRotation
        lock :=
          { active := hLock.active
            writer := rfl
            excluded := fun _ => hFree.2 } }
    · cases hStep
  | resetItemCount =>
    simp only [hRot] at hStep hRotation
    obtain ⟨hPos, hCur, hZero⟩ := hRotation
    cases hStep
    refine h.reset hZero (by simp [hRot, Rotation.exclusive]) rfl ?_ ⟨hPos, hCur, hZero, rfl⟩
    exact { h.memory with
      itemCount := safe_zero _ _
      current := fun hne => absurd hCur hne }
  | resetContiguous =>
    simp only [hRot] at hStep hRotation
    obtain ⟨hPos, hCur, hZero, hCount⟩ := hRotation
    cases hStep
    refine h.reset hZero (by simp [hRot, Rotation.exclusive]) rfl ?_
      ⟨hPos, hCur, hZero, hCount, rfl⟩
    exact { h.memory with contiguous := safe_zero _ _ }
  | resetComplete =>
    simp only [hRot] at hStep hRotation
    obtain ⟨hPos, hCur, hZero, hCount, hCont⟩ := hRotation
    cases hStep
    refine h.reset hZero (by simp [hRot, Rotation.exclusive]) rfl ?_
      ⟨hPos, hZero, hCount, hCont, rfl⟩
    exact { h.memory with
      complete := fun hc => by simp at hc
      current := fun _ => ⟨hCount, rfl⟩ }
  | resetFailed =>
    simp only [hRot] at hStep hRotation
    cases hStep
    exact h.reset hRotation.2.1 (by simp [hRot, Rotation.exclusive]) rfl { h.memory with }
      hRotation
  | bumpGeneration =>
    simp only [hRot] at hStep hRotation
    obtain ⟨hPos, hZero, hCount, hCont, hComplete⟩ := hRotation
    cases hStep
    refine h.reset hZero (by simp [hRot, Rotation.exclusive]) rfl ?_
      ⟨hPos, hZero, hCount, hCont, hComplete⟩
    exact { h.memory with current := fun _ => ⟨hCount, hComplete⟩ }
  | swapStop =>
    simp only [hRot] at hStep hRotation
    cases hStep
    exact h.reset hRotation.2.1 (by simp [hRot, Rotation.exclusive]) rfl { h.memory with }
      hRotation
  | unlock =>
    simp only [hRot] at hStep hRotation
    cases hStep
    exact { h with
      rotation := hRotation
      lock :=
        { active := hLock.active
          writer := rfl
          excluded := fun hEx => by simp [Rotation.exclusive] at hEx } }
  | setUp =>
    simp only [hRot] at hStep hRotation
    obtain ⟨hPos, hZero, hCount, hCont, hComplete⟩ := hRotation
    cases hStep
    exact {
      memory := memoryOk_setUp s.call hPos hCount hCont hComplete
      workers := fun i hActive => absurd (h.all_returned hZero i) hActive
      spawned := h.spawned
      rotation := ⟨hPos, rfl, hZero, List.length_replicate, fun j _ => not_done_replicate rfl j⟩
      readers := fun r => (h.readers r).mono rfl (Nat.le_refl _)
      lock :=
        { active := hLock.active
          writer := hLock.writer.trans (by simp [hRot, Rotation.exclusive])
          excluded := fun hEx => by simp [Rotation.exclusive] at hEx } }
  | spawn i =>
    simp only [hRot] at hStep hRotation
    obtain ⟨hPos, hCur, hThreads, hLen, hFlags⟩ := hRotation
    split at hStep
    · rename_i hSpawn
      cases hStep
      exact {
        memory := h.memory
        -- the new worker starts on a chunk whose flag the set-up cleared
        workers := forall_update h.workers
          (fun _ => ⟨⟨hLen ▸ hSpawn.1, rfl, rfl, rfl, rfl, hCur⟩, hFlags i (Nat.le_refl i)⟩)
          (fun j _ hj => hj)
        spawned := forall_update h.spawned (fun hLe => absurd hLe (by simp; omega))
          (fun j hj hIdle hLe => hIdle (by simp at hLe; omega))
        rotation := ⟨hPos, hCur, by simp [hThreads], hLen, fun j hj => hFlags j (by omega)⟩
        readers := h.readers
        lock :=
          { active := hLock.active
            writer := hLock.writer.trans (by simp [hRot, Rotation.exclusive])
            excluded := fun hEx => by simp [Rotation.exclusive] at hEx } }
    · exact Option.some.inj hStep ▸ h.goto (by simp [hRot, Rotation.exclusive]) rfl hCur

end Rotations

/-! ## Every step -/

/-- A reader that stays inside its guard, or outside it. -/
theorem Inv.setReader {d : Allocation} {s : State R} (h : Inv d s) {r : Fin R} {reader : Reader}
    (hHolds : reader.holds = (s.readers r).holds) (hOk : ReaderOk s.memory reader) :
    Inv d (s.setReader r reader) where
  memory := h.memory
  workers := h.workers
  spawned := h.spawned
  rotation := h.rotation
  readers := forall_update h.readers hOk (fun _ _ hr => hr)
  lock :=
    { active := by
        have hCount := holders_update s.readers r reader
        have hActive := h.lock.active
        rw [hHolds] at hCount
        simp only [State.setReader]
        omega
      writer := h.lock.writer
      excluded := h.lock.excluded }

/-- **One step.** Every event keeps the invariant. -/
theorem inv_step {d : Allocation} (s : State R) (e : Event R) (t : State R) (h : Inv d s)
    (hStep : step d s e = some t) : Inv d t := by
  cases e with
  | startFill call =>
    simp only [step] at hStep
    split at hStep
    · rename_i hIdle
      cases hStep
      have hCur : s.memory.cacheHolder = s.memory.generation := by
        simpa [RotationOk, hIdle] using h.rotation
      exact { h with
        rotation := by
          by_cases hZero : d.items = 0
          · simpa [RotationOk, hZero] using hCur
          · simpa [RotationOk, hZero] using ⟨Nat.pos_of_ne_zero hZero, hCur⟩
        lock :=
          { active := h.lock.active
            writer := h.lock.writer.trans (by
              by_cases hZero : d.items = 0 <;> simp [hIdle, hZero, Rotation.exclusive])
            excluded := fun hEx => by
              by_cases hZero : d.items = 0 <;> simp [hZero, Rotation.exclusive] at hEx } }
    · cases hStep
  | rotation => exact h.startFill hStep
  | worker i weakFails =>
    obtain ⟨⟨st, pc⟩, hWorker, rfl⟩ := Option.map_eq_some_iff.mp hStep
    have hActive : (s.workers i).pc ≠ .returned := by
      intro hRet
      simp [fillWorker, hRet] at hWorker
    exact h.workerStep hActive (fillWorker_ok h.memory (h.workers i) hWorker)
  | throws i =>
    simp only [step] at hStep
    split at hStep
    · -- the worker goes on in its `catch` and promises nothing new
      rename_i hThrow
      cases hStep
      have hActive : (s.workers i).pc ≠ .returned := by
        intro hRet
        simp [hRet, FillPc.mayThrow] at hThrow
      have hKnown := (h.workers i hActive).2
      refine h.workerStep hActive (.ofPc ?_)
      cases hAt : (s.workers i).pc <;> simp [hAt, FillPc.mayThrow] at hThrow <;>
        rw [hAt] at hKnown <;> exact hKnown.1
    · cases hStep
  | cancel =>
    cases hStep
    exact h.congr_memory _ _ true _
  | cancelToken token =>
    simp only [step] at hStep
    split at hStep
    · cases hStep
      exact h.congr_memory _ _ _ _
    · cases hStep
  | lockShared r =>
    simp only [step] at hStep
    split at hStep
    · rename_i hFree
      cases hStep
      -- no rotation is in its exclusive section, so a reader more excludes nothing
      have hOut : s.rotation.exclusive = false := h.lock.writer ▸ hFree.2.1
      exact {
        memory := h.memory
        workers := h.workers
        spawned := h.spawned
        rotation := h.rotation
        readers := forall_update h.readers
          ⟨fun x hx => by simp at hx, fun x hx => by simp at hx⟩ (fun _ _ hr => hr)
        lock :=
          { active := by
              have hCount := holders_update s.readers r (.holding none none)
              have hActive := h.lock.active
              rw [hFree.1] at hCount
              simp only [Reader.holds, Bool.toNat_true, Bool.toNat_false] at hCount
              simp only [State.setReader]
              omega
            writer := h.lock.writer
            excluded := fun hEx => absurd hEx (by simp [State.setReader, hOut]) } }
    · cases hStep
  | readGeneration r =>
    simp only [step] at hStep
    split at hStep
    · rename_i hReader
      cases hStep
      exact h.setReader (by simp [hReader, Reader.holds])
        ⟨fun x hx => (Option.some.inj hx).symm, fun x hx => by simp at hx⟩
    · cases hStep
  | readItemCount r =>
    simp only [step] at hStep
    split at hStep
    · rename_i g n hReader
      cases hStep
      have hOk := h.readers r
      rw [hReader] at hOk
      exact h.setReader (by simp [hReader, Reader.holds])
        ⟨hOk.1, fun x hx => (Option.some.inj hx).symm.le⟩
    · cases hStep
  | unlockShared r =>
    simp only [step] at hStep
    split at hStep
    · rename_i hReader
      cases hStep
      exact {
        memory := h.memory
        workers := h.workers
        spawned := h.spawned
        rotation := h.rotation
        readers := forall_update h.readers trivial (fun _ _ hr => hr)
        lock :=
          { active := by
              have hCount := holders_update s.readers r .idle
              have hActive := h.lock.active
              rw [hReader] at hCount
              simp only [Reader.holds, Bool.toNat_true, Bool.toNat_false] at hCount
              simp only [State.setReader]
              omega
            writer := h.lock.writer
            excluded := fun hEx => by
              have := h.lock.excluded hEx
              simp only
              omega } }
    · cases hStep

/-- **Every reachable state.** -/
theorem inv_reachable {d : Allocation} {ok : State R → Event R → Prop} {s : State R}
    (h : (system d R).Reachable ok s) : Inv d s :=
  h.induct (fun _ hInit => hInit ▸ inv_initial d) (fun s e t hs _ hStep => inv_step s e t hs hStep)

/-- **Contiguous-publish safety.** In every reachable state a reader that holds
its guard and has read the generation and then the item count finds every
item below that count fully written from that generation's cache; and
`fill_complete()` implies that every allocated item is fully written from the
current generation's cache. -/
theorem published_prefix_written (d : Allocation) (R : Nat) (s : State R)
    (hReach : (system d R).Reachable System.Any s) :
    (∀ r g n, s.readers r = .holding (some g) (some n) → ∀ i < n, s.memory.data i = some g) ∧
    (s.memory.fillComplete = true →
      ∀ i < d.items, s.memory.data i = some s.memory.generation) := by
  have h := inv_reachable hReach
  constructor
  · intro r g n hReader i hi
    have hOk := h.readers r
    rw [hReader] at hOk
    have hGen : g = s.memory.generation := hOk.1 g rfl
    have hCount : n ≤ s.memory.itemCount := hOk.2 n rfl
    have hCur : s.memory.cacheHolder = s.memory.generation := by
      by_contra hne
      have := (h.memory.current hne).1
      omega
    rw [hGen, ← hCur]
    exact h.memory.safe_written h.memory.itemCount i (Nat.zero_le i) (by omega)
  · intro hComplete i hi
    have hCur : s.memory.cacheHolder = s.memory.generation := by
      by_contra hne
      simp [(h.memory.current hne).2] at hComplete
    rw [← hCur]
    exact h.memory.safe_written (h.memory.complete hComplete) i (Nat.zero_le i) hi

/-- A buffer just too large for one worker. -/
def twoChunks : Allocation := ⟨kFillChunkItems + 1, by decide⟩

/-- A fill by two workers: both are writing, the first one gets ahead and raises
`item_count_`, and a reader then takes its guard. -/
def halfFillRun : List (Event 1) :=
  [Event.startFill ⟨true, [0, 1], []⟩] ++ List.replicate 15 Event.rotation ++
    (List.replicate 5 [Event.worker 0 false, .worker 1 false]).flatten ++
    List.replicate 9 (Event.worker 0 false) ++
    [Event.lockShared 0, .readGeneration 0, .readItemCount 0]

theorem published_prefix_written_two_workers :
    ∃ s, (system twoChunks 1).run (.initial 1 twoChunks) halfFillRun = some s ∧
      (s.workers 1).pc = .writing 524289 ∧ s.readers 0 = .holding (some 1) (some 524289) ∧
      ∀ i < 524289, s.memory.data i = some 1 := by
  refine ⟨_, rfl, rfl, rfl, ?_⟩
  exact (published_prefix_written twoChunks 1 _
    (System.reachable_of_run_any halfFillRun rfl rfl)).1 0 1 524289 rfl

end ArmRx.Mining.PartialDataset
