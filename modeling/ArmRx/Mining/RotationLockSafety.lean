import ArmRx.Mining.RotationLock

/-!
# The rotation lock is correct

The counters, the flag and the mutex of the lock describe where the threads
are, in every reachable state; each of these facts follows from the contract of
a statement.

* `inv_reachable` — the invariant.
* `step_refines` — the critical sections act as single steps on the lock that
  `PartialDataset` is modelled with.
* `rotationLock_correct` — exclusion, writer priority and no lost wake-up.
-/

namespace ArmRx.Mining.RotationLock

open ArmRx.Lib

variable {ι : Type} [DecidableEq ι]

/-! ## The invariant -/

variable [Fintype ι]

/-- The lock's members describe where the threads are, and no sleeper is left
alone. -/
structure Inv (s : State ι) : Prop where
  mutex : ∀ t, s.mutex = some t ↔ (s.pc t).critical = true
  activeReaders : s.members.activeReaders = headcount Pc.reads s.pc
  waitingWriters : s.members.waitingWriters = headcount Pc.queued s.pc
  writerActive : s.members.writerActive.toNat = headcount Pc.writes s.pc
  admitted : ∀ t, Admitted s.members (s.pc t)
  exclusive : s.members.writerActive = true → s.members.activeReaders = 0
  covered : ∀ cv t, (s.pc t).sleeps cv = true →
    s.members.predicate cv = false ∨ ∃ u, (s.pc u).covers cv = true

omit [DecidableEq ι] in
theorem inv_initial : Inv (State.initial ι) where
  mutex := fun t => by simp [State.initial, Pc.critical]
  activeReaders := by simp [State.initial, headcount, Pc.reads]
  waitingWriters := by simp [State.initial, headcount, Pc.queued]
  writerActive := by simp [State.initial, headcount, Pc.writes]
  admitted := fun _ => trivial
  exclusive := nofun
  covered := fun _ _ h => by cases h

section Step

variable {s : State ι} {t : ι} {n : Next}

omit [DecidableEq ι] in
theorem Inv.active_of_writes (h : Inv s) (hWrites : (s.pc t).writes = true) :
    s.members.writerActive = true := by
  have hPos : 0 < headcount Pc.writes s.pc := headcount_pos t hWrites
  rw [← h.writerActive] at hPos
  cases hFlag : s.members.writerActive with
  | true => rfl
  | false =>
    rw [hFlag] at hPos
    cases hPos

omit [DecidableEq ι] in
/-- What a thread relies on holds wherever it stands. -/
theorem Inv.knows (h : Inv s) (t : ι) : Knows s.members (s.pc t) := by
  have hAdmitted := h.admitted t
  have hReads : (s.pc t).reads = true →
      s.members.writerActive = false ∧ 0 < s.members.activeReaders := by
    intro hKind
    have hPos : 0 < headcount Pc.reads s.pc := headcount_pos t hKind
    have hActive : 0 < s.members.activeReaders := by
      rw [h.activeReaders]
      exact_mod_cast hPos
    refine ⟨?_, hActive⟩
    by_contra hWriter
    have := h.exclusive (by simpa using hWriter)
    omega
  have hWrites := h.active_of_writes (t := t)
  cases hPc : s.pc t <;> rw [hPc] at hAdmitted hReads hWrites <;>
    first | exact hAdmitted | exact hReads rfl | exact hWrites rfl

omit [DecidableEq ι] in
/-- Two owners of `m_` are one. -/
theorem Inv.critical_unique (h : Inv s) {u : ι} (ht : (s.pc t).critical = true)
    (hu : (s.pc u).critical = true) : u = t :=
  Option.some.inj (((h.mutex u).mpr hu).symm.trans ((h.mutex t).mpr ht))

theorem headcount_apply {kind : Pc → Bool} (hKind : ∀ cv pc, kind (pc.notified cv) = kind pc)
    (s : State ι) (t : ι) (n : Next) :
    headcount kind (s.apply t n).pc + (kind (s.pc t)).toNat =
      headcount kind s.pc + (kind n.pc).toNat := by
  have hSame : headcount kind (fun u => (s.pc u).notified n.notify) = headcount kind s.pc :=
    headcount_congr (fun u => hKind n.notify (s.pc u))
  have hMove : headcount kind (s.apply t n).pc + (kind ((s.pc t).notified n.notify)).toNat =
      headcount kind (fun u => (s.pc u).notified n.notify) + (kind n.pc).toNat :=
    headcount_update t n.pc
  rw [hKind, hSame] at hMove
  exact hMove

theorem admitted_of_not_critical (l : Members) {pc : Pc} (h : pc.critical = false) :
    Admitted l pc := by
  cases pc <;> trivial

theorem admitted_notified {l : Members} {cv : Option Cv} {pc : Pc} (h : Admitted l pc) :
    Admitted l (pc.notified cv) := by
  cases pc <;> exact h

/-- **The mutex** after a statement. -/
theorem Inv.mutex_apply (h : Inv s) (hFree : n.mutex = .acquire → s.mutex = none)
    (hc : Contract s.members (s.pc t) n) (u : ι) :
    (s.apply t n).mutex = some u ↔ ((s.apply t n).pc u).critical = true := by
  have hOp := hc.mutex
  by_cases hu : u = t
  · subst hu
    rw [apply_pc_self]
    cases hMutex : n.mutex <;> simp only [hMutex] at hOp hFree <;>
      simp only [State.apply, hMutex]
    · rw [hOp]
      exact h.mutex u
    · simp [hOp.2]
    · simp [hOp.2]
  · rw [apply_pc_of_ne hu, critical_notified]
    cases hMutex : n.mutex <;> simp only [hMutex] at hOp hFree <;>
      simp only [State.apply, hMutex]
    · exact h.mutex u
    · -- `m_` was free, so nobody else owns it
      have hNot : (s.pc u).critical ≠ true := by
        rw [ne_eq, ← h.mutex u, hFree trivial]
        exact Option.some_ne_none u ∘ Eq.symm
      exact iff_of_false (fun hEq => hu (Option.some.inj hEq).symm) hNot
    · exact iff_of_false (Option.some_ne_none u ∘ Eq.symm) (fun hu' => hu (h.critical_unique hOp.1 hu'))

/-- **Sleepers** after a statement. -/
theorem Inv.covered_apply (h : Inv s) (hc : Contract s.members (s.pc t) n) (cv : Cv) (u : ι)
    (hSleeps : ((s.apply t n).pc u).sleeps cv = true) :
    n.members.predicate cv = false ∨ ∃ w, ((s.apply t n).pc w).covers cv = true := by
  by_cases hu : u = t
  · subst hu
    rw [apply_pc_self] at hSleeps
    exact .inl (hc.sleeps cv hSleeps)
  rw [apply_pc_of_ne hu] at hSleeps
  obtain ⟨hBefore, hNotMeant⟩ := sleeps_of_notified hSleeps
  rcases h.covered cv u hBefore with hFalse | ⟨w, hw⟩
  · by_cases hTrue : n.members.predicate cv = true
    · exact .inr ⟨t, by rw [apply_pc_self]; exact hc.opens cv hFalse hTrue⟩
    · exact .inl (by simpa using hTrue)
  · by_cases hwt : w = t
    · subst hwt
      rcases hc.closes cv hw with hStill | hNotify | hFalse
      · exact .inr ⟨w, by rw [apply_pc_self]; exact hStill⟩
      · exact absurd hNotify hNotMeant
      · exact .inl hFalse
    · exact .inr ⟨w, by rw [apply_pc_of_ne hwt, covers_notified]; exact hw⟩

/-- **A statement keeps the invariant.** -/
theorem Inv.apply (h : Inv s) (hFree : n.mutex = .acquire → s.mutex = none)
    (hc : Contract s.members (s.pc t) n) : Inv (s.apply t n) where
  mutex := h.mutex_apply hFree hc
  activeReaders := by
    have hCount := headcount_apply reads_notified s t n
    have hBefore := h.activeReaders
    have hStep := hc.activeReaders
    change n.members.activeReaders = _
    omega
  waitingWriters := by
    have hCount := headcount_apply queued_notified s t n
    have hBefore := h.waitingWriters
    have hStep := hc.waitingWriters
    change n.members.waitingWriters = _
    omega
  writerActive := by
    have hCount := headcount_apply writes_notified s t n
    have hBefore := h.writerActive
    have hStep := hc.writerActive
    change n.members.writerActive.toNat = _
    omega
  admitted := by
    intro u
    change Admitted n.members _
    by_cases hu : u = t
    · subst hu
      rw [apply_pc_self]
      exact hc.admitted
    · -- members change under `m_` only, and then no other thread relies on a test
      rw [apply_pc_of_ne hu]
      rcases hc.members with hCritical | hSame
      · refine admitted_of_not_critical _ ?_
        rw [critical_notified, Bool.eq_false_iff]
        exact fun hOwner => hu (h.critical_unique hCritical hOwner)
      · rw [hSame]
        exact admitted_notified (h.admitted u)
  exclusive := hc.exclusive h.exclusive
  covered := h.covered_apply hc

omit [Fintype ι] in
theorem step_run {s' : State ι} (hStep : step s (.run t) = some s') :
    ∃ n, next s.members (s.pc t) = some n ∧ s' = s.apply t n ∧
      (n.mutex = .acquire → s.mutex = none) := by
  rw [step] at hStep
  split at hStep
  · cases hStep
  · rename_i n hNext
    split at hStep
    · cases hStep
    · rename_i hFree
      cases hStep
      refine ⟨n, hNext, rfl, fun hAcquire => ?_⟩
      by_contra hTaken
      exact hFree ⟨hAcquire, hTaken⟩

/-- **What an event does.** Every event is a statement, a call or a wake-up of
one thread, and meets the contract. -/
theorem step_cases {s' : State ι} {e : Event ι} (h : Inv s) (hStep : step s e = some s') :
    ∃ t n, s' = s.apply t n ∧ (n.mutex = .acquire → s.mutex = none) ∧
      Contract s.members (s.pc t) n := by
  cases e with
  | lockShared t =>
    rw [step] at hStep
    split at hStep
    · rename_i hIdle
      cases hStep
      exact ⟨t, _, rfl, nofun, call_contract _ hIdle (.inl rfl)⟩
    · cases hStep
  | lock t =>
    rw [step] at hStep
    split at hStep
    · rename_i hIdle
      cases hStep
      exact ⟨t, _, rfl, nofun, call_contract _ hIdle (.inr rfl)⟩
    · cases hStep
  | run t =>
    obtain ⟨n, hNext, hApply, hFree⟩ := step_run hStep
    have hReaders : 0 ≤ s.members.activeReaders := by rw [h.activeReaders]; omega
    have hWriters : 0 ≤ s.members.waitingWriters := by rw [h.waitingWriters]; omega
    exact ⟨t, n, hApply, hFree, next_contract hReaders hWriters (h.knows t) hNext⟩
  | wake t =>
    rw [step] at hStep
    split at hStep
    · rename_i cv notified hPc
      cases hStep
      exact ⟨t, _, rfl, nofun, hPc ▸ wake_contract _ cv notified⟩
    · cases hStep

theorem inv_step (s : State ι) (e : Event ι) (s' : State ι) (h : Inv s)
    (hStep : step s e = some s') : Inv s' := by
  obtain ⟨t, n, rfl, hFree, hContract⟩ := step_cases h hStep
  exact h.apply hFree hContract

/-- **Every reachable state.** -/
theorem inv_reachable (h : (system ι).Reachable System.Any s) : Inv s :=
  h.induct (fun _ hInit => hInit ▸ inv_initial) (fun s e t hs _ hStep => inv_step s e t hs hStep)

end Step

/-! ## The critical sections as single steps -/

namespace Pc

/-- A writer that owns the lock: active, or past the decrement and in front of
its store. -/
def owns (pc : Pc) : Bool := pc.writes || pc == .lockSet

end Pc

@[simp] theorem owns_notified (cv : Option Cv) (pc : Pc) :
    (pc.notified cv).owns = pc.owns := by
  cases pc <;> rfl

/-- The lock as `PartialDataset` is modelled with it. -/
def State.view (s : State ι) : PartialDataset.RotationLock where
  activeReaders := headcount Pc.reads s.pc
  waitingWriters := headcount Pc.queued s.pc
  writerActive := headcount Pc.owns s.pc != 0

/-- The steps that `PartialDataset` takes on its lock. -/
inductive Atomic : PartialDataset.RotationLock → PartialDataset.RotationLock → Prop
  | lockShared {l : PartialDataset.RotationLock}
      (hGuard : l.writerActive = false ∧ l.waitingWriters = 0) :
      Atomic l { l with activeReaders := l.activeReaders + 1 }
  | unlockShared {l : PartialDataset.RotationLock} :
      Atomic l { l with activeReaders := l.activeReaders - 1 }
  | lock {l : PartialDataset.RotationLock} :
      Atomic l { l with waitingWriters := l.waitingWriters + 1 }
  | acquire {l : PartialDataset.RotationLock}
      (hGuard : l.writerActive = false ∧ l.activeReaders = 0) :
      Atomic l { l with waitingWriters := l.waitingWriters - 1, writerActive := true }
  | unlock {l : PartialDataset.RotationLock} : Atomic l { l with writerActive := false }

section Refines

variable {s : State ι} {t : ι} {n : Next}

/-- The kinds that the view counts. -/
def SameKinds (pc pc' : Pc) : Prop :=
  pc'.reads = pc.reads ∧ pc'.queued = pc.queued ∧ pc'.owns = pc.owns

theorem headcount_apply_same {kind : Pc → Bool}
    (hKind : ∀ cv pc, kind (pc.notified cv) = kind pc) (hSame : kind n.pc = kind (s.pc t)) :
    headcount kind (s.apply t n).pc = headcount kind s.pc := by
  have hCount := headcount_apply hKind s t n
  rwa [hSame, Nat.add_right_cancel_iff] at hCount

theorem view_apply_of_sameKinds (h : SameKinds (s.pc t) n.pc) :
    (s.apply t n).view = s.view := by
  obtain ⟨hReads, hQueued, hOwns⟩ := h
  rw [State.view, State.view, headcount_apply_same reads_notified hReads,
    headcount_apply_same queued_notified hQueued, headcount_apply_same owns_notified hOwns]

/-- The statements that change the view. -/
theorem sameKinds_of_next {l : Members} {pc : Pc} (hNext : next l pc = some n) :
    SameKinds pc n.pc ∨ pc = .sharedCount ∨ pc = .unsharedDecrement ∨ pc = .lockEnqueue ∨
      pc = .lockDequeue ∨ pc = .unlockClear := by
  cases pc with
  | idle | asleep => cases hNext
  | check cv =>
    refine .inl ?_
    unfold next at hNext
    cases cv <;> simp only at hNext <;> split at hNext <;> cases hNext <;> exact ⟨rfl, rfl, rfl⟩
  | awake cv =>
    cases hNext
    cases cv <;> exact .inl ⟨rfl, rfl, rfl⟩
  | sharedCount | unsharedDecrement | lockEnqueue | lockDequeue | unlockClear => simp
  | _ =>
    cases hNext
    exact .inl ⟨rfl, rfl, rfl⟩

omit [DecidableEq ι] in
/-- With `m_` owned in front of the store, the flag tells who owns the lock. -/
theorem Inv.owns_eq (h : Inv s) (hCritical : (s.pc t).critical = true)
    (hSet : s.pc t ≠ .lockSet) : headcount Pc.owns s.pc = s.members.writerActive.toNat := by
  rw [h.writerActive]
  refine headcount_congr (fun u => ?_)
  have hNot : s.pc u ≠ .lockSet := by
    intro hu
    have hEq := h.critical_unique hCritical (u := u) (by rw [hu]; rfl)
    exact hSet (hEq ▸ hu)
  simp [Pc.owns, hNot]

/-- The end of the wait of `lock_shared`. -/
theorem refines_sharedCount (h : Inv s) (hPc : s.pc t = .sharedCount)
    (hNext : next s.members (s.pc t) = some n) : Atomic s.view (s.apply t n).view := by
  have hKnows := h.knows t
  rw [hPc] at hNext hKnows
  cases hNext
  obtain ⟨hInactive, hEmpty⟩ := Members.predicate_readers_iff.mp hKnows
  have hOwns := h.owns_eq (t := t) (by rw [hPc]; rfl) (by rw [hPc]; exact nofun)
  have hWriters := h.waitingWriters
  have hGuard : s.view.writerActive = false ∧ s.view.waitingWriters = 0 := by
    refine ⟨?_, ?_⟩
    · simp [State.view, hOwns, hInactive]
    · change headcount Pc.queued s.pc = 0
      omega
  have hReads := headcount_apply reads_notified s t
    { pc := .sharedDone,
      members := { s.members with activeReaders := s.members.activeReaders + 1 } }
  rw [hPc] at hReads
  convert Atomic.lockShared hGuard using 1
  rw [State.view, headcount_apply_same queued_notified (by rw [hPc]; rfl),
    headcount_apply_same owns_notified (by rw [hPc]; rfl), State.view]
  congr 1

/-- The decrement of `unlock_shared`. -/
theorem refines_unsharedDecrement (hPc : s.pc t = .unsharedDecrement)
    (hNext : next s.members (s.pc t) = some n) : Atomic s.view (s.apply t n).view := by
  rw [hPc] at hNext
  have hReads := headcount_apply reads_notified s t n
  have hKinds : n.pc.reads = false ∧ n.pc.queued = false ∧ n.pc.owns = false := by
    cases hNext
    dsimp only
    split <;> exact ⟨rfl, rfl, rfl⟩
  rw [hPc, hKinds.1] at hReads
  convert Atomic.unlockShared using 1
  rw [State.view, headcount_apply_same queued_notified (by rw [hPc, hKinds.2.1]; rfl),
    headcount_apply_same owns_notified (by rw [hPc, hKinds.2.2]; rfl), State.view]
  congr 1
  exact Nat.eq_sub_of_add_eq hReads

/-- The increment of `lock`. -/
theorem refines_lockEnqueue (hPc : s.pc t = .lockEnqueue)
    (hNext : next s.members (s.pc t) = some n) : Atomic s.view (s.apply t n).view := by
  rw [hPc] at hNext
  have hQueued := headcount_apply queued_notified s t n
  cases hNext
  rw [hPc] at hQueued
  convert Atomic.lock using 1
  rw [State.view, headcount_apply_same reads_notified (by rw [hPc]; rfl),
    headcount_apply_same owns_notified (by rw [hPc]; rfl), State.view]
  congr 1

/-- The end of the wait of `lock`: the view takes the lock with the decrement. -/
theorem refines_lockDequeue (h : Inv s) (hPc : s.pc t = .lockDequeue)
    (hNext : next s.members (s.pc t) = some n) : Atomic s.view (s.apply t n).view := by
  have hKnows := h.knows t
  rw [hPc] at hNext hKnows
  obtain ⟨hInactive, hNone⟩ := Members.predicate_writer_iff.mp hKnows
  have hOwns := h.owns_eq (t := t) (by rw [hPc]; rfl) (by rw [hPc]; exact nofun)
  have hReaders := h.activeReaders
  have hGuard : s.view.writerActive = false ∧ s.view.activeReaders = 0 := by
    refine ⟨?_, ?_⟩
    · simp [State.view, hOwns, hInactive]
    · change headcount Pc.reads s.pc = 0
      omega
  have hQueued := headcount_apply queued_notified s t n
  have hOwners := headcount_apply owns_notified s t n
  cases hNext
  rw [hPc] at hQueued hOwners
  change _ + 1 = _ + 0 at hQueued
  change _ + 0 = _ + 1 at hOwners
  convert Atomic.acquire hGuard using 1
  rw [State.view, headcount_apply_same reads_notified (by rw [hPc]; rfl), State.view]
  congr 1
  · exact Nat.eq_sub_of_add_eq hQueued
  · rw [bne_iff_ne]
    omega

/-- The store of `unlock`. -/
theorem refines_unlockClear (h : Inv s) (hPc : s.pc t = .unlockClear)
    (hNext : next s.members (s.pc t) = some n) : Atomic s.view (s.apply t n).view := by
  have hKnows := h.knows t
  rw [hPc] at hNext hKnows
  have hActive : s.members.writerActive = true := hKnows
  have hOwns := h.owns_eq (t := t) (by rw [hPc]; rfl) (by rw [hPc]; exact nofun)
  rw [hActive] at hOwns
  have hOwners := headcount_apply owns_notified s t n
  cases hNext
  rw [hPc, hOwns] at hOwners
  change _ + 1 = 1 + 0 at hOwners
  convert Atomic.unlock using 1
  rw [State.view, headcount_apply_same reads_notified (by rw [hPc]; rfl),
    headcount_apply_same queued_notified (by rw [hPc]; rfl), State.view]
  congr 1
  rw [bne_eq_false_iff_eq]
  omega

/-- **Refinement.** Every event leaves the view as it is or takes one of the
steps of the lock that `PartialDataset` is modelled with. -/
theorem step_refines {e : Event ι} {s' : State ι} (h : Inv s) (hStep : step s e = some s') :
    s'.view = s.view ∨ Atomic s.view s'.view := by
  cases e with
  | lockShared t | lock t =>
    rw [step] at hStep
    split at hStep
    · rename_i hIdle
      cases hStep
      exact .inl (view_apply_of_sameKinds (by rw [hIdle]; exact ⟨rfl, rfl, rfl⟩))
    · cases hStep
  | run t =>
    obtain ⟨n, hNext, rfl, -⟩ := step_run hStep
    rcases sameKinds_of_next hNext with hSame | hPc | hPc | hPc | hPc | hPc
    · exact .inl (view_apply_of_sameKinds hSame)
    · exact .inr (refines_sharedCount h hPc hNext)
    · exact .inr (refines_unsharedDecrement hPc hNext)
    · exact .inr (refines_lockEnqueue hPc hNext)
    · exact .inr (refines_lockDequeue h hPc hNext)
    · exact .inr (refines_unlockClear h hPc hNext)
  | wake t =>
    rw [step] at hStep
    split at hStep
    · rename_i cv notified hPc
      cases hStep
      refine .inl (view_apply_of_sameKinds ?_)
      rw [hPc]
      cases cv <;> exact ⟨rfl, rfl, rfl⟩
    · cases hStep

end Refines

/-! ## Correctness -/

/-- Nobody has the lock and nobody is inside one of its critical sections. -/
def State.Free (s : State ι) : Prop :=
  s.mutex = none ∧ s.members.writerActive = false ∧ s.members.activeReaders = 0

section Wakeups

variable {s : State ι} {t : ι}

theorem roused_or_sleeps {cv : Cv} {pc : Pc} (h : pc.waits cv = true) :
    pc.roused = true ∨ pc.sleeps cv = true := by
  cases pc with
  | asleep cv' n =>
    cases n with
    | true => exact .inl rfl
    | false => exact .inr (by simpa [Pc.waits, Pc.sleeps] using h)
  | awake cv' => exact .inl rfl
  | _ => cases h

theorem waits_of_queued {pc : Pc} (hQueued : pc.queued = true) (hOutside : pc.critical = false) :
    pc.waits .writer = true := by
  cases pc with
  | asleep cv n | awake cv =>
    cases cv with
    | readers => cases hQueued
    | writer => rfl
  | check cv | lockDequeue => cases hOutside
  | _ => cases hQueued

omit [DecidableEq ι] in
theorem Inv.not_critical (h : Inv s) (hFree : s.mutex = none) (t : ι) :
    (s.pc t).critical = false := by
  rw [Bool.eq_false_iff, ne_eq, ← h.mutex t, hFree]
  exact nofun

omit [DecidableEq ι] in
/-- A waiter whose predicate holds is roused, or somebody owes it the
notification. -/
theorem Inv.waiter_served (h : Inv s) (hFree : s.mutex = none) {cv : Cv}
    (hWaits : (s.pc t).waits cv = true) (hPred : s.members.predicate cv = true) :
    (s.pc t).roused = true ∨ ∃ w, (s.pc w).owesNotify cv = true := by
  rcases roused_or_sleeps hWaits with hRoused | hSleeps
  · exact .inl hRoused
  rcases h.covered cv t hSleeps with hFalse | ⟨w, hCovers⟩
  · exact absurd (hFalse.symm.trans hPred) Bool.false_ne_true
  refine .inr ⟨w, ?_⟩
  have hOutside := h.not_critical hFree w
  cases cv with
  | writer => exact hCovers
  | readers =>
    cases hPc : s.pc w <;> rw [hPc] at hCovers hOutside <;>
      first | exact hCovers | cases hOutside

omit [DecidableEq ι] in
/-- **No lost wake-up.** -/
theorem Inv.some_waiter_served (h : Inv s) (hFree : s.Free) {cv : Cv}
    (hWaits : (s.pc t).waits cv = true) :
    ∃ u cv', (s.pc u).waits cv' = true ∧ s.members.predicate cv' = true ∧
      ((s.pc u).roused = true ∨ ∃ w, (s.pc w).owesNotify cv' = true) := by
  obtain ⟨hMutex, hInactive, hNone⟩ := hFree
  have hWriterPred : s.members.predicate .writer = true :=
    Members.predicate_writer_iff.mpr ⟨hInactive, hNone⟩
  by_cases hQueue : headcount Pc.queued s.pc = 0
  · have hPred : s.members.predicate cv = true := by
      cases cv with
      | writer => exact hWriterPred
      | readers =>
        have hEmpty : s.members.waitingWriters = 0 := by rw [h.waitingWriters, hQueue]; rfl
        exact Members.predicate_readers_iff.mpr ⟨hInactive, hEmpty⟩
    exact ⟨t, cv, hWaits, hPred, h.waiter_served hMutex hWaits hPred⟩
  · -- a reader may have to wait for a queued writer, which is a waiter with a true predicate
    rw [headcount_eq_zero_iff, not_forall] at hQueue
    obtain ⟨w, hw⟩ := hQueue
    have hWriter := waits_of_queued (by simpa using hw) (h.not_critical hMutex w)
    exact ⟨w, .writer, hWriter, hWriterPred, h.waiter_served hMutex hWriter hWriterPred⟩

omit [DecidableEq ι] in
/-- **Exclusion.** -/
theorem Inv.exclusion [DecidableEq ι] (h : Inv s) {u : ι} (hWrites : (s.pc t).writes = true) :
    (s.pc u).reads = false ∧ ((s.pc u).writes = true → u = t) := by
  have hActive := h.active_of_writes hWrites
  constructor
  · have hZero : headcount Pc.reads s.pc = 0 := by
      have := h.activeReaders
      rw [h.exclusive hActive] at this
      omega
    exact headcount_eq_zero_iff.mp hZero u
  · intro hOther
    have hOne : headcount Pc.writes s.pc ≤ 1 := by
      rw [← h.writerActive]
      exact Bool.toNat_le _
    exact eq_of_headcount_le_one hOne hOther hWrites

/-- **Writer priority.** The count of readers grows only while no writer waits. -/
theorem Inv.priority (h : Inv s) {e : Event ι} {s' : State ι} (hStep : step s e = some s')
    (hMore : s.members.activeReaders < s'.members.activeReaders) (w : ι) :
    (s.pc w).queued = false := by
  obtain ⟨t, n, rfl, -, hContract⟩ := step_cases h hStep
  have hCount := hContract.activeReaders
  change s.members.activeReaders < n.members.activeReaders at hMore
  have hReads : n.pc.reads = true ∧ (s.pc t).reads = false := by
    cases hNew : n.pc.reads <;> cases hOld : (s.pc t).reads <;>
      simp [hNew, hOld] at hCount ⊢ <;> omega
  rcases hContract.admits hReads.1 with hOld | hPred
  · exact absurd (hReads.2.symm.trans hOld) Bool.false_ne_true
  have hEmpty := (Members.predicate_readers_iff.mp hPred).2
  rw [h.waitingWriters] at hEmpty
  exact headcount_eq_zero_iff.mp (by exact_mod_cast hEmpty) w

end Wakeups

/-- **The rotation lock is correct.** For any finite set of threads and in every
reachable state: an active writer excludes every reader and every other
writer; no reader is admitted while a writer waits; and when the lock is free
and a thread waits, some waiting thread whose predicate holds has been
notified or woken since it went to sleep, or an `unlock` under way has still
to notify its condition variable. -/
theorem rotationLock_correct {s : State ι} (hReach : (system ι).Reachable System.Any s) :
    (∀ t u, (s.pc t).writes = true →
      (s.pc u).reads = false ∧ ((s.pc u).writes = true → u = t)) ∧
    (∀ e s', step s e = some s' → s.members.activeReaders < s'.members.activeReaders →
      ∀ w, (s.pc w).queued = false) ∧
    (s.Free → ∀ t cv, (s.pc t).waits cv = true →
      ∃ u cv', (s.pc u).waits cv' = true ∧ s.members.predicate cv' = true ∧
        ((s.pc u).roused = true ∨ ∃ w, (s.pc w).owesNotify cv' = true)) := by
  have h := inv_reachable hReach
  exact ⟨fun _ _ hWrites => h.exclusion hWrites,
    fun _ _ hStep hMore w => h.priority hStep hMore w,
    fun hFree _ _ hWaits => h.some_waiter_served hFree hWaits⟩

/-- Thread 0 takes the lock, thread 1 queues behind it and falls asleep, and
thread 0 gives the lock back up to the release of `m_`. -/
def windowRun : List (Event (Fin 2)) :=
  [Event.lock 0] ++ List.replicate 6 (Event.run 0) ++ [Event.lock 1] ++
    List.replicate 3 (Event.run 1) ++ List.replicate 4 (Event.run 0)

/-- What the window looks like. -/
def atWindow (s : State (Fin 2)) : Bool :=
  s.mutex == none && s.members == ⟨0, 1, false⟩ && s.pc 0 == .unlockNotifyWriter &&
    s.pc 1 == .asleep .writer false

theorem windowRun_reaches :
    ∃ s, (system (Fin 2)).run (.initial (Fin 2)) windowRun = some s ∧ atWindow s = true := by
  have hRun : ((system (Fin 2)).run (.initial (Fin 2)) windowRun).any atWindow = true := by
    decide +kernel
  cases hEnd : (system (Fin 2)).run (.initial (Fin 2)) windowRun with
  | none =>
    rw [hEnd] at hRun
    cases hRun
  | some s =>
    rw [hEnd] at hRun
    exact ⟨s, rfl, hRun⟩

/-- In that window the lock is free, and no waiting thread has been notified. -/
theorem window_unnotified :
    ¬ ∀ s : State (Fin 2), (system (Fin 2)).Reachable System.Any s → s.Free →
      (∃ t cv, (s.pc t).waits cv = true) →
      ∃ t cv, (s.pc t).waits cv = true ∧ s.members.predicate cv = true ∧
        (s.pc t).roused = true := by
  intro h
  obtain ⟨s, hRun, hWindow⟩ := windowRun_reaches
  simp only [atWindow, Bool.and_eq_true, beq_iff_eq] at hWindow
  obtain ⟨⟨⟨hMutex, hMembers⟩, hFirst⟩, hSecond⟩ := hWindow
  have hFree : s.Free := ⟨hMutex, by rw [hMembers], by rw [hMembers]⟩
  obtain ⟨t, cv, hWaits, -, hRoused⟩ := h s (System.reachable_of_run_any windowRun rfl hRun) hFree
    ⟨1, .writer, by rw [hSecond]; rfl⟩
  match t with
  | 0 =>
    rw [hFirst] at hWaits
    cases hWaits
  | 1 =>
    rw [hSecond] at hRoused
    cases hRoused

/-- There, thread 0 owes the notification. -/
theorem rotationLock_correct_window :
    ∃ s, (system (Fin 2)).run (.initial (Fin 2)) windowRun = some s ∧
      ∃ u cv, (s.pc u).waits cv = true ∧ s.members.predicate cv = true ∧
        ((s.pc u).roused = true ∨ ∃ w, (s.pc w).owesNotify cv = true) := by
  obtain ⟨s, hRun, hWindow⟩ := windowRun_reaches
  simp only [atWindow, Bool.and_eq_true, beq_iff_eq] at hWindow
  obtain ⟨⟨⟨hMutex, hMembers⟩, -⟩, hSecond⟩ := hWindow
  have hFree : s.Free := ⟨hMutex, by rw [hMembers], by rw [hMembers]⟩
  exact ⟨s, hRun, (rotationLock_correct (System.reachable_of_run_any windowRun rfl hRun)).2.2 hFree
    1 .writer (by rw [hSecond]; rfl)⟩

end ArmRx.Mining.RotationLock
