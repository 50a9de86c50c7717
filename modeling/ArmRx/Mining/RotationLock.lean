import ArmRx.Mining.PartialDataset

/-!
# The rotation lock

`PartialDataset::RotationLock` is a reader-writer lock with writer priority,
built from a mutex `m_`, two condition variables, two counters and a flag. Any
number of threads take it and give it back. A step of the model is one
statement of the four member functions: acquiring or releasing `m_`, testing a
predicate, changing a member, or notifying a condition variable. A thread that
finds its predicate false releases `m_` and falls asleep in the same step, as
`wait` does; it wakes up after a notification or spuriously, and tests again.

`unlock` notifies after it has released `m_`. In between, the lock is free and
no sleeper has been notified yet, so what carries the absence of lost wake-ups
is the thread that still has to notify.

* `next_contract` — what one statement can do, said once for all of them.
* `system` — the transition system of one lock and its threads.
-/

namespace ArmRx.Mining.RotationLock

open ArmRx.Lib

/-! ## The members and the threads -/

/-- The two condition variables, `readers_cv_` and `writer_cv_`. -/
inductive Cv
  | readers
  | writer
  deriving DecidableEq, Repr

/-- The members that `m_` protects. -/
structure Members where
  activeReaders : Int
  waitingWriters : Int
  writerActive : Bool
  deriving DecidableEq, Repr

/-- The predicates of the two `wait` calls. -/
def Members.predicate (l : Members) : Cv → Bool
  | .readers => !l.writerActive && l.waitingWriters == 0
  | .writer => !l.writerActive && l.activeReaders == 0

/-- The next statement of a thread. -/
inductive Pc
  | idle
  /-- `wait` on a condition variable: the test under `m_`, asleep without it
  (and whether notified since), and awake in front of `m_`. -/
  | check (cv : Cv)
  | asleep (cv : Cv) (notified : Bool)
  | awake (cv : Cv)
  /-- `lock_shared` around its `wait`. -/
  | sharedEntry
  | sharedCount
  | sharedDone
  | reading
  /-- `unlock_shared`. -/
  | unsharedEntry
  | unsharedDecrement
  | unsharedNotify
  | unsharedDone
  /-- `lock` around its `wait`. -/
  | lockEntry
  | lockEnqueue
  | lockDequeue
  | lockSet
  | lockDone
  | writing
  /-- `unlock`. -/
  | unlockEntry
  | unlockClear
  | unlockRelease
  | unlockNotifyWriter
  | unlockNotifyReaders
  deriving DecidableEq, Repr

/-- Where a thread goes on when its `wait` returns. -/
def Cv.resume : Cv → Pc
  | .readers => .sharedCount
  | .writer => .lockDequeue

/-- What a statement does with `m_`. -/
inductive MutexOp
  | keep
  | acquire
  | release
  deriving DecidableEq, Repr

/-- The effect of a statement: where the thread goes, what becomes of the
members and of `m_`, and which condition variable it notifies. -/
structure Next where
  pc : Pc
  members : Members
  mutex : MutexOp := .keep
  notify : Option Cv := none
  deriving DecidableEq, Repr

/-- The statements of `lock_shared`, `unlock_shared`, `lock` and `unlock`; `none`
where a thread has to be called or woken. -/
def next (l : Members) : Pc → Option Next
  | .idle => none
  | .check cv =>
    if l.predicate cv then some { pc := cv.resume, members := l }
    else some { pc := .asleep cv false, members := l, mutex := .release }
  | .asleep _ _ => none
  | .awake cv => some { pc := .check cv, members := l, mutex := .acquire }
  | .sharedEntry => some { pc := .check .readers, members := l, mutex := .acquire }
  | .sharedCount =>
    some { pc := .sharedDone, members := { l with activeReaders := l.activeReaders + 1 } }
  | .sharedDone => some { pc := .reading, members := l, mutex := .release }
  | .reading => some { pc := .unsharedEntry, members := l }
  | .unsharedEntry => some { pc := .unsharedDecrement, members := l, mutex := .acquire }
  | .unsharedDecrement =>
    some {
      pc := if l.activeReaders - 1 = 0 then .unsharedNotify else .unsharedDone
      members := { l with activeReaders := l.activeReaders - 1 } }
  | .unsharedNotify => some { pc := .unsharedDone, members := l, notify := some .writer }
  | .unsharedDone => some { pc := .idle, members := l, mutex := .release }
  | .lockEntry => some { pc := .lockEnqueue, members := l, mutex := .acquire }
  | .lockEnqueue =>
    some { pc := .check .writer, members := { l with waitingWriters := l.waitingWriters + 1 } }
  | .lockDequeue =>
    some { pc := .lockSet, members := { l with waitingWriters := l.waitingWriters - 1 } }
  | .lockSet => some { pc := .lockDone, members := { l with writerActive := true } }
  | .lockDone => some { pc := .writing, members := l, mutex := .release }
  | .writing => some { pc := .unlockEntry, members := l }
  | .unlockEntry => some { pc := .unlockClear, members := l, mutex := .acquire }
  | .unlockClear => some { pc := .unlockRelease, members := { l with writerActive := false } }
  | .unlockRelease => some { pc := .unlockNotifyWriter, members := l, mutex := .release }
  | .unlockNotifyWriter =>
    some { pc := .unlockNotifyReaders, members := l, notify := some .writer }
  | .unlockNotifyReaders => some { pc := .idle, members := l, notify := some .readers }

/-! ## The system -/

variable {ι : Type} [DecidableEq ι]

/-- The lock and its threads; `mutex` is the owner of `m_`. -/
structure State (ι : Type) where
  members : Members
  mutex : Option ι
  pc : ι → Pc

/-- `notify_all` for a thread: it counts when it is asleep on that variable. -/
def Pc.notified (cv : Option Cv) : Pc → Pc
  | .asleep cv' n => .asleep cv' (n || cv == some cv')
  | pc => pc

/-- The state after the effect of a statement of thread `t`. -/
def State.apply (s : State ι) (t : ι) (n : Next) : State ι where
  members := n.members
  mutex :=
    match n.mutex with
    | .keep => s.mutex
    | .acquire => some t
    | .release => none
  pc := Function.update (fun u => (s.pc u).notified n.notify) t n.pc

section Apply

variable {s : State ι} {t : ι} {n : Next}

theorem apply_pc_of_ne {u : ι} (hu : u ≠ t) :
    (s.apply t n).pc u = (s.pc u).notified n.notify := by
  simp [State.apply, Function.update_of_ne hu]

theorem apply_pc_self : (s.apply t n).pc t = n.pc := by
  simp [State.apply]

end Apply

/-- A thread that is outside calls `lock_shared` or `lock`; a thread takes its
next statement, in which it leaves the section it guards as well; a sleeper
wakes up, notified or not. -/
inductive Event (ι : Type)
  | lockShared (t : ι)
  | lock (t : ι)
  | run (t : ι)
  | wake (t : ι)
  deriving DecidableEq, Repr

def step (s : State ι) : Event ι → Option (State ι)
  | .lockShared t =>
    if s.pc t = .idle then some (s.apply t { pc := .sharedEntry, members := s.members }) else none
  | .lock t =>
    if s.pc t = .idle then some (s.apply t { pc := .lockEntry, members := s.members }) else none
  | .run t =>
    match next s.members (s.pc t) with
    | none => none
    | some n => if n.mutex = .acquire ∧ s.mutex ≠ none then none else some (s.apply t n)
  | .wake t =>
    match s.pc t with
    | .asleep cv _ => some (s.apply t { pc := .awake cv, members := s.members })
    | _ => none

/-- A new lock. -/
def State.initial (ι : Type) : State ι where
  members := ⟨0, 0, false⟩
  mutex := none
  pc := fun _ => .idle

/-- The transition system of a rotation lock and its threads. -/
def system (ι : Type) [DecidableEq ι] : System (State ι) (Event ι) where
  init s := s = .initial ι
  step := step

/-! ## Kinds of threads -/

namespace Pc

/-- The thread owns `m_`. -/
def critical : Pc → Bool
  | .check _ | .sharedCount | .sharedDone | .unsharedDecrement | .unsharedNotify | .unsharedDone
  | .lockEnqueue | .lockDequeue | .lockSet | .lockDone | .unlockClear | .unlockRelease => true
  | _ => false

/-- An active reader: admitted and not yet taken off the count. -/
def reads : Pc → Bool
  | .sharedDone | .reading | .unsharedEntry | .unsharedDecrement => true
  | _ => false

/-- An active writer: from the setting of the flag to its clearing. -/
def writes : Pc → Bool
  | .lockDone | .writing | .unlockEntry | .unlockClear => true
  | _ => false

/-- A waiting writer, as `waiting_writers_` counts them. -/
def queued : Pc → Bool
  | .check .writer | .asleep .writer _ | .awake .writer | .lockDequeue => true
  | _ => false

/-- In `wait` on a condition variable, without `m_`. -/
def waits (cv : Cv) : Pc → Bool
  | .asleep cv' _ | .awake cv' => cv == cv'
  | _ => false

/-- Notified, or woken, since it last went to sleep. -/
def roused : Pc → Bool
  | .asleep _ n => n
  | .awake _ => true
  | _ => false

/-- In an `unlock` or `unlock_shared` that has changed the members and still has
to notify the condition variable. -/
def owesNotify : Cv → Pc → Bool
  | .writer, .unsharedNotify | _, .unlockRelease | _, .unlockNotifyWriter
  | .readers, .unlockNotifyReaders => true
  | _, _ => false

/-- A thread because of which a sleeper needs no notification yet: one that
owes it, or for readers a writer between its two stores. -/
def covers : Cv → Pc → Bool
  | .readers, .lockSet => true
  | cv, pc => owesNotify cv pc

/-- Asleep and not notified. -/
def sleeps (cv : Cv) : Pc → Bool
  | .asleep cv' n => cv == cv' && !n
  | _ => false

end Pc

section Notified

variable (cv : Option Cv) (pc : Pc)

@[simp] theorem critical_notified : (pc.notified cv).critical = pc.critical := by
  cases pc <;> rfl

@[simp] theorem reads_notified : (pc.notified cv).reads = pc.reads := by
  cases pc <;> rfl

@[simp] theorem writes_notified : (pc.notified cv).writes = pc.writes := by
  cases pc <;> rfl

@[simp] theorem queued_notified : (pc.notified cv).queued = pc.queued := by
  cases pc with
  | asleep cv' n => cases cv' <;> rfl
  | _ => rfl

@[simp] theorem covers_notified (cv' : Cv) : (pc.notified cv).covers cv' = pc.covers cv' := by
  cases pc <;> cases cv' <;> rfl

end Notified

/-- A sleeper that is still not notified was not meant. -/
theorem sleeps_of_notified {cv : Option Cv} {cv' : Cv} {pc : Pc}
    (h : (pc.notified cv).sleeps cv' = true) : pc.sleeps cv' = true ∧ cv ≠ some cv' := by
  cases pc with
  | asleep cv'' n =>
    simp only [Pc.notified, Pc.sleeps, Bool.and_eq_true, beq_iff_eq, Bool.not_eq_true',
      Bool.or_eq_false_iff, beq_eq_false_iff_ne] at h ⊢
    obtain ⟨rfl, hNot, hOther⟩ := h
    exact ⟨⟨rfl, hNot⟩, hOther⟩
  | _ => cases h

/-! ## One statement -/

/-- What a thread can rely on where it stands. -/
def Knows (l : Members) : Pc → Prop
  | .sharedCount => l.predicate .readers = true
  | .lockDequeue | .lockSet => l.predicate .writer = true
  | .sharedDone | .reading | .unsharedEntry | .unsharedDecrement =>
    l.writerActive = false ∧ 0 < l.activeReaders
  | .lockDone | .writing | .unlockEntry | .unlockClear => l.writerActive = true
  | _ => True

/-- The part of it that is only known under `m_`. -/
def Admitted (l : Members) : Pc → Prop
  | .sharedCount => l.predicate .readers = true
  | .lockDequeue | .lockSet => l.predicate .writer = true
  | _ => True

/-- What a statement can do: `l` and `pc` before, `n` its effect. -/
structure Contract (l : Members) (pc : Pc) (n : Next) : Prop where
  /-- The members change under `m_` only. -/
  members : pc.critical = true ∨ n.members = l
  mutex : match n.mutex with
    | .keep => n.pc.critical = pc.critical
    | .acquire => pc.critical = false ∧ n.pc.critical = true
    | .release => pc.critical = true ∧ n.pc.critical = false
  activeReaders : n.members.activeReaders + pc.reads.toNat = l.activeReaders + n.pc.reads.toNat
  waitingWriters :
    n.members.waitingWriters + pc.queued.toNat = l.waitingWriters + n.pc.queued.toNat
  writerActive : n.members.writerActive.toNat + pc.writes.toNat =
    l.writerActive.toNat + n.pc.writes.toNat
  admitted : Admitted n.members n.pc
  admits : n.pc.reads = true → pc.reads = true ∨ l.predicate .readers = true
  exclusive : (l.writerActive = true → l.activeReaders = 0) →
    n.members.writerActive = true → n.members.activeReaders = 0
  /-- A thread falls asleep on a false predicate. -/
  sleeps : ∀ cv, n.pc.sleeps cv = true → n.members.predicate cv = false
  /-- A statement that makes a predicate true starts to cover its sleepers. -/
  opens : ∀ cv, l.predicate cv = false → n.members.predicate cv = true → n.pc.covers cv = true
  /-- A statement stops to cover them by a notification or by a false predicate. -/
  closes : ∀ cv, pc.covers cv = true →
    n.pc.covers cv = true ∨ n.notify = some cv ∨ n.members.predicate cv = false

theorem Members.predicate_writer_iff {l : Members} :
    l.predicate .writer = true ↔ l.writerActive = false ∧ l.activeReaders = 0 := by
  simp [Members.predicate]

theorem Members.predicate_readers_iff {l : Members} :
    l.predicate .readers = true ↔ l.writerActive = false ∧ l.waitingWriters = 0 := by
  simp [Members.predicate]

/-- A statement that neither changes the members nor notifies. -/
theorem Contract.move {l : Members} {pc pc' : Pc} {op : MutexOp}
    (hMutex : match op with
      | .keep => pc'.critical = pc.critical
      | .acquire => pc.critical = false ∧ pc'.critical = true
      | .release => pc.critical = true ∧ pc'.critical = false)
    (hReads : pc'.reads = pc.reads) (hQueued : pc'.queued = pc.queued)
    (hWrites : pc'.writes = pc.writes) (hAdmitted : Admitted l pc')
    (hSleeps : ∀ cv, pc'.sleeps cv = true → l.predicate cv = false)
    (hCovers : ∀ cv, pc.covers cv = true → pc'.covers cv = true) :
    Contract l pc { pc := pc', members := l, mutex := op } where
  members := .inr rfl
  mutex := hMutex
  activeReaders := by rw [hReads]
  waitingWriters := by rw [hQueued]
  writerActive := by rw [hWrites]
  admitted := hAdmitted
  admits := fun h => .inl (hReads ▸ h)
  exclusive := id
  sleeps := hSleeps
  opens := fun cv hFalse hTrue => by simp [hFalse] at hTrue
  closes := fun cv h => .inl (hCovers cv h)

/-- A notification. -/
theorem Contract.notify {l : Members} {pc pc' : Pc} {cv : Cv}
    (hCritical : pc'.critical = pc.critical) (hReads : pc'.reads = pc.reads)
    (hQueued : pc'.queued = pc.queued) (hWrites : pc'.writes = pc.writes)
    (hAdmitted : Admitted l pc') (hSleeps : ∀ cv, pc'.sleeps cv = false)
    (hCovers : ∀ cv', pc.covers cv' = true → cv' ≠ cv → pc'.covers cv' = true) :
    Contract l pc { pc := pc', members := l, notify := some cv } where
  members := .inr rfl
  mutex := hCritical
  activeReaders := by rw [hReads]
  waitingWriters := by rw [hQueued]
  writerActive := by rw [hWrites]
  admitted := hAdmitted
  admits := fun h => .inl (hReads ▸ h)
  exclusive := id
  sleeps := fun cv h => by simp [hSleeps cv] at h
  opens := fun cv hFalse hTrue => by simp [hFalse] at hTrue
  closes := fun cv' h => by
    by_cases hCv : cv' = cv
    · exact .inr (.inl (by rw [hCv]))
    · exact .inl (hCovers cv' h hCv)

section Statements

variable {l : Members} {n : Next}

/-- One more reader makes no predicate true. -/
theorem sharedCount_contract (hReaders : 0 ≤ l.activeReaders)
    (hKnows : l.predicate .readers = true) (hNext : next l .sharedCount = some n) :
    Contract l .sharedCount n := by
  cases hNext
  have hFree := Members.predicate_readers_iff.mp hKnows
  exact {
    members := .inl rfl
    mutex := rfl
    activeReaders := by simp [Pc.reads]
    waitingWriters := rfl
    writerActive := rfl
    admitted := trivial
    admits := fun _ => .inr hKnows
    exclusive := fun _ hActive => by simp [hFree.1] at hActive
    sleeps := nofun
    opens := fun cv hFalse hTrue => by
      cases cv with
      | readers => exact absurd (hFalse.symm.trans hKnows) Bool.false_ne_true
      | writer =>
        have hNone : l.activeReaders + 1 = 0 := (Members.predicate_writer_iff.mp hTrue).2
        omega
    closes := fun cv h => by cases cv <;> cases h }

/-- The last reader goes on to its notification. -/
theorem unsharedDecrement_contract
    (hKnows : l.writerActive = false ∧ 0 < l.activeReaders)
    (hNext : next l .unsharedDecrement = some n) :
    Contract l .unsharedDecrement n := by
  cases hNext
  obtain ⟨hInactive, hPos⟩ := hKnows
  have hPc : ∀ kind : Pc → Bool, kind .unsharedNotify = kind .unsharedDone →
      kind (if l.activeReaders - 1 = 0 then .unsharedNotify else .unsharedDone) =
        kind .unsharedDone := by
    intro kind hKind
    split
    · exact hKind
    · rfl
  exact {
    members := .inl rfl
    mutex := hPc _ rfl
    activeReaders := by
      rw [hPc Pc.reads rfl]
      simp [Pc.reads]
    waitingWriters := by rw [hPc Pc.queued rfl]; rfl
    writerActive := by rw [hPc Pc.writes rfl]; rfl
    admitted := by
      dsimp only
      split <;> trivial
    admits := fun _ => .inl rfl
    exclusive := fun _ hActive => by simp [hInactive] at hActive
    sleeps := fun cv h => by rw [hPc (Pc.sleeps cv) rfl] at h; cases h
    opens := fun cv hFalse hTrue => by
      cases cv with
      | readers => exact absurd hTrue (by simpa [Members.predicate] using hFalse)
      | writer =>
        have hNone : l.activeReaders - 1 = 0 := (Members.predicate_writer_iff.mp hTrue).2
        rw [if_pos hNone]
        rfl
    closes := fun cv h => by cases cv <;> cases h }

/-- One more writer makes no predicate true. -/
theorem lockEnqueue_contract (hWriters : 0 ≤ l.waitingWriters)
    (hNext : next l .lockEnqueue = some n) : Contract l .lockEnqueue n := by
  cases hNext
  exact {
    members := .inl rfl
    mutex := rfl
    activeReaders := rfl
    waitingWriters := by simp [Pc.queued]
    writerActive := rfl
    admitted := trivial
    admits := nofun
    exclusive := id
    sleeps := nofun
    opens := fun cv hFalse hTrue => by
      cases cv with
      | readers =>
        have hNone : l.waitingWriters + 1 = 0 := (Members.predicate_readers_iff.mp hTrue).2
        omega
      | writer => exact absurd hTrue (by simpa [Members.predicate] using hFalse)
    closes := fun cv h => by cases cv <;> cases h }

/-- A reader need not be told: the writer sets the flag next. -/
theorem lockDequeue_contract (hKnows : l.predicate .writer = true)
    (hNext : next l .lockDequeue = some n) : Contract l .lockDequeue n := by
  cases hNext
  exact {
    members := .inl rfl
    mutex := rfl
    activeReaders := rfl
    waitingWriters := by simp [Pc.queued]
    writerActive := rfl
    admitted := hKnows
    admits := nofun
    exclusive := id
    sleeps := nofun
    opens := fun cv hFalse hTrue => by
      cases cv with
      | readers => rfl
      | writer => exact absurd hTrue (by simpa [Members.predicate] using hFalse)
    closes := fun cv h => by cases cv <;> cases h }

/-- The flag makes both predicates false. -/
theorem lockSet_contract (hKnows : l.predicate .writer = true)
    (hNext : next l .lockSet = some n) : Contract l .lockSet n := by
  cases hNext
  obtain ⟨hInactive, hNone⟩ := Members.predicate_writer_iff.mp hKnows
  exact {
    members := .inl rfl
    mutex := rfl
    activeReaders := rfl
    waitingWriters := rfl
    writerActive := by simp [hInactive, Pc.writes]
    admitted := trivial
    admits := nofun
    exclusive := fun _ _ => hNone
    sleeps := nofun
    opens := fun cv _ hTrue => by cases cv <;> cases hTrue
    closes := fun cv _ => .inr (.inr (by cases cv <;> rfl)) }

/-- From here on `unlock` owes both notifications. -/
theorem unlockClear_contract (hActive : l.writerActive = true)
    (hNext : next l .unlockClear = some n) : Contract l .unlockClear n := by
  cases hNext
  exact {
    members := .inl rfl
    mutex := rfl
    activeReaders := rfl
    waitingWriters := rfl
    writerActive := by simp [hActive, Pc.writes]
    admitted := trivial
    admits := nofun
    exclusive := nofun
    sleeps := nofun
    opens := fun cv _ _ => by cases cv <;> rfl
    closes := fun cv h => by cases cv <;> cases h }

end Statements

/-- **One statement.** -/
theorem next_contract {l : Members} {pc : Pc} {n : Next} (hReaders : 0 ≤ l.activeReaders)
    (hWriters : 0 ≤ l.waitingWriters) (hKnows : Knows l pc) (hNext : next l pc = some n) :
    Contract l pc n := by
  cases pc with
  | idle | asleep => cases hNext
  | check cv =>
    by_cases hPred : l.predicate cv = true
    · have hResume : next l (.check cv) = some { pc := cv.resume, members := l } := if_pos hPred
      cases hResume.symm.trans hNext
      cases cv <;> exact .move rfl rfl rfl rfl hPred nofun (fun cv h => by cases cv <;> cases h)
    · have hSleep : next l (.check cv) =
          some { pc := .asleep cv false, members := l, mutex := .release } := if_neg hPred
      cases hSleep.symm.trans hNext
      refine .move ⟨rfl, rfl⟩ rfl (by cases cv <;> rfl) rfl trivial (fun cv' h => ?_)
        (fun cv' h => by cases cv' <;> cases h)
      simp only [Pc.sleeps, Bool.not_false, Bool.and_true, beq_iff_eq] at h
      subst h
      simpa using hPred
  | awake cv =>
    cases hNext
    exact .move ⟨rfl, rfl⟩ rfl (by cases cv <;> rfl) rfl trivial nofun
      (fun cv' h => by cases cv' <;> cases h)
  | sharedEntry | unsharedEntry | lockEntry | unlockEntry | sharedDone | unsharedDone
  | lockDone =>
    cases hNext
    exact .move ⟨rfl, rfl⟩ rfl rfl rfl trivial nofun (fun cv h => by cases cv <;> cases h)
  | reading | writing =>
    cases hNext
    exact .move rfl rfl rfl rfl trivial nofun (fun cv h => by cases cv <;> cases h)
  | unlockRelease =>
    cases hNext
    exact .move ⟨rfl, rfl⟩ rfl rfl rfl trivial nofun (fun cv _ => by cases cv <;> rfl)
  | unsharedNotify =>
    cases hNext
    refine .notify rfl rfl rfl rfl trivial (fun _ => rfl) (fun cv h hNe => ?_)
    cases cv with
    | readers => cases h
    | writer => exact absurd rfl hNe
  | unlockNotifyWriter =>
    cases hNext
    refine .notify rfl rfl rfl rfl trivial (fun _ => rfl) (fun cv _ hNe => ?_)
    cases cv with
    | readers => rfl
    | writer => exact absurd rfl hNe
  | unlockNotifyReaders =>
    cases hNext
    refine .notify rfl rfl rfl rfl trivial (fun _ => rfl) (fun cv h hNe => ?_)
    cases cv with
    | readers => exact absurd rfl hNe
    | writer => cases h
  | sharedCount => exact sharedCount_contract hReaders hKnows hNext
  | unsharedDecrement => exact unsharedDecrement_contract hKnows hNext
  | lockEnqueue => exact lockEnqueue_contract hWriters hNext
  | lockDequeue => exact lockDequeue_contract hKnows hNext
  | lockSet => exact lockSet_contract hKnows hNext
  | unlockClear => exact unlockClear_contract hKnows hNext

/-- The call of a member function, and a wake-up. -/
theorem call_contract (l : Members) {pc : Pc} (hIdle : pc = .idle) {pc' : Pc}
    (hEntry : pc' = .sharedEntry ∨ pc' = .lockEntry) :
    Contract l pc { pc := pc', members := l } := by
  subst hIdle
  rcases hEntry with rfl | rfl <;>
    exact .move rfl rfl rfl rfl trivial nofun (fun cv h => by cases cv <;> cases h)

theorem wake_contract (l : Members) (cv : Cv) (notified : Bool) :
    Contract l (.asleep cv notified) { pc := .awake cv, members := l } :=
  .move rfl rfl (by cases cv <;> rfl) rfl trivial nofun (fun cv h => by cases cv <;> cases h)

end ArmRx.Mining.RotationLock
