import ArmRx.Lib.Transition

/-!
# The partial dataset: rotations, fill workers and guarded readers

`PartialDataset` keeps a prefix of the RandomX dataset in one buffer. A call
of `start_fill` is a rotation: it joins the fill workers of the previous
generation, resets the published counters while no reader holds a guard, and
spawns one worker per chunk. A worker initialises its chunk, sets the chunk's
flag and moves the published bound over the finished chunks; readers hold a
`ReadGuard` while they use items below the bound.

The model takes one step per atomic access. A worker's step reads the shared
memory and makes at most one store; a rotation's step is one statement of
`start_fill`; the critical sections of `RotationLock` are one step each.

* `startFill_chunking` — the chunks of a rotation are non-empty and cover the
  buffer.
* `system` — the transition system of one `PartialDataset`.
-/

namespace ArmRx.Mining.PartialDataset

open ArmRx.Lib

/-! ## Sizes and chunks -/

def kRandomXDatasetItemBytes : Nat := 64

def kRandomXDatasetBytes : Nat := 2 * 1024 * 1024 * 1024 + 32 * 1024 * 1024

/-- `randomx_dataset_item_count()`. -/
def randomxDatasetItemCount : Nat := kRandomXDatasetBytes / kRandomXDatasetItemBytes

def kFillChunkBytes : Nat := 64 * 1024 * 1024

def kFillChunkItems : Nat := kFillChunkBytes / kRandomXDatasetItemBytes

/-- The item count of a constructed buffer; the constructor rejects larger
ones. -/
structure Allocation where
  items : Nat
  items_le : items ≤ randomxDatasetItemCount

/-- The size check of the constructor. -/
def allocate (itemCount : Nat) : Except String Allocation :=
  if h : itemCount ≤ randomxDatasetItemCount then .ok ⟨itemCount, h⟩
  else .error (s!"PartialDataset: item_count ({itemCount}) exceeds the full RandomX dataset " ++
    s!"extent ({randomxDatasetItemCount} items)")

/-- The arguments of a `start_fill` call; `cacheHolder` tells whether the
pointer is set. -/
structure FillCall where
  cacheHolder : Bool
  coreOrder : List Nat
  excludeCores : List Nat
  deriving DecidableEq, Repr

/-- The argument checks of `start_fill`. -/
def FillCall.check (call : FillCall) : Except String Unit :=
  if !call.cacheHolder then
    .error "PartialDataset::start_fill: cache_holder must not be null"
  else if call.coreOrder.isEmpty then
    .error ("PartialDataset::start_fill: core_order must not be empty " ++
      "(pass the caller's real core list; there is no unpinned mode)")
  else .ok ()

/-- The cores that are not excluded, or all of them when every one is. -/
def FillCall.availCores (call : FillCall) : List Nat :=
  let avail := call.coreOrder.filter fun c => !call.excludeCores.contains c
  if avail.isEmpty then call.coreOrder else avail

def FillCall.numWorkers (call : FillCall) (totalItems : Nat) : Nat :=
  min ((totalItems + kFillChunkItems - 1) / kFillChunkItems) (max 1 call.availCores.length)

def FillCall.itemsPerWorker (call : FillCall) (totalItems : Nat) : Nat :=
  (totalItems + call.numWorkers totalItems - 1) / call.numWorkers totalItems

/-- The first item of chunk `i`. -/
def chunkStart (itemsPerChunk i : Nat) : Nat := i * itemsPerChunk

/-- The end of chunk `i`. -/
def chunkEnd (totalItems itemsPerChunk i : Nat) : Nat :=
  min (chunkStart itemsPerChunk i + itemsPerChunk) totalItems

/-- `workers` chunks of `itemsPerChunk` items tile the buffer, and the last one
is not empty. -/
structure Chunking (totalItems workers itemsPerChunk : Nat) : Prop where
  workers_pos : 0 < workers
  last : (workers - 1) * itemsPerChunk < totalItems
  cover : totalItems ≤ workers * itemsPerChunk

theorem numWorkers_pos (call : FillCall) {totalItems : Nat} (hPos : 0 < totalItems) :
    0 < call.numWorkers totalItems := by
  unfold FillCall.numWorkers
  have hChunks : 0 < (totalItems + kFillChunkItems - 1) / kFillChunkItems := by
    unfold kFillChunkItems kFillChunkBytes kRandomXDatasetItemBytes
    omega
  omega

/-- Each worker but the last has a full 64 MiB piece of the buffer to itself. -/
theorem numWorkers_spec (call : FillCall) (d : Allocation) (hPos : 0 < d.items) :
    (call.numWorkers d.items - 1) * kFillChunkItems < d.items ∧ call.numWorkers d.items ≤ 33 := by
  have hLe := d.items_le
  have hMin : call.numWorkers d.items ≤ (d.items + kFillChunkItems - 1) / kFillChunkItems :=
    Nat.min_le_left _ _
  have hW := numWorkers_pos call hPos
  unfold randomxDatasetItemCount kRandomXDatasetBytes at hLe
  unfold kFillChunkItems kFillChunkBytes kRandomXDatasetItemBytes at *
  omega

/-- **Chunks of a rotation.** For every buffer size and core list the ceiling
division leaves no chunk empty and no item out. -/
theorem startFill_chunking (call : FillCall) (d : Allocation) (hPos : 0 < d.items) :
    Chunking d.items (call.numWorkers d.items) (call.itemsPerWorker d.items) := by
  have hW := numWorkers_pos call hPos
  obtain ⟨hFull, hFew⟩ := numWorkers_spec call d hPos
  unfold FillCall.itemsPerWorker
  generalize call.numWorkers d.items = w at *
  generalize d.items = n at *
  obtain ⟨v, rfl⟩ : ∃ v, w = v + 1 := ⟨w - 1, by omega⟩
  simp only [Nat.add_sub_cancel] at hFull ⊢
  have hLow : (v + 1) * ((n + (v + 1) - 1) / (v + 1)) ≤ n + (v + 1) - 1 := Nat.mul_div_le _ _
  have hHigh : n + (v + 1) - 1 < (v + 1) * ((n + (v + 1) - 1) / (v + 1)) + (v + 1) :=
    Nat.lt_mul_div_succ _ hW
  generalize (n + (v + 1) - 1) / (v + 1) = ipc at *
  have hCover : n ≤ (v + 1) * ipc := by omega
  refine ⟨hW, ?_, hCover⟩
  rw [Nat.add_sub_cancel]
  rcases Nat.eq_zero_or_pos v with rfl | hv
  · omega
  -- with two workers or more a chunk has at least 2 ^ 19 items, more than there are workers
  have hBig : v < ipc := by
    by_contra hSmall
    have : (v + 1) * ipc ≤ (v + 1) * v := Nat.mul_le_mul_left _ (by omega)
    have : v * kFillChunkItems < (v + 1) * v := by omega
    have : v * kFillChunkItems < v * (v + 1) := by rwa [Nat.mul_comm v (v + 1)]
    have := Nat.lt_of_mul_lt_mul_left this
    unfold kFillChunkItems kFillChunkBytes kRandomXDatasetItemBytes at this
    omega
  rw [Nat.add_mul] at hLow
  omega

namespace Chunking

variable {n w ipc : Nat}

theorem itemsPerChunk_pos (h : Chunking n w ipc) : 0 < ipc := by
  rcases Nat.eq_zero_or_pos ipc with rfl | hPos
  · have := h.last
    have := h.cover
    omega
  · exact hPos

/-- No chunk is empty. -/
theorem start_lt_end (h : Chunking n w ipc) {i : Nat} (hi : i < w) :
    chunkStart ipc i < chunkEnd n ipc i := by
  have hPos := h.itemsPerChunk_pos
  have hLast : i * ipc ≤ (w - 1) * ipc := Nat.mul_le_mul_right _ (by omega)
  have := h.last
  unfold chunkEnd chunkStart
  omega

/-- An item lies in the chunk its index divided by the chunk size names, and in
no other. -/
theorem mem_iff (h : Chunking n w ipc) {x i : Nat} (hx : x < n) :
    chunkStart ipc i ≤ x ∧ x < chunkEnd n ipc i ↔ i = x / ipc := by
  have hPos := h.itemsPerChunk_pos
  unfold chunkEnd chunkStart
  constructor
  · rintro ⟨hLow, hHigh⟩
    have : x / ipc = i := Nat.div_eq_of_lt_le hLow (by rw [Nat.succ_mul]; omega)
    exact this.symm
  · rintro rfl
    have hLow := Nat.div_mul_le_self x ipc
    have hHigh : x < x / ipc * ipc + ipc := Nat.lt_div_mul_add hPos
    omega

theorem div_lt (h : Chunking n w ipc) {x : Nat} (hx : x < n) : x / ipc < w := by
  have := h.cover
  exact Nat.div_lt_of_lt_mul (by rw [Nat.mul_comm]; omega)

end Chunking

/-! ## The shared memory -/

/-- What the threads share. Stop tokens are numbered in the order they are
made and `stopToken` is the one `stop_` points at. A cache is named by the
generation of the rotation that passed it, so `cacheHolder` is `cache_holder_`
and `data i = some g` says that item `i` is fully written from the cache of
generation `g`; `none` is an item never written or being written. -/
structure Memory where
  shutdownRequested : Bool
  stop : Nat → Bool
  stopToken : Nat
  generation : Nat
  itemCount : Nat
  contiguousDone : Nat
  fillComplete : Bool
  fillFailed : Bool
  cacheHolder : Nat
  /-- `chunk_done_`; the null pointer of a new object is the empty vector. -/
  chunkDone : List Bool
  itemsPerChunk : Nat
  data : Nat → Option Nat

/-- One store of a fill worker. `initialize_dataset` writes the items of its
range one after the other or in pairs: none of them counts as written from
the start of the call (`tear`) until it returns (`write`). -/
inductive Store
  | none
  | tear (first last : Nat)
  | write (first last cache : Nat)
  | fillFailed
  | stop (token : Nat)
  | chunkDone (chunk : Nat)
  | contiguousDone (cursor : Nat)
  | itemCount (cursor : Nat)
  | fillComplete
  deriving DecidableEq, Repr

/-- `data` with the items of a range replaced. -/
def overwrite (data : Nat → Option Nat) (first last : Nat) (value : Option Nat) :
    Nat → Option Nat :=
  fun i => if first ≤ i ∧ i < last then value else data i

def Store.apply (m : Memory) : Store → Memory
  | .none => m
  | .tear first last => { m with data := overwrite m.data first last Option.none }
  | .write first last cache => { m with data := overwrite m.data first last (some cache) }
  | .fillFailed => { m with fillFailed := true }
  | .stop token => { m with stop := Function.update m.stop token true }
  | .chunkDone chunk => { m with chunkDone := m.chunkDone.set chunk true }
  | .contiguousDone cursor => { m with contiguousDone := cursor }
  | .itemCount cursor => { m with itemCount := cursor }
  | .fillComplete => { m with fillComplete := true }

/-! ## Fill workers -/

/-- The next access of a fill worker, with the locals that are live there. -/
inductive FillPc
  /-- The two loads before the pinning. -/
  | entry
  | entryShutdown
  /-- The head of the sub-chunk loop. -/
  | head (subStart : Nat)
  | headShutdown (subStart : Nat)
  /-- Before and inside `initialize_dataset`. -/
  | initializeDataset (subStart : Nat)
  | writing (subStart : Nat)
  /-- The two stores of the exception handler. -/
  | failed
  | failedStop
  | markDone
  /-- The publish loop. -/
  | loadCursor
  | advance (cursor : Nat)
  | exchange (cursor : Nat)
  | loadItemCount (cursor prev : Nat)
  | raiseItemCount (cursor prev itemPrev : Nat)
  /-- The completion test. -/
  | checkStop
  | checkShutdown
  | checkContiguous
  | setComplete
  | returned
  deriving DecidableEq, Repr

/-- A fill thread: the arguments it was spawned with and where it stands. -/
structure FillWorker where
  cacheHolder : Nat
  stop : Nat
  startItem : Nat
  endItem : Nat
  chunkId : Nat
  pc : FillPc
  deriving DecidableEq, Repr

def FillWorker.subEnd (w : FillWorker) (subStart : Nat) : Nat :=
  min (subStart + kFillChunkItems) w.endItem

/-- One round of the inner loop: the cursor behind the chunk that owns it, when
that chunk is done. -/
def advanceCursor (allocated : Nat) (m : Memory) (cursor : Nat) : Option Nat :=
  if cursor < allocated then
    let owning := cursor / m.itemsPerChunk
    match m.chunkDone[owning]? with
    | none => none
    | some false => none
    | some true =>
      let chunkSpan :=
        if owning + 1 < m.chunkDone.length then m.itemsPerChunk
        else allocated - owning * m.itemsPerChunk
      some (cursor + chunkSpan)
  else none

/-- The end of one round of the publish loop. -/
def afterPublish (cursor prev : Nat) : FillPc :=
  if cursor = prev then .checkStop else .loadCursor

/-- One step of `fill_worker`: the store it makes and where it goes.
`weakFails` is a spurious failure of `compare_exchange_weak`. -/
def fillWorker (allocated : Nat) (m : Memory) (w : FillWorker) (weakFails : Bool) :
    Option (Store × FillPc) :=
  match w.pc with
  | .entry => some (.none, if m.stop w.stop then .returned else .entryShutdown)
  | .entryShutdown =>
    some (.none, if m.shutdownRequested then .returned else .head w.startItem)
  | .head subStart =>
    some (.none,
      if subStart < w.endItem then
        if m.stop w.stop then .returned else .headShutdown subStart
      else .markDone)
  | .headShutdown subStart =>
    some (.none, if m.shutdownRequested then .returned else .initializeDataset subStart)
  | .initializeDataset subStart => some (.tear subStart (w.subEnd subStart), .writing subStart)
  | .writing subStart =>
    some (.write subStart (w.subEnd subStart) w.cacheHolder, .head (w.subEnd subStart))
  | .failed => some (.fillFailed, .failedStop)
  | .failedStop => some (.stop w.stop, .returned)
  | .markDone => some (.chunkDone w.chunkId, .loadCursor)
  | .loadCursor => some (.none, .advance m.contiguousDone)
  | .advance cursor =>
    some (.none,
      match advanceCursor allocated m cursor with
      | some cursor' => .advance cursor'
      | none => .exchange cursor)
  | .exchange cursor => some (.contiguousDone cursor, .loadItemCount cursor m.contiguousDone)
  | .loadItemCount cursor prev => some (.none, .raiseItemCount cursor prev m.itemCount)
  | .raiseItemCount cursor prev itemPrev =>
    if itemPrev < cursor then
      if m.itemCount = itemPrev ∧ weakFails = false then
        some (.itemCount cursor, afterPublish cursor prev)
      else some (.none, .raiseItemCount cursor prev m.itemCount)
    else some (.none, afterPublish cursor prev)
  | .checkStop => some (.none, if m.stop w.stop then .returned else .checkShutdown)
  | .checkShutdown => some (.none, if m.shutdownRequested then .returned else .checkContiguous)
  | .checkContiguous =>
    some (.none, if allocated ≤ m.contiguousDone then .setComplete else .returned)
  | .setComplete => some (.fillComplete, .returned)
  | .returned => none

/-- The points at which `initialize_dataset` may throw. -/
def FillPc.mayThrow : FillPc → Bool
  | .initializeDataset _ | .writing _ => true
  | _ => false

/-! ## Rotations, readers and their lock -/

/-- The fields of `RotationLock`. -/
structure RotationLock where
  activeReaders : Nat
  waitingWriters : Nat
  writerActive : Bool
  deriving DecidableEq, Repr

/-- The next statement of the `start_fill` call in progress. -/
inductive Rotation
  | idle
  | checkShutdown
  | join
  | lock
  | acquire
  | resetItemCount
  | resetContiguous
  | resetComplete
  | resetFailed
  | bumpGeneration
  | swapStop
  | unlock
  | setUp
  | spawn (i : Nat)
  deriving DecidableEq, Repr

/-- A reader: outside its guard, or holding one with what it has read since. -/
inductive Reader
  | idle
  | holding (generation itemCount : Option Nat)
  deriving DecidableEq, Repr

def Reader.holds : Reader → Bool
  | .idle => false
  | .holding _ _ => true

/-- A partial dataset with `readers` potential holders of a guard. `workers i`
is the thread at position `i` of `fill_threads_`, of which `fillThreads` are
in the vector; `call` holds the arguments of the rotation in progress. -/
structure State (readers : Nat) where
  memory : Memory
  workers : Nat → FillWorker
  fillThreads : Nat
  call : FillCall
  rotation : Rotation
  lock : RotationLock
  readers : Fin readers → Reader

variable {R : Nat}

/-- The next statement of `start_fill`; `none` while it is blocked. -/
def startFill (d : Allocation) (s : State R) : Option (State R) :=
  let m := s.memory
  match s.rotation with
  | .idle => none
  | .checkShutdown =>
    if m.shutdownRequested then some { s with rotation := .idle }
    else
      match s.call.check with
      | .error _ => some { s with rotation := .idle }
      | .ok _ => some { s with rotation := .join }
  | .join =>
    -- `wait_for_fill` joins the same threads under the same mutex
    if ∀ i < s.fillThreads, (s.workers i).pc = .returned then
      some { s with fillThreads := 0, rotation := .lock }
    else none
  | .lock =>
    some { s with
      lock := { s.lock with waitingWriters := s.lock.waitingWriters + 1 }, rotation := .acquire }
  | .acquire =>
    if s.lock.writerActive = false ∧ s.lock.activeReaders = 0 then
      some { s with
        lock := { s.lock with waitingWriters := s.lock.waitingWriters - 1, writerActive := true },
        rotation := .resetItemCount }
    else none
  | .resetItemCount =>
    some { s with memory := { m with itemCount := 0 }, rotation := .resetContiguous }
  | .resetContiguous =>
    some { s with memory := { m with contiguousDone := 0 }, rotation := .resetComplete }
  | .resetComplete =>
    some { s with memory := { m with fillComplete := false }, rotation := .resetFailed }
  | .resetFailed =>
    some { s with memory := { m with fillFailed := false }, rotation := .bumpGeneration }
  | .bumpGeneration =>
    some { s with memory := { m with generation := m.generation + 1 }, rotation := .swapStop }
  | .swapStop =>
    some { s with
      memory := { m with
        stopToken := m.stopToken + 1
        stop := Function.update m.stop (m.stopToken + 1) false }
      rotation := .unlock }
  | .unlock =>
    some { s with lock := { s.lock with writerActive := false }, rotation := .setUp }
  | .setUp =>
    some { s with
      memory := { m with
        cacheHolder := m.generation
        chunkDone := List.replicate (s.call.numWorkers d.items) false
        itemsPerChunk := s.call.itemsPerWorker d.items }
      rotation := .spawn 0 }
  | .spawn i =>
    let start := chunkStart m.itemsPerChunk i
    let last := chunkEnd d.items m.itemsPerChunk i
    if i < s.call.numWorkers d.items ∧ start < last then
      some { s with
        workers := Function.update s.workers i
          { cacheHolder := m.cacheHolder
            stop := m.stopToken
            startItem := start
            endItem := last
            chunkId := i
            pc := .entry }
        fillThreads := s.fillThreads + 1
        rotation := .spawn (i + 1) }
    else some { s with rotation := .idle }

/-! ## The system -/

/-- What can happen next. `cancelToken` is the second half of a `cancel` call,
the store into the token it found; the tokens a call can have found are those
made so far. -/
inductive Event (readers : Nat)
  | startFill (call : FillCall)
  | rotation
  | worker (i : Nat) (weakFails : Bool)
  | throws (i : Nat)
  | cancel
  | cancelToken (token : Nat)
  | lockShared (r : Fin readers)
  | readGeneration (r : Fin readers)
  | readItemCount (r : Fin readers)
  | unlockShared (r : Fin readers)
  deriving DecidableEq, Repr

/-- Worker `i` goes on at `pc` after the store `st`. -/
def State.workerStep (s : State R) (i : Nat) (st : Store) (pc : FillPc) : State R :=
  { s with
    memory := st.apply s.memory
    workers := Function.update s.workers i { s.workers i with pc := pc } }

def State.setReader (s : State R) (r : Fin R) (reader : Reader) : State R :=
  { s with readers := Function.update s.readers r reader }

def step (d : Allocation) (s : State R) : Event R → Option (State R)
  | .startFill call =>
    if s.rotation = .idle then
      some { s with
        call := call
        rotation := if d.items = 0 then .idle else .checkShutdown }
    else none
  | .rotation => startFill d s
  | .worker i weakFails =>
    (fillWorker d.items s.memory (s.workers i) weakFails).map fun p => s.workerStep i p.1 p.2
  | .throws i =>
    if (s.workers i).pc.mayThrow then some (s.workerStep i .none .failed) else none
  | .cancel => some { s with memory := { s.memory with shutdownRequested := true } }
  | .cancelToken token =>
    if s.memory.shutdownRequested ∧ token ≤ s.memory.stopToken then
      some { s with memory := (Store.stop token).apply s.memory }
    else none
  | .lockShared r =>
    if s.readers r = .idle ∧ s.lock.writerActive = false ∧ s.lock.waitingWriters = 0 then
      some { s.setReader r (.holding none none) with
        lock := { s.lock with activeReaders := s.lock.activeReaders + 1 } }
    else none
  | .readGeneration r =>
    match s.readers r with
    | .holding _ _ => some (s.setReader r (.holding (some s.memory.generation) none))
    | .idle => none
  | .readItemCount r =>
    match s.readers r with
    | .holding (some g) _ => some (s.setReader r (.holding (some g) (some s.memory.itemCount)))
    | _ => none
  | .unlockShared r =>
    match s.readers r with
    | .holding _ _ =>
      some { s.setReader r .idle with
        lock := { s.lock with activeReaders := s.lock.activeReaders - 1 } }
    | .idle => none

/-- The memory of a new object. -/
def Memory.initial (allocated : Nat) : Memory where
  shutdownRequested := false
  stop := fun _ => false
  stopToken := 0
  generation := 0
  itemCount := 0
  contiguousDone := 0
  fillComplete := allocated == 0
  fillFailed := false
  cacheHolder := 0
  chunkDone := []
  itemsPerChunk := 0
  data := fun _ => none

/-- A new object: no fill thread, no reader inside a guard. -/
def State.initial (R : Nat) (d : Allocation) : State R where
  memory := .initial d.items
  workers := fun _ => ⟨0, 0, 0, 0, 0, .returned⟩
  fillThreads := 0
  call := ⟨false, [], []⟩
  rotation := .idle
  lock := ⟨0, 0, false⟩
  readers := fun _ => .idle

/-- The transition system of a partial dataset. -/
def system (d : Allocation) (R : Nat) : System (State R) (Event R) where
  init s := s = .initial R d
  step := step d

end ArmRx.Mining.PartialDataset
