import ArmRx.Mining.FillSafety
import ArmRx.Mining.Worker

/-!
# The mining engine

`MiningEngine` as a transition system: one thread that starts and stops the
engine, calls of `set_job` one at a time (they hold `job_mutex_` from their
first statement to their last), the mining workers, and the partial dataset
with its fill workers.

A step is one atomic access, one critical section or one statement of a thread
while no other thread can see the difference. A worker's section under
`job_mutex_` is one step that waits until no `set_job` is in progress.
`set_job` waits for a rebuild inside its section, so it takes a step per
statement.

A cache is named by the seed key it was initialised from. Datasets are numbered
in the order they are allocated, and `datasets d i = some key` says that item
`i` of dataset `d` is fully written from the cache of `key`.
-/

namespace ArmRx.Mining.Engine

open ArmRx.Lib ArmRx.Lib.Json ArmRx.Pool

/-- `RandomXMode`. -/
inductive RandomXMode
  | light
  | fast
  deriving DecidableEq, Repr

/-- An engine with `T` worker threads. `detect_core_order` never returns an
empty list. -/
structure Config (T : Nat) where
  mode : RandomXMode
  partialDataset : Option PartialDataset.Allocation
  coreOrder : List Nat
  coreOrder_ne : coreOrder ≠ []

variable {T : Nat}

/-- The buffer of the partial dataset; of size 0 when there is none. -/
def Config.allocation (cfg : Config T) : PartialDataset.Allocation :=
  cfg.partialDataset.getD ⟨0, Nat.zero_le _⟩

/-! ## State -/

/-- The members of the engine that its threads share. `deliveries` counts the
jobs that were stored into `current_job_`. -/
structure Memory where
  running : Bool
  numWorkers : Nat
  hasJob : Bool
  jobGeneration : Nat
  currentJob : Job
  deliveries : Nat
  currentSeedKey : Bytes
  sharedCache : Option Bytes
  sharedDataset : Option Nat
  allocatedDatasets : Nat
  datasets : Nat → Nat → Option Bytes
  datasetInitGeneration : Nat
  datasetInitRemaining : BitVec 32
  pendingDataset : Option Nat
  pendingCache : Option Bytes
  pendingItemsPerThread : Nat

/-- The next statement of the thread that starts and stops the engine. -/
inductive Control
  | idle
  | setRunning
  | setNumWorkers
  | spawn (i : Nat)
  | clearRunning
  | cancel
  | loadToken
  | storeToken (token : Nat)
  | join
  deriving DecidableEq, Repr

/-- The next statement of the `set_job` call in progress; `idle` when none
holds `job_mutex_`. -/
inductive SetJob
  | idle
  | compareKey (job : Job)
  | initCache (job : Job)
  | startFill (job : Job)
  | filling (job : Job)
  | allocateDataset (job : Job)
  | checkRunning (job : Job) (dataset : Nat)
  | setPending (job : Job) (dataset : Nat)
  | bumpInit (job : Job) (dataset : Nat)
  | waitInit (job : Job) (dataset : Nat)
  | tempInit (job : Job) (dataset : Nat)
  | publishDataset (job : Job) (dataset : Nat)
  | setSeedKey (job : Job)
  | setJob (job : Job)
  | bumpJob
  | setHasJob
  deriving DecidableEq

/-- The next step of a worker. -/
inductive Pc
  | exited
  /-- `wait_for_fill` in front of the loop. -/
  | startWait
  | startJoin
  /-- The head of the loop and the generation of the partial dataset. -/
  | loop
  | fillGeneration
  | fillWait
  | fillJoin
  /-- A worker's share of a dataset rebuild. -/
  | datasetGeneration
  | takeRange
  | initRange (dataset : Nat) (cache : Option Bytes) (start count : Nat)
  | writeRange (dataset : Nat) (cache : Option Bytes) (start count : Nat)
  | finishRange
  /-- The job check. -/
  | jobGeneration
  | refresh (currentGen : Nat)
  /-- The hash, under the guard when there is a partial dataset. -/
  | takeNonce
  | lockShared
  | recheck
  | unlockShared
  | startHash
  | hashing
  deriving DecidableEq

/-- The locals of `worker_loop`. -/
structure Worker where
  pc : Pc
  localGen : Nat
  localDatasetInitGen : Nat
  localPartialFillGen : Nat
  localPartialFillGenForCache : Nat
  active : Bool
  activeCache : Option Bytes
  activeDataset : Option Nat
  hashing : Hashing

/-- A hash a worker began. -/
structure HashRecord where
  delivery : Nat
  nonce : BitVec 64
  deriving DecidableEq, Repr

/-- The engine. `log` holds the hashes begun since the last start. -/
structure State (T : Nat) where
  memory : Memory
  fill : PartialDataset.State T
  control : Control
  setJob : SetJob
  workers : Fin T → Worker
  log : List HashRecord

def Worker.fresh (cfg : Config T) (threadId : Nat) : Worker where
  pc := if cfg.partialDataset.isSome then .startWait else .loop
  localGen := 0
  localDatasetInitGen := 0
  localPartialFillGen := 0
  localPartialFillGenForCache := 0
  active := false
  activeCache := none
  activeDataset := none
  hashing := .fresh threadId

/-! ## Pieces of the steps -/

def State.setWorker (s : State T) (i : Fin T) (w : Worker) : State T :=
  { s with workers := Function.update s.workers i w }

/-- A step of the partial dataset. -/
def State.fillStep (cfg : Config T) (s : State T) (e : PartialDataset.Event T) :
    Option (State T) :=
  (PartialDataset.step cfg.allocation s.fill e).map fun fill => { s with fill := fill }

/-- The condition `wait_for_fill` waits for. -/
def fillReady (m : PartialDataset.Memory) : Bool :=
  m.fillComplete || m.stop m.stopToken || m.shutdownRequested

/-- `wait_for_fill` can join the fill threads: they have all returned, and
`start_fill` is not spawning. -/
def fillJoinable (s : PartialDataset.State T) : Prop :=
  (∀ i < s.fillThreads, (s.workers i).pc = .returned) ∧
    match s.rotation with
    | .spawn _ => False
    | _ => True

instance (s : PartialDataset.State T) : Decidable (fillJoinable s) := by
  unfold fillJoinable
  cases s.rotation <;> infer_instance

/-- The items of the range that do not hold the cache's items yet are being
written; writing an item over itself changes no byte. -/
def tearRange (items : Nat → Option Bytes) (cache : Option Bytes) (start count : Nat) :
    Nat → Option Bytes :=
  fun i => if start ≤ i ∧ i < start + count ∧ items i ≠ cache then none else items i

def writeRange (items : Nat → Option Bytes) (cache : Option Bytes) (start count : Nat) :
    Nat → Option Bytes :=
  fun i => if start ≤ i ∧ i < start + count then cache else items i

/-- The number of items a worker initialises. -/
def rangeCount (T i itemsPerThread : Nat) : Nat :=
  if i + 1 = T then PartialDataset.randomxDatasetItemCount - i * itemsPerThread
  else itemsPerThread

/-- Worker `i` begins the hash of `current_nonce`. -/
def State.beginHash (s : State T) (i : Fin T) (w : Worker) : State T :=
  { s.setWorker i { w with pc := .hashing } with
    log := ⟨w.hashing.delivery, BitVec.ofNat 64 w.hashing.currentNonce⟩ :: s.log }

/-! ## The worker -/

/-- The section of `worker_loop` under `job_mutex_`. -/
def takeJob (cfg : Config T) (s : State T) (i : Fin T) (currentGen : Nat) : Worker :=
  let w := s.workers i
  let m := s.memory
  if m.hasJob then
    { w with
      pc := .takeNonce
      localGen := currentGen
      hashing := w.hashing.refresh i m.currentJob m.deliveries
      activeCache := m.sharedCache
      activeDataset := m.sharedDataset
      active := true
      localPartialFillGenForCache :=
        if cfg.partialDataset.isSome then s.fill.memory.generation
        else w.localPartialFillGenForCache }
  else { w with pc := .loop, localGen := currentGen, active := false }

/-- One step of `worker_loop`; `none` while the worker is blocked. -/
def workerLoop (cfg : Config T) (s : State T) (i : Fin T) : Option (State T) :=
  let w := s.workers i
  let m := s.memory
  let goto (pc : Pc) : State T := s.setWorker i { w with pc := pc }
  match w.pc with
  | .exited => none
  | .startWait => if fillReady s.fill.memory then some (goto .startJoin) else none
  | .startJoin => if fillJoinable s.fill then some (goto .loop) else none
  | .loop => some (goto (if m.running then .fillGeneration else .exited))
  | .fillGeneration =>
    let currentFillGen := s.fill.memory.generation
    if cfg.partialDataset.isSome ∧ currentFillGen ≠ w.localPartialFillGen then
      some (s.setWorker i { w with pc := .fillWait, localPartialFillGen := currentFillGen })
    else some (goto .datasetGeneration)
  | .fillWait => if fillReady s.fill.memory then some (goto .fillJoin) else none
  | .fillJoin => if fillJoinable s.fill then some (goto .datasetGeneration) else none
  | .datasetGeneration =>
    let current := m.datasetInitGeneration
    if current ≠ w.localDatasetInitGen then
      some (s.setWorker i { w with pc := .takeRange, localDatasetInitGen := current })
    else some (goto .jobGeneration)
  | .takeRange =>
    match m.pendingDataset with
    | none => none
    | some dataset =>
      some (goto (.initRange dataset m.pendingCache (i * m.pendingItemsPerThread)
        (rangeCount T i m.pendingItemsPerThread)))
  | .initRange dataset cache start count =>
    some { goto (.writeRange dataset cache start count) with
      memory := { m with
        datasets := Function.update m.datasets dataset
          (tearRange (m.datasets dataset) cache start count) } }
  | .writeRange dataset cache start count =>
    some { goto .finishRange with
      memory := { m with
        datasets := Function.update m.datasets dataset
          (writeRange (m.datasets dataset) cache start count) } }
  | .finishRange =>
    some { goto .loop with
      memory := { m with datasetInitRemaining := m.datasetInitRemaining - 1 } }
  | .jobGeneration =>
    if m.jobGeneration ≠ w.localGen then some (goto (.refresh m.jobGeneration))
    else some (goto (if w.active then .takeNonce else .loop))
  | .refresh currentGen =>
    if s.setJob = .idle then some (s.setWorker i (takeJob cfg s i currentGen)) else none
  | .takeNonce =>
    let taken := w.hashing.take T
    if taken.2 then
      some (s.setWorker i { w with
        pc := if cfg.partialDataset.isSome then .lockShared else .startHash
        hashing := taken.1 })
    else some (s.setWorker i { w with pc := .loop, active := false, hashing := taken.1 })
  | .lockShared => (goto .recheck).fillStep cfg (.lockShared i)
  | .recheck =>
    let next :=
      if s.fill.memory.generation = w.localPartialFillGenForCache then Pc.startHash
      else .unlockShared
    (goto next).fillStep cfg (.readGeneration i)
  | .unlockShared => (goto .loop).fillStep cfg (.unlockShared i)
  | .startHash => some (s.beginHash i w)
  | .hashing =>
    let finished := w.hashing.finish T
    let s' := s.setWorker i { w with pc := .loop, active := finished.2, hashing := finished.1 }
    if cfg.partialDataset.isSome then s'.fillStep cfg (.unlockShared i) else some s'

/-! ## `set_job`, `start` and `stop` -/

/-- The next statement of `set_job`; `none` while it waits. -/
def setJobStep (cfg : Config T) (s : State T) : Option (State T) :=
  let m := s.memory
  match s.setJob with
  | .idle => none
  | .compareKey job =>
    if m.currentSeedKey ≠ job.seedKey ∨ m.sharedCache = none then
      some { s with setJob := .initCache job }
    else some { s with setJob := .setJob job }
  | .initCache job =>
    some { s with
      memory := { m with sharedCache := some job.seedKey }
      setJob := if cfg.partialDataset.isSome then .startFill job else .allocateDataset job }
  | .startFill job =>
    { s with setJob := .filling job }.fillStep cfg (.startFill ⟨true, cfg.coreOrder, []⟩)
  | .filling job =>
    if s.fill.rotation = .idle then some { s with setJob := .allocateDataset job }
    else s.fillStep cfg .rotation
  | .allocateDataset job =>
    if cfg.mode = .fast then
      some { s with
        memory := { m with
          allocatedDatasets := m.allocatedDatasets + 1
          datasets := Function.update m.datasets m.allocatedDatasets fun _ => none }
        setJob := .checkRunning job m.allocatedDatasets }
    else some { s with setJob := .setSeedKey job }
  | .checkRunning job dataset =>
    some { s with
      setJob := if m.running ∧ 0 < m.numWorkers then .setPending job dataset
        else .tempInit job dataset }
  | .setPending job dataset =>
    some { s with
      memory := { m with
        pendingDataset := some dataset
        pendingCache := m.sharedCache
        pendingItemsPerThread := PartialDataset.randomxDatasetItemCount / m.numWorkers
        datasetInitRemaining := BitVec.ofNat 32 m.numWorkers }
      setJob := .bumpInit job dataset }
  | .bumpInit job dataset =>
    some { s with
      memory := { m with datasetInitGeneration := m.datasetInitGeneration + 1 }
      setJob := .waitInit job dataset }
  | .waitInit job dataset =>
    if m.datasetInitRemaining = 0 ∨ m.running = false then
      some { s with setJob := .publishDataset job dataset }
    else none
  | .tempInit job dataset =>
    -- temporary threads write the whole dataset and are joined
    some { s with
      memory := { m with
        datasets := Function.update m.datasets dataset
          (writeRange (m.datasets dataset) m.sharedCache 0
            PartialDataset.randomxDatasetItemCount) }
      setJob := .publishDataset job dataset }
  | .publishDataset job dataset =>
    some { s with
      memory := { m with sharedDataset := some dataset }
      setJob := .setSeedKey job }
  | .setSeedKey job =>
    some { s with
      memory := { m with currentSeedKey := job.seedKey }
      setJob := .setJob job }
  | .setJob job =>
    some { s with
      memory := { m with currentJob := job, deliveries := m.deliveries + 1 }
      setJob := .bumpJob }
  | .bumpJob =>
    some { s with
      memory := { m with jobGeneration := m.jobGeneration + 1 }
      setJob := .setHasJob }
  | .setHasJob =>
    some { s with memory := { m with hasJob := true }, setJob := .idle }

/-- The next statement of `start` or `stop`; `none` while `stop` joins. -/
def controlStep (cfg : Config T) (s : State T) : Option (State T) :=
  let m := s.memory
  match s.control with
  | .idle => none
  | .setRunning =>
    some { s with memory := { m with running := true }, control := .setNumWorkers, log := [] }
  | .setNumWorkers =>
    some { s with memory := { m with numWorkers := T }, control := .spawn 0 }
  | .spawn k =>
    if h : k < T then
      some { s.setWorker ⟨k, h⟩ (.fresh cfg k) with control := .spawn (k + 1) }
    else some { s with control := .idle }
  | .clearRunning =>
    some { s with
      memory := { m with running := false }
      control := if cfg.partialDataset.isSome then .cancel else .join }
  | .cancel => { s with control := .loadToken }.fillStep cfg .cancel
  | .loadToken => some { s with control := .storeToken s.fill.memory.stopToken }
  | .storeToken token => { s with control := .join }.fillStep cfg (.cancelToken token)
  | .join =>
    if ∀ i, (s.workers i).pc = .exited then some { s with control := .idle } else none

/-! ## The system -/

/-- What can happen next. `snapshot` is a hash's read of the published bound
of the partial dataset. -/
inductive Event (T : Nat)
  | start
  | stop
  | control
  | setJob (job : Job)
  | setJobStep
  | worker (i : Fin T)
  | snapshot (i : Fin T)
  | fillWorker (i : Nat) (weakFails : Bool)
  | fillThrows (i : Nat)
  deriving DecidableEq

def step (cfg : Config T) (s : State T) : Event T → Option (State T)
  | .start =>
    if s.control = .idle then
      some { s with control := if s.memory.running then .idle else .setRunning }
    else none
  | .stop =>
    if s.control = .idle then
      some { s with control := if s.memory.running then .clearRunning else .idle }
    else none
  | .control => controlStep cfg s
  | .setJob job => if s.setJob = .idle then some { s with setJob := .compareKey job } else none
  | .setJobStep => Engine.setJobStep cfg s
  | .worker i => workerLoop cfg s i
  | .snapshot i =>
    if (s.workers i).pc = .hashing then s.fillStep cfg (.readItemCount i) else none
  | .fillWorker i weakFails => s.fillStep cfg (.worker i weakFails)
  | .fillThrows i => s.fillStep cfg (.throws i)

/-- A new engine. -/
def State.initial (cfg : Config T) : State T where
  memory :=
    { running := false
      numWorkers := 0
      hasJob := false
      jobGeneration := 0
      currentJob := {}
      deliveries := 0
      currentSeedKey := []
      sharedCache := none
      sharedDataset := none
      allocatedDatasets := 0
      datasets := fun _ _ => none
      datasetInitGeneration := 0
      datasetInitRemaining := 0
      pendingDataset := none
      pendingCache := none
      pendingItemsPerThread := 0 }
  fill := .initial T cfg.allocation
  control := .idle
  setJob := .idle
  workers := fun i => { Worker.fresh cfg i with pc := .exited }
  log := []

/-- The transition system of an engine. -/
def system (cfg : Config T) : System (State T) (Event T) where
  init s := s = .initial cfg
  step := step cfg

end ArmRx.Mining.Engine
