import ArmRx.Mining.Engine

/-!
# Nonces of a job are hashed once

A worker hashes the nonces `thread_id + k * num_threads` of the job it holds, in
increasing order, and starts over when it takes a job. Two workers never meet,
and one worker repeats itself only if it takes the same delivery of `set_job`
twice.

That can happen: `job_generation_` is loaded in front of `job_mutex_`, so a
delivery in between is copied under the number of the delivery before it, and
the next iteration takes it for a new one.

* `nonces_hashed_once` — no pair of a delivery and a nonce is hashed twice in a
  run whose refreshes all find the generation they loaded.
* `nonce_hashed_twice` — a run in which one of them does not.
-/

namespace ArmRx.Mining.Engine

open ArmRx.Lib ArmRx.Lib.Json ArmRx.Pool

variable {T : Nat}

/-! ## The conditions on a run -/

/-- The generation a worker loaded in front of `job_mutex_`. -/
def Pc.loadedGen : Pc → Option Nat
  | .refresh g => some g
  | _ => none

/-- A worker that gets `job_mutex_` for a refresh finds `job_generation_` as it
loaded it. -/
def CurrentRefresh (s : State T) : Event T → Prop
  | .worker i => ∀ g ∈ (s.workers i).pc.loadedGen, s.setJob = .idle → s.memory.jobGeneration = g
  | _ => True

/-- Every hashed nonce fits the nonce field of its job. -/
def NoncesFit (s : State T) : Event T → Prop
  | .worker i => (s.workers i).pc = .startHash →
    (s.workers i).hashing.currentNonce <
      2 ^ (8 * min (s.workers i).hashing.localJob.nonceSize 8)
  | _ => True

/-! ## The invariant -/

/-- The hashes of worker `i` so far are those of earlier deliveries, or of this
delivery and below `bound`. -/
def Below (T : Nat) (log : List HashRecord) (i delivery bound : Nat) : Prop :=
  ∀ r ∈ log, r.nonce.toNat ≡ i [MOD T] →
    r.delivery ≤ delivery ∧ (r.delivery = delivery → r.nonce.toNat < bound)

theorem Below.mono {log : List HashRecord} {i delivery bound bound' : Nat}
    (h : Below T log i delivery bound) (hLe : bound ≤ bound') : Below T log i delivery bound' :=
  fun r hr hMod => ⟨(h r hr hMod).1, fun hEq => ((h r hr hMod).2 hEq).trans_le hLe⟩

/-- Every earlier hash is below a later delivery. -/
theorem Below.later {log : List HashRecord} {i delivery bound delivery' : Nat}
    (h : Below T log i delivery bound) (hLt : delivery < delivery') (bound' : Nat) :
    Below T log i delivery' bound' := by
  intro r hr hMod
  have := (h r hr hMod).1
  exact ⟨by omega, fun hEq => by omega⟩

/-- What the counters of worker `i` satisfy at each point of its iteration. -/
def NoncesAt (T : Nat) (log : List HashRecord) (i : Nat) (h : Hashing) : Pc → Prop
  | .lockShared | .recheck | .unlockShared | .startHash =>
    h.Ready i T ∧ Below T log i h.delivery h.currentNonce
  | .hashing => h.Ready i T ∧ Below T log i h.delivery (h.currentNonce + 1)
  | _ => h.Between i T ∧ Below T log i h.delivery h.pending

/-- What holds of worker `i` while the engine's generation is `jobGen`. -/
structure WorkerNonces (T jobGen : Nat) (log : List HashRecord) (i : Nat) (w : Worker) : Prop where
  localGen_le : w.localGen ≤ jobGen
  delivery_le : w.hashing.delivery ≤ w.localGen
  refresh : ∀ g, w.pc = .refresh g → g ≠ w.localGen
  nonces : NoncesAt T log i w.hashing w.pc

/-- The deliveries are the generations, but for the moment between the two
statements that count them. -/
def DeliveriesOk (m : Memory) : SetJob → Prop
  | .bumpJob => m.deliveries = m.jobGeneration + 1
  | _ => m.deliveries = m.jobGeneration

/-- The worker threads that do not exist at each point of `start`. -/
def ControlOk (s : State T) : Prop :=
  match s.control with
  | .idle => s.memory.running = false → ∀ i, (s.workers i).pc = .exited
  | .setRunning => ∀ i, (s.workers i).pc = .exited
  | .setNumWorkers =>
    s.memory.running = true ∧ s.log = [] ∧ ∀ i, (s.workers i).pc = .exited
  | .spawn k => s.memory.running = true ∧ ∀ i : Fin T, k ≤ i →
    (s.workers i).pc = .exited ∧ ∀ r ∈ s.log, ¬ r.nonce.toNat ≡ i [MOD T]
  | _ => True

/-- The invariant of the runs. -/
structure NonceInv (s : State T) : Prop where
  workers : ∀ i : Fin T, WorkerNonces T s.memory.jobGeneration s.log i (s.workers i)
  deliveries : DeliveriesOk s.memory s.setJob
  control : ControlOk s
  nodup : s.log.Nodup

theorem below_nil (i delivery bound : Nat) : Below T [] i delivery bound :=
  fun _ hr => absurd hr (List.not_mem_nil)

/-- The counters of a new thread. -/
theorem between_fresh (i : Nat) : (Hashing.fresh i).Between i T where
  localNonce := Nat.ModEq.refl _
  currentNonce := fun h => by simp [Hashing.fresh] at h

theorem nonceInv_initial (cfg : Config T) : NonceInv (State.initial cfg) where
  workers := fun i =>
    { localGen_le := Nat.le_refl _
      delivery_le := Nat.le_refl _
      refresh := fun g hg => by simp [State.initial] at hg
      nonces := ⟨between_fresh i, below_nil _ _ _⟩ }
  deliveries := rfl
  control := fun _ _ => rfl
  nodup := List.nodup_nil

theorem WorkerNonces.mono {jobGen jobGen' : Nat} {log : List HashRecord} {i : Nat} {w : Worker}
    (h : WorkerNonces T jobGen log i w) (hLe : jobGen ≤ jobGen') :
    WorkerNonces T jobGen' log i w :=
  { h with localGen_le := h.localGen_le.trans hLe }

/-- The points that are neither in front of a hash nor inside one. -/
def Pc.between : Pc → Bool
  | .lockShared | .recheck | .unlockShared | .startHash | .hashing => false
  | _ => true

theorem noncesAt_between {log : List HashRecord} {i : Nat} {h : Hashing} {pc : Pc}
    (hpc : pc.between = true) :
    NoncesAt T log i h pc ↔ h.Between i T ∧ Below T log i h.delivery h.pending := by
  cases pc <;> first | rfl | simp [Pc.between] at hpc

/-! ## Steps that move one worker -/

/-- The parts of the state the invariant looks at, apart from the workers. -/
structure SameFrame (s t : State T) : Prop where
  log : t.log = s.log
  control : t.control = s.control
  setJob : t.setJob = s.setJob
  running : t.memory.running = s.memory.running
  jobGeneration : t.memory.jobGeneration = s.memory.jobGeneration
  deliveries : t.memory.deliveries = s.memory.deliveries

section Workers

variable {s t : State T} {i : Fin T} {w : Worker}

/-- No thread that does not exist moves. -/
theorem ControlOk.setWorker (h : ControlOk s) (hFrame : SameFrame s t)
    (hWorkers : t.workers = Function.update s.workers i w) (hActive : (s.workers i).pc ≠ .exited) :
    ControlOk t := by
  have hOther : ∀ j, (s.workers j).pc = .exited → (t.workers j).pc = .exited := by
    intro j hj
    rw [hWorkers, Function.update_of_ne]
    · exact hj
    · rintro rfl
      exact hActive hj
  unfold ControlOk at *
  rw [hFrame.control]
  cases hControl : s.control <;> simp only [hControl] at h ⊢
  case idle =>
    intro hStopped j
    exact hOther j (h (hFrame.running ▸ hStopped) j)
  case setRunning => exact fun j => hOther j (h j)
  case setNumWorkers =>
    exact ⟨hFrame.running.trans h.1, hFrame.log.trans h.2.1, fun j => hOther j (h.2.2 j)⟩
  case spawn k =>
    refine ⟨hFrame.running.trans h.1, fun j hj => ?_⟩
    rw [hFrame.log]
    exact ⟨hOther j (h.2 j hj).1, (h.2 j hj).2⟩

/-- **A worker's step** that begins no hash. -/
theorem NonceInv.setWorker (h : NonceInv s) (hFrame : SameFrame s t)
    (hWorkers : t.workers = Function.update s.workers i w) (hActive : (s.workers i).pc ≠ .exited)
    (hw : WorkerNonces T s.memory.jobGeneration s.log i w) : NonceInv t where
  workers := by
    rw [hWorkers, hFrame.jobGeneration, hFrame.log]
    exact forall_update h.workers hw (fun _ _ hj => hj)
  deliveries := by
    have hDeliveries := h.deliveries
    rw [hFrame.setJob]
    cases hSet : s.setJob <;>
      simpa [DeliveriesOk, hSet, hFrame.deliveries, hFrame.jobGeneration] using hDeliveries
  control := h.control.setWorker hFrame hWorkers hActive
  nodup := hFrame.log ▸ h.nodup

/-- A step between two hashes that keeps the job and the counters. -/
theorem WorkerNonces.goto {jobGen : Nat} {log : List HashRecord} {j : Nat}
    (h : WorkerNonces T jobGen log j w) {w' : Worker} (hFrom : w.pc.between = true)
    (hTo : w'.pc.between = true) (hGen : w'.localGen = w.localGen)
    (hHashing : w'.hashing = w.hashing) (hRefresh : ∀ g, w'.pc = .refresh g → g ≠ w.localGen) :
    WorkerNonces T jobGen log j w' where
  localGen_le := hGen ▸ h.localGen_le
  delivery_le := by
    rw [hGen, hHashing]
    exact h.delivery_le
  refresh := fun g hg => hGen ▸ hRefresh g hg
  nonces := by
    rw [hHashing, noncesAt_between hTo]
    exact (noncesAt_between hFrom).mp h.nonces

/-- A step of the partial dataset leaves the rest of the engine. -/
theorem fillStep_eq_some {cfg : Config T} {e : PartialDataset.Event T}
    (h : s.fillStep cfg e = some t) : ∃ fill, t = { s with fill := fill } := by
  obtain ⟨fill, -, rfl⟩ := Option.map_eq_some_iff.mp h
  exact ⟨fill, rfl⟩

/-- A hash of another worker. -/
theorem Below.cons_other {log : List HashRecord} {r : HashRecord} {j delivery bound : Nat}
    (h : Below T log j delivery bound) (hNot : ¬ r.nonce.toNat ≡ j [MOD T]) :
    Below T (r :: log) j delivery bound := by
  intro r' hr' hMod
  rcases List.mem_cons.mp hr' with rfl | hOld
  · exact absurd hMod hNot
  · exact h r' hOld hMod

theorem NoncesAt.cons_other {log : List HashRecord} {r : HashRecord} {j : Nat} {h : Hashing}
    {pc : Pc} (hAt : NoncesAt T log j h pc) (hNot : ¬ r.nonce.toNat ≡ j [MOD T]) :
    NoncesAt T (r :: log) j h pc := by
  cases pc <;> exact ⟨hAt.1, hAt.2.cons_other hNot⟩

/-- **A worker's step that begins a hash.** The new pair is not in the log, and
its nonce belongs to no other worker. -/
theorem NonceInv.beginHash (h : NonceInv s) (hAt : (s.workers i).pc = .startHash)
    (hFits : (s.workers i).hashing.currentNonce <
      2 ^ (8 * min (s.workers i).hashing.localJob.nonceSize 8)) :
    NonceInv (s.beginHash i (s.workers i)) := by
  set hs := (s.workers i).hashing with hHashing
  obtain ⟨hReady, hBelow⟩ : hs.Ready i T ∧ Below T s.log i hs.delivery hs.currentNonce := by
    have hNonces := (h.workers i).nonces
    rw [hAt] at hNonces
    exact hNonces
  have hNonce : (BitVec.ofNat 64 hs.currentNonce).toNat = hs.currentNonce := by
    rw [BitVec.toNat_ofNat]
    refine Nat.mod_eq_of_lt (hFits.trans_le (Nat.pow_le_pow_right (by omega) ?_))
    omega
  -- the residue of a nonce names its worker
  have hOnly : ∀ j : Fin T, (BitVec.ofNat 64 hs.currentNonce).toNat ≡ j [MOD T] → j = i := by
    intro j hj
    rw [hNonce] at hj
    have hSame : (j : Nat) ≡ i [MOD T] := hj.symm.trans hReady.currentNonce
    exact Fin.ext (Nat.ModEq.eq_of_lt_of_lt hSame j.isLt i.isLt)
  have hActive : (s.workers i).pc ≠ .exited := by simp [hAt]
  refine ⟨fun j => ?_, h.deliveries, ?_, ?_⟩
  · by_cases hji : j = i
    · subst hji
      have hNew : (s.beginHash j (s.workers j)).workers j =
          { s.workers j with pc := .hashing } := Function.update_self ..
      rw [hNew]
      refine { h.workers j with refresh := fun g hg => by simp at hg, nonces := ⟨hReady, ?_⟩ }
      intro r hr hMod
      rcases List.mem_cons.mp hr with rfl | hOld
      · exact ⟨Nat.le_refl _, fun _ => hNonce.le.trans_lt (Nat.lt_succ_self _)⟩
      · obtain ⟨hLe, hLt⟩ := hBelow r hOld hMod
        exact ⟨hLe, fun hEq => (hLt hEq).trans (Nat.lt_succ_self _)⟩
    · have hOld : (s.beginHash i (s.workers i)).workers j = s.workers j :=
        Function.update_of_ne hji ..
      rw [hOld]
      exact { h.workers j with
        nonces := (h.workers j).nonces.cons_other fun hMod => hji (hOnly j hMod) }
  · -- what `start` relies on concerns workers that have exited, and `i` has not
    have hControl := h.control
    have hOther : ∀ j, (s.workers j).pc = .exited →
        j ≠ i ∧ ((s.beginHash i (s.workers i)).workers j).pc = .exited := by
      intro j hj
      have hji : j ≠ i := by
        rintro rfl
        exact hActive hj
      refine ⟨hji, ?_⟩
      show (Function.update s.workers i _ j).pc = .exited
      rwa [Function.update_of_ne hji]
    unfold ControlOk at *
    rw [show (s.beginHash i (s.workers i)).control = s.control from rfl]
    cases hAtControl : s.control <;> simp only [hAtControl] at hControl ⊢
    case idle => exact fun hStopped j => (hOther j (hControl hStopped j)).2
    case setRunning => exact fun j => (hOther j (hControl j)).2
    case setNumWorkers => exact absurd (hControl.2.2 i) hActive
    case spawn k =>
      refine ⟨hControl.1, fun j hj => ?_⟩
      obtain ⟨hExited, hLog⟩ := hControl.2 j hj
      obtain ⟨hji, hNow⟩ := hOther j hExited
      refine ⟨hNow, fun r hr => ?_⟩
      rcases List.mem_cons.mp hr with rfl | hOld
      · exact fun hMod => hji (hOnly j hMod)
      · exact hLog r hOld
  · -- logged nonces of the same delivery are smaller
    refine List.nodup_cons.mpr ⟨fun hMem => ?_, h.nodup⟩
    have hLt := (hBelow _ hMem (by rw [hNonce]; exact hReady.currentNonce)).2 rfl
    rw [hNonce] at hLt
    omega

end Workers

/-- **One step of `worker_loop`.** -/
theorem NonceInv.workerLoop {cfg : Config T} {s t : State T} {i : Fin T} (h : NonceInv s)
    (hCurrent : CurrentRefresh s (.worker i)) (hFits : NoncesFit s (.worker i))
    (hStep : workerLoop cfg s i = some t) : NonceInv t := by
  have hT : 0 < T := i.pos
  have hw := h.workers i
  have hNonces := hw.nonces
  have hActive : (s.workers i).pc ≠ .exited := by
    intro hExited
    simp [Engine.workerLoop, hExited] at hStep
  -- a step that begins no hash, with what it leaves of the worker
  have hMove : ∀ w' : Worker, WorkerNonces T s.memory.jobGeneration s.log i w' →
      ∀ fill memory, memory.running = s.memory.running →
      memory.jobGeneration = s.memory.jobGeneration →
      memory.deliveries = s.memory.deliveries →
      NonceInv { s.setWorker i w' with fill := fill, memory := memory } :=
    fun w' hw' fill memory hRun hGen hDel =>
      h.setWorker ⟨rfl, rfl, rfl, hRun, hGen, hDel⟩ rfl hActive hw'
  have hGoto : ∀ pc : Pc, (s.workers i).pc.between = true → pc.between = true →
      (∀ g, pc ≠ .refresh g) → WorkerNonces T s.memory.jobGeneration s.log i
        { s.workers i with pc := pc } := fun pc hFrom hTo hNot =>
    hw.goto hFrom hTo rfl rfl fun g hg => absurd hg (hNot g)
  unfold Engine.workerLoop at hStep
  dsimp only at hStep
  cases hAt : (s.workers i).pc with
  | exited => exact absurd hAt hActive
  | startWait | startJoin | fillWait | fillJoin =>
    simp only [hAt] at hStep
    split at hStep <;> cases hStep
    exact hMove _ (hGoto _ (by simp [hAt, Pc.between]) rfl (by simp)) _ _ rfl rfl rfl
  | loop =>
    simp only [hAt] at hStep
    cases hStep
    refine hMove _ (hGoto _ (by simp [hAt, Pc.between]) ?_ ?_) _ _ rfl rfl rfl
    · split <;> rfl
    · split <;> simp
  | fillGeneration =>
    simp only [hAt] at hStep
    split at hStep <;> cases hStep
    · refine hMove _ ?_ _ _ rfl rfl rfl
      exact hw.goto (by simp [hAt, Pc.between]) rfl rfl rfl (by simp)
    · exact hMove _ (hGoto _ (by simp [hAt, Pc.between]) rfl (by simp)) _ _ rfl rfl rfl
  | datasetGeneration =>
    simp only [hAt] at hStep
    split at hStep <;> cases hStep
    · refine hMove _ ?_ _ _ rfl rfl rfl
      exact hw.goto (by simp [hAt, Pc.between]) rfl rfl rfl (by simp)
    · exact hMove _ (hGoto _ (by simp [hAt, Pc.between]) rfl (by simp)) _ _ rfl rfl rfl
  | takeRange =>
    simp only [hAt] at hStep
    split at hStep <;> cases hStep
    exact hMove _ (hGoto _ (by simp [hAt, Pc.between]) rfl (by simp)) _ _ rfl rfl rfl
  | initRange | writeRange | finishRange =>
    simp only [hAt] at hStep
    cases hStep
    exact hMove _ (hGoto _ (by simp [hAt, Pc.between]) rfl (by simp)) _ _ rfl rfl rfl
  | jobGeneration =>
    simp only [hAt] at hStep
    split at hStep <;> cases hStep
    · rename_i hNew
      refine hMove _ ?_ _ _ rfl rfl rfl
      exact hw.goto (by simp [hAt, Pc.between]) rfl rfl rfl fun g hg => Pc.refresh.inj hg ▸ hNew
    · refine hMove _ (hGoto _ (by simp [hAt, Pc.between]) ?_ ?_) _ _ rfl rfl rfl
      · split <;> rfl
      · split <;> simp
  | refresh g =>
    simp only [hAt] at hStep
    split at hStep <;> cases hStep
    rename_i hFree
    have hGen : s.memory.jobGeneration = g := hCurrent g (by rw [hAt]; rfl) hFree
    have hNew : (s.workers i).localGen < g :=
      lt_of_le_of_ne (hGen ▸ hw.localGen_le) (hw.refresh g hAt).symm
    have hDeliveries : s.memory.deliveries = g := by
      have := h.deliveries
      rw [hFree] at this
      exact this.trans hGen
    rw [hAt] at hNonces
    refine hMove _ ?_ _ _ rfl rfl rfl
    unfold takeJob
    dsimp only
    split
    · -- the delivery is newer than everything the worker has hashed
      have hLater : (s.workers i).hashing.delivery < s.memory.deliveries :=
        hDeliveries ▸ hw.delivery_le.trans_lt hNew
      exact {
        localGen_le := hGen.ge
        delivery_le := hDeliveries.le
        refresh := fun g hg => by simp at hg
        nonces := ⟨Hashing.between_refresh _ _ _, hNonces.2.later hLater _⟩ }
    · exact {
        localGen_le := hGen.ge
        delivery_le := hw.delivery_le.trans hNew.le
        refresh := fun g hg => by simp at hg
        nonces := hNonces }
  | takeNonce =>
    simp only [hAt] at hStep
    rw [hAt] at hNonces
    obtain ⟨hDel, hReady, hBetween, hPending⟩ := Hashing.take_spec hT hNonces.1
    split at hStep <;> cases hStep
    · rename_i hFit
      obtain ⟨hReady, hCurrentNonce⟩ := hReady hFit
      have hBelow := hNonces.2
      rw [← hCurrentNonce, ← hDel] at hBelow
      refine hMove _ ?_ _ _ rfl rfl rfl
      refine { hw with delivery_le := hDel ▸ hw.delivery_le, refresh := ?_, nonces := ?_ }
      · dsimp only
        split <;> simp
      · dsimp only
        split <;> exact ⟨hReady, hBelow⟩
    · refine hMove _ ?_ _ _ rfl rfl rfl
      exact { hw with
        delivery_le := hDel ▸ hw.delivery_le
        refresh := fun g hg => by simp at hg
        nonces := ⟨hBetween, hDel ▸ hNonces.2.mono hPending⟩ }
  | lockShared =>
    simp only [hAt] at hStep
    obtain ⟨fill, rfl⟩ := fillStep_eq_some hStep
    rw [hAt] at hNonces
    refine hMove _ ?_ _ _ rfl rfl rfl
    exact { hw with refresh := fun g hg => by simp at hg, nonces := hNonces }
  | recheck =>
    simp only [hAt] at hStep
    obtain ⟨fill, rfl⟩ := fillStep_eq_some hStep
    rw [hAt] at hNonces
    refine hMove _ ?_ _ _ rfl rfl rfl
    refine { hw with refresh := ?_, nonces := ?_ }
    · dsimp only
      split <;> simp
    · dsimp only
      split <;> exact hNonces
  | unlockShared =>
    simp only [hAt] at hStep
    obtain ⟨fill, rfl⟩ := fillStep_eq_some hStep
    rw [hAt] at hNonces
    refine hMove _ ?_ _ _ rfl rfl rfl
    exact { hw with
      refresh := fun g hg => by simp at hg
      nonces := ⟨hNonces.1.between, hNonces.2.mono hNonces.1.le_pending⟩ }
  | startHash =>
    simp only [hAt] at hStep
    cases hStep
    exact h.beginHash hAt (hFits hAt)
  | hashing =>
    simp only [hAt] at hStep
    rw [hAt] at hNonces
    obtain ⟨hDel, hBetween, hNext⟩ := Hashing.finish_spec hT hNonces.1
    have hAfter : WorkerNonces T s.memory.jobGeneration s.log i { s.workers i with
        pc := .loop
        active := ((s.workers i).hashing.finish T).2
        hashing := ((s.workers i).hashing.finish T).1 } :=
      { hw with
        delivery_le := hDel ▸ hw.delivery_le
        refresh := fun g hg => by simp at hg
        nonces := ⟨hBetween, hDel ▸ hNonces.2.mono hNext⟩ }
    split at hStep
    · obtain ⟨fill, rfl⟩ := fillStep_eq_some hStep
      exact hMove _ hAfter _ _ rfl rfl rfl
    · cases hStep
      exact hMove _ hAfter _ _ rfl rfl rfl

/-! ## `set_job`, `start` and `stop` -/

section Others

variable {cfg : Config T} {s t : State T}

/-- A step of a thread other than the workers and `start`. -/
theorem NonceInv.frame (h : NonceInv s) (hWorkers : t.workers = s.workers) (hLog : t.log = s.log)
    (hGen : s.memory.jobGeneration ≤ t.memory.jobGeneration)
    (hDeliveries : DeliveriesOk t.memory t.setJob) (hControl : ControlOk t) : NonceInv t where
  workers := fun i => by
    rw [hWorkers, hLog]
    exact (h.workers i).mono hGen
  deliveries := hDeliveries
  control := hControl
  nodup := hLog ▸ h.nodup

theorem ControlOk.congr (h : ControlOk s) (hControl : t.control = s.control)
    (hWorkers : t.workers = s.workers) (hLog : t.log = s.log)
    (hRunning : t.memory.running = s.memory.running) : ControlOk t := by
  unfold ControlOk at *
  rwa [hControl, hWorkers, hLog, hRunning]

/-- **One step of `set_job`.** -/
theorem NonceInv.setJobStep (h : NonceInv s) (hStep : setJobStep cfg s = some t) :
    NonceInv t := by
  have hDeliveries := h.deliveries
  -- every statement but two leaves the generation and the delivery alone
  have hKeep : ∀ t : State T, t.workers = s.workers → t.log = s.log → t.control = s.control →
      t.memory.running = s.memory.running → t.memory.jobGeneration = s.memory.jobGeneration →
      DeliveriesOk t.memory t.setJob → NonceInv t :=
    fun t hWorkers hLog hControl hRunning hGen hDel =>
      h.frame hWorkers hLog hGen.ge hDel (h.control.congr hControl hWorkers hLog hRunning)
  unfold Engine.setJobStep at hStep
  dsimp only at hStep
  cases hAt : s.setJob with
  | idle => simp [hAt] at hStep
  | compareKey job =>
    simp only [hAt] at hStep
    rw [hAt] at hDeliveries
    split at hStep <;> cases hStep <;> exact hKeep _ rfl rfl rfl rfl rfl hDeliveries
  | initCache job =>
    simp only [hAt] at hStep
    rw [hAt] at hDeliveries
    cases hStep
    refine hKeep _ rfl rfl rfl rfl rfl ?_
    dsimp only
    split <;> exact hDeliveries
  | startFill job =>
    simp only [hAt] at hStep
    rw [hAt] at hDeliveries
    obtain ⟨fill, rfl⟩ := fillStep_eq_some hStep
    exact hKeep _ rfl rfl rfl rfl rfl hDeliveries
  | filling job =>
    simp only [hAt] at hStep
    rw [hAt] at hDeliveries
    split at hStep
    · cases hStep
      exact hKeep _ rfl rfl rfl rfl rfl hDeliveries
    · obtain ⟨fill, rfl⟩ := fillStep_eq_some hStep
      exact hKeep _ rfl rfl rfl rfl rfl (by rw [hAt]; exact hDeliveries)
  | allocateDataset job =>
    simp only [hAt] at hStep
    rw [hAt] at hDeliveries
    split at hStep <;> cases hStep <;> exact hKeep _ rfl rfl rfl rfl rfl hDeliveries
  | checkRunning job dataset =>
    simp only [hAt] at hStep
    rw [hAt] at hDeliveries
    cases hStep
    refine hKeep _ rfl rfl rfl rfl rfl ?_
    dsimp only
    split <;> exact hDeliveries
  | waitInit job dataset =>
    simp only [hAt] at hStep
    rw [hAt] at hDeliveries
    split at hStep <;> cases hStep
    exact hKeep _ rfl rfl rfl rfl rfl hDeliveries
  | setPending | bumpInit | tempInit | publishDataset | setSeedKey =>
    simp only [hAt] at hStep
    rw [hAt] at hDeliveries
    cases hStep
    exact hKeep _ rfl rfl rfl rfl rfl hDeliveries
  | setJob job =>
    simp only [hAt] at hStep
    rw [hAt] at hDeliveries
    cases hStep
    exact hKeep _ rfl rfl rfl rfl rfl (congrArg (· + 1) hDeliveries)
  | bumpJob =>
    simp only [hAt] at hStep
    rw [hAt] at hDeliveries
    cases hStep
    exact h.frame rfl rfl (Nat.le_succ _) hDeliveries (h.control.congr rfl rfl rfl rfl)
  | setHasJob =>
    simp only [hAt] at hStep
    rw [hAt] at hDeliveries
    cases hStep
    exact hKeep _ rfl rfl rfl rfl rfl hDeliveries

/-- A start forgets the hashes of the last session. -/
theorem WorkerNonces.clear {jobGen : Nat} {log : List HashRecord} {i : Nat} {w : Worker}
    (h : WorkerNonces T jobGen log i w) : WorkerNonces T jobGen [] i w := by
  refine { h with nonces := ?_ }
  have hNonces := h.nonces
  cases hAt : w.pc <;> rw [hAt] at hNonces <;> exact ⟨hNonces.1, below_nil _ _ _⟩

/-- **One step of `start` or `stop`.** -/
theorem NonceInv.controlStep (h : NonceInv s) (hStep : controlStep cfg s = some t) :
    NonceInv t := by
  have hControl := h.control
  unfold Engine.controlStep at hStep
  unfold ControlOk at hControl
  dsimp only at hStep
  cases hAt : s.control with
  | idle => simp [hAt] at hStep
  | setRunning =>
    simp only [hAt] at hStep hControl
    -- a new start has a log of its own
    cases hStep
    exact ⟨fun i => (h.workers i).clear, h.deliveries, ⟨rfl, rfl, hControl⟩, List.nodup_nil⟩
  | setNumWorkers =>
    simp only [hAt] at hStep hControl
    obtain ⟨hRunning, hLog, hExited⟩ := hControl
    cases hStep
    refine h.frame rfl rfl (Nat.le_refl _) h.deliveries ⟨hRunning, fun i _ => ⟨hExited i, ?_⟩⟩
    intro r hr
    rw [show s.log = [] from hLog] at hr
    simp at hr
  | spawn k =>
    simp only [hAt] at hStep hControl
    obtain ⟨hRunning, hLater⟩ := hControl
    split at hStep
    · rename_i hk
      cases hStep
      -- no nonce of worker `k` has been hashed since the start
      obtain ⟨-, hNone⟩ := hLater ⟨k, hk⟩ (Nat.le_refl k)
      have hFresh : WorkerNonces T s.memory.jobGeneration s.log k (.fresh cfg k) :=
        { localGen_le := Nat.zero_le _
          delivery_le := Nat.le_refl _
          refresh := fun g hg => by
            simp only [Worker.fresh] at hg
            split at hg <;> simp at hg
          nonces := by
            have hBelow : Below T s.log k 0 k := fun r hr hMod => absurd hMod (hNone r hr)
            simp only [Worker.fresh]
            split <;> exact ⟨between_fresh k, hBelow⟩ }
      refine ⟨fun j => ?_, h.deliveries, ⟨hRunning, fun j hj => ?_⟩, h.nodup⟩
      · by_cases hjk : j = ⟨k, hk⟩
        · subst hjk
          rw [show ((s.setWorker ⟨k, hk⟩ (.fresh cfg k)).workers ⟨k, hk⟩) = .fresh cfg k from
            Function.update_self ..]
          exact hFresh
        · rw [show ((s.setWorker ⟨k, hk⟩ (.fresh cfg k)).workers j) = s.workers j from
            Function.update_of_ne hjk ..]
          exact h.workers j
      · have hjk : j ≠ ⟨k, hk⟩ := by
          rintro rfl
          exact absurd hj (by simp)
        rw [show ((s.setWorker ⟨k, hk⟩ (.fresh cfg k)).workers j) = s.workers j from
          Function.update_of_ne hjk ..]
        exact hLater j (by omega)
    · cases hStep
      refine h.frame rfl rfl (Nat.le_refl _) h.deliveries fun hStopped => ?_
      simp [hRunning] at hStopped
  | clearRunning =>
    simp only [hAt] at hStep
    cases hStep
    refine h.frame rfl rfl (Nat.le_refl _) h.deliveries ?_
    unfold ControlOk
    cases hPartial : cfg.partialDataset.isSome <;> simp
  | cancel | storeToken =>
    simp only [hAt] at hStep
    obtain ⟨fill, rfl⟩ := fillStep_eq_some hStep
    exact h.frame rfl rfl (Nat.le_refl _) h.deliveries trivial
  | loadToken =>
    simp only [hAt] at hStep
    cases hStep
    exact h.frame rfl rfl (Nat.le_refl _) h.deliveries trivial
  | join =>
    simp only [hAt] at hStep
    split at hStep <;> cases hStep
    rename_i hAll
    exact h.frame rfl rfl (Nat.le_refl _) h.deliveries fun _ => hAll

/-- **One step.** -/
theorem nonceInv_step (s : State T) (e : Event T) (t : State T) (h : NonceInv s)
    (hOk : NoncesFit s e ∧ CurrentRefresh s e) (hStep : step cfg s e = some t) : NonceInv t := by
  have hControl := h.control
  cases e with
  | start =>
    simp only [step] at hStep
    split at hStep <;> cases hStep
    rename_i hIdle
    unfold ControlOk at hControl
    simp only [hIdle] at hControl
    refine h.frame rfl rfl (Nat.le_refl _) h.deliveries ?_
    unfold ControlOk
    cases hRunning : s.memory.running <;> simp [hRunning] at hControl ⊢
    exact hControl
  | stop =>
    simp only [step] at hStep
    split at hStep <;> cases hStep
    rename_i hIdle
    unfold ControlOk at hControl
    simp only [hIdle] at hControl
    refine h.frame rfl rfl (Nat.le_refl _) h.deliveries ?_
    unfold ControlOk
    cases hRunning : s.memory.running <;> simp [hRunning] at hControl ⊢
    exact hControl
  | control => exact h.controlStep hStep
  | setJob job =>
    simp only [step] at hStep
    split at hStep <;> cases hStep
    rename_i hIdle
    have hDeliveries := h.deliveries
    rw [hIdle] at hDeliveries
    exact h.frame rfl rfl (Nat.le_refl _) hDeliveries (hControl.congr rfl rfl rfl rfl)
  | setJobStep => exact h.setJobStep hStep
  | worker i => exact h.workerLoop hOk.2 hOk.1 hStep
  | snapshot i =>
    simp only [step] at hStep
    split at hStep
    · obtain ⟨fill, rfl⟩ := fillStep_eq_some hStep
      exact h.frame rfl rfl (Nat.le_refl _) h.deliveries (hControl.congr rfl rfl rfl rfl)
    · cases hStep
  | fillWorker | fillThrows =>
    obtain ⟨fill, rfl⟩ := fillStep_eq_some hStep
    exact h.frame rfl rfl (Nat.le_refl _) h.deliveries (hControl.congr rfl rfl rfl rfl)

end Others

/-! ## Every run -/

/-- **Nonce uniqueness.** For any number of workers, in every run whose hashed
nonces fit their jobs' fields and whose refreshes all find the generation
they loaded, no pair of a delivery and a nonce is hashed twice between a start
and the following stop. -/
theorem nonces_hashed_once (cfg : Config T) (s : State T)
    (hReach : (system cfg).Reachable (fun s e => NoncesFit s e ∧ CurrentRefresh s e) s) :
    s.log.Nodup :=
  (hReach.induct (fun _ hInit => hInit ▸ nonceInv_initial cfg)
    (fun s e t hs hOk hStep => nonceInv_step s e t hs hOk hStep)).nodup

instance (s : State T) : (e : Event T) → Decidable (NoncesFit s e)
  | .worker _ => inferInstanceAs (Decidable (_ → _))
  | .start | .stop | .control | .setJob _ | .setJobStep | .snapshot _ | .fillWorker _ _
  | .fillThrows _ => .isTrue trivial

instance (s : State T) : (e : Event T) → Decidable (CurrentRefresh s e)
  | .worker i => inferInstanceAs (Decidable (∀ g ∈ (s.workers i).pc.loadedGen, _))
  | .start | .stop | .control | .setJob _ | .setJobStep | .snapshot _ | .fillWorker _ _
  | .fillThrows _ => .isTrue trivial

/-- One light-mode worker, no partial dataset. -/
def lightEngine : Config 1 := ⟨.light, none, [0], by simp⟩

/-- A job with a four-byte template that is all nonce. -/
def smallJob : Job := { blockTemplate := [0, 0, 0, 0] }

/-- The engine is started and given a job; the worker loads its generation. -/
def upToRefresh : List (Event 1) :=
  [Event.start] ++ List.replicate 4 Event.control ++ [Event.setJob smallJob] ++
    List.replicate 7 Event.setJobStep ++ List.replicate 4 (Event.worker 0)

/-- A run without a delivery in between: three hashes of the first job. -/
theorem nonces_hashed_once_light :
    ∃ s, (system lightEngine).runWhile (fun s e => NoncesFit s e ∧ CurrentRefresh s e)
        (.initial lightEngine) (upToRefresh ++ List.replicate 18 (.worker 0)) = some s ∧
      s.log = [⟨1, 2⟩, ⟨1, 1⟩, ⟨1, 0⟩] ∧ s.log.Nodup := by
  obtain ⟨s, hRun⟩ : ∃ s, (system lightEngine).runWhile
      (fun s e => NoncesFit s e ∧ CurrentRefresh s e) (.initial lightEngine)
      (upToRefresh ++ List.replicate 18 (.worker 0)) = some s := ⟨_, rfl⟩
  refine ⟨s, hRun, by cases hRun; rfl, ?_⟩
  exact nonces_hashed_once lightEngine s (System.reachable_of_runWhile _ (.start rfl) hRun)

/-- **A nonce hashed twice.** The second `set_job` delivers between the load of
`job_generation_` and the lock: the worker takes the second job as generation
1, hashes its nonce 0, takes it again as generation 2 and hashes nonce 0 once
more. -/
theorem nonce_hashed_twice :
    ∃ s, (system lightEngine).Reachable NoncesFit s ∧ s.log = [⟨2, 0⟩, ⟨2, 0⟩] := by
  obtain ⟨s, hRun⟩ : ∃ s, (system lightEngine).runWhile NoncesFit (.initial lightEngine)
      (upToRefresh ++ [.setJob smallJob] ++ List.replicate 4 .setJobStep ++
        List.replicate 11 (.worker 0)) = some s := ⟨_, rfl⟩
  exact ⟨s, System.reachable_of_runWhile _ (.start rfl) hRun, by cases hRun; rfl⟩

end ArmRx.Mining.Engine
