import ArmRx.Lib.Transition
import ArmRx.Pool.Client

/-!
# Failover between pools

`PoolManager` (`src/pool_manager.cpp`) owns one `StratumClient` at a time.
`tick()` inspects it under `stratum_mutex_` and, two ticks after it found it
disconnected, replaces it. A client whose connection dropped reconnects on a
thread of its own, which `tick()` sees through three atomics only.

The locked section of `tick()` changes the manager's counters, which every
accessor reads under the same mutex; the section's result is therefore one
function of what its loads found (`inspect`), while each load is a step.

* `attempts_eq` — which pool is tried in which tick while every attempt fails.
* `live_session_kept` — no live client is replaced, and the reported pool is
  the client's, in runs in which no client comes back behind the manager's
  decision.
* `live_session_replaced` — a run in which one does.
-/

namespace ArmRx.Pool.Failover

open ArmRx.Lib ArmRx.Lib.Json

/-! ## The manager's counters -/

structure PoolEntry where
  host : Bytes
  port : Nat
  deriving DecidableEq

/-- `pools_`; the constructor rejects an empty list. -/
structure Pools where
  entries : List PoolEntry
  entries_ne : entries ≠ []

def Pools.size (pools : Pools) : Nat := pools.entries.length

theorem Pools.size_pos (pools : Pools) : 0 < pools.size :=
  List.length_pos_of_ne_nil pools.entries_ne

/-- `current_idx_`, `failover_cooldown_` and `sync_retry_count_`. -/
structure Counters where
  currentIdx : Nat := 0
  failoverCooldown : Nat := 0
  syncRetryCount : Nat := 0
  deriving DecidableEq, Repr

/-- The name of an entry, `host:port`. -/
def PoolEntry.name (e : PoolEntry) : Bytes := e.host ++ bytes ":" ++ decimal e.port

/-- `current_pool_name`. -/
def currentPoolName (pools : Pools) (c : Counters) : Bytes :=
  match pools.entries[c.currentIdx]? with
  | none => bytes "(none)"
  | some e => e.name

/-- What the loads of one `tick()` found: the client disconnected while no
cooldown ran, with its retries and whether its reconnect loop is active; or
anything else, with the last look at `connected_`. -/
inductive Observation
  | disconnected (retries : Nat) (loopActive : Bool)
  | other (connected : Bool)
  deriving DecidableEq, Repr

/-- The branches of `tick()` on what it found. -/
def Counters.react (n : Nat) (c : Counters) : Observation → Counters
  | .disconnected retries loopActive =>
    if retries > 0 || loopActive then
      if retries ≥ 5 then
        { c with
          currentIdx := (c.currentIdx + 1) % n, failoverCooldown := 2, syncRetryCount := 0 }
      else { c with syncRetryCount := 0 }
    else if c.syncRetryCount + 1 ≥ 5 then
      { c with currentIdx := (c.currentIdx + 1) % n, failoverCooldown := 2, syncRetryCount := 0 }
    else { c with failoverCooldown := 2, syncRetryCount := c.syncRetryCount + 1 }
  | .other connected => if connected then { c with syncRetryCount := 0 } else c

/-- The locked section of `tick()`: the counters it leaves and
`should_reconnect_now`. -/
def Counters.inspect (n : Nat) (c : Counters) (o : Observation) : Counters × Bool :=
  let c := c.react n o
  if c.failoverCooldown > 0 then
    ({ c with failoverCooldown := c.failoverCooldown - 1 }, c.failoverCooldown - 1 = 0)
  else (c, false)

/-- What a tick finds of a client that never connected: disconnected, no retry
and no reconnect loop. -/
def Counters.observeDead (c : Counters) : Observation :=
  if c.failoverCooldown = 0 then .disconnected 0 false else .other false

/-! ## The schedule while every attempt fails -/

/-- The counters, and the attempts so far with the tick each was made in
(0 is `connect()`), latest first. -/
structure Failing where
  counters : Counters
  attempts : List (Nat × Nat)
  deriving DecidableEq, Repr

/-- `connect()`: the first attempt, on pool 0. -/
def Failing.connect : Failing := ⟨{}, [(0, 0)]⟩

/-- Tick number `k`, when the attempt it may make fails. -/
def Failing.tick (n k : Nat) (s : Failing) : Failing :=
  let (counters, now) := s.counters.inspect n s.counters.observeDead
  ⟨counters, if now then (k, counters.currentIdx) :: s.attempts else s.attempts⟩

/-- The first `k` ticks after `connect()`. -/
def Failing.ticks (n : Nat) : Nat → Failing
  | 0 => .connect
  | k + 1 => (ticks n k).tick n (k + 1)

/-- The counters in front of tick `2 j + 1`. -/
def countersAt (n j : Nat) : Counters := ⟨j / 5 % n, 0, j % 5⟩

/-- The counters between the two ticks of round `j`. -/
def countersBetween (n j : Nat) : Counters := ⟨(j + 1) / 5 % n, 1, (j + 1) % 5⟩

theorem inspect_first (n j : Nat) :
    (countersAt n j).inspect n (countersAt n j).observeDead = (countersBetween n j, false) := by
  simp only [countersAt, Counters.observeDead, if_true, Counters.inspect, Counters.react,
    countersBetween]
  by_cases hLast : j % 5 = 4
  · -- the fifth failure moves on to the next pool
    have hDiv : (j + 1) / 5 = j / 5 + 1 := by omega
    have hMod : (j + 1) % 5 = 0 := by omega
    simp [hLast, hDiv, hMod, Nat.add_mod]
  · have hDiv : (j + 1) / 5 = j / 5 := by omega
    have hMod : (j + 1) % 5 = j % 5 + 1 := by omega
    have hFew : ¬ 4 ≤ j % 5 := by omega
    simp [hDiv, hMod, hFew]

theorem inspect_second (n j : Nat) :
    (countersBetween n j).inspect n (countersBetween n j).observeDead =
      (countersAt n (j + 1), true) := by
  simp [countersBetween, countersAt, Counters.observeDead, Counters.inspect, Counters.react]

/-- The attempts up to tick `2 j`, latest first. -/
def schedule (n j : Nat) : List (Nat × Nat) :=
  ((List.range (j + 1)).map fun i => (2 * i, i / 5 % n)).reverse

theorem schedule_succ (n j : Nat) :
    schedule n (j + 1) = (2 * (j + 1), (j + 1) / 5 % n) :: schedule n j := by
  simp [schedule, List.range_succ]

/-- Two ticks are one round: the first counts the failure, the second tries. -/
theorem ticks_even (n j : Nat) :
    Failing.ticks n (2 * j) = ⟨countersAt n j, schedule n j⟩ ∧
      Failing.ticks n (2 * j + 1) = ⟨countersBetween n j, schedule n j⟩ := by
  induction j with
  | zero =>
    have hStart : Failing.ticks n 0 = ⟨countersAt n 0, schedule n 0⟩ := by
      simp [Failing.ticks, Failing.connect, countersAt, schedule]
    refine ⟨hStart, ?_⟩
    rw [Failing.ticks, hStart, Failing.tick, inspect_first]
    rfl
  | succ j ih =>
    have hEven : Failing.ticks n (2 * (j + 1)) = ⟨countersAt n (j + 1), schedule n (j + 1)⟩ := by
      rw [show 2 * (j + 1) = 2 * j + 1 + 1 from rfl, Failing.ticks, ih.2, Failing.tick,
        inspect_second]
      simp [schedule_succ, countersAt, show 2 * (j + 1) = 2 * j + 1 + 1 from rfl]
    refine ⟨hEven, ?_⟩
    rw [Failing.ticks, hEven, Failing.tick, inspect_first]
    rfl

/-- **Rotation schedule.** For every pool list and every number of ticks after
`connect()`, while every attempt fails, the attempts are pool 0 five times,
pool 1 five times and so on, cyclically: the attempt after the first `i` is on
pool `i / 5 % n` and is made in tick `2 i`. -/
theorem attempts_eq (pools : Pools) (k : Nat) :
    (Failing.ticks pools.size k).attempts.reverse =
      (List.range (k / 2 + 1)).map fun i => (2 * i, i / 5 % pools.size) := by
  obtain ⟨hEven, hOdd⟩ := ticks_even pools.size (k / 2)
  have hAttempts : (Failing.ticks pools.size k).attempts = schedule pools.size (k / 2) := by
    rcases Nat.mod_two_eq_zero_or_one k with h | h
    · rw [show 2 * (k / 2) = k by omega] at hEven
      rw [hEven]
    · rw [show 2 * (k / 2) + 1 = k by omega] at hOdd
      rw [hOdd]
  rw [hAttempts, schedule, List.reverse_reverse]

/-! ## The client as the manager sees it -/

/-- Where the client's reconnect thread stands, if there is one. -/
inductive Loop
  | none
  /-- In the backoff wait. -/
  | waiting
  /-- Inside `connect()`, without a connection. -/
  | attempting
  /-- Inside `connect()`, past `connected_.store(true)`. -/
  | handshaking
  /-- `connect()` has returned. -/
  | reconnected
  | leaving
  deriving DecidableEq, Repr

/-- A `StratumClient`: the pool it was built for, the three atomics `tick()`
loads, its reconnect thread, and whether its reader has stored
`connected_ = false` and not yet decided what to do about it. -/
structure Client where
  pool : PoolEntry
  connected : Bool := false
  reconnectAttempts : Nat := 0
  reconnectLoopActive : Bool := false
  loop : Loop := .none
  noticed : Bool := false
  deriving DecidableEq

/-- What the client's own threads do. -/
inductive ClientEvent
  | drop | readerExit | backoff | opened | refused | rejected | accepted | reset | leave
  deriving DecidableEq

/-- One step of the client's threads. `syncConnect` says that the manager is
inside `connect()` of this client, so that `handshake_in_progress_` is set. -/
def Client.step (syncConnect : Bool) (c : Client) : ClientEvent → Option Client
  | .drop =>
    if c.connected then some { c with connected := false, noticed := true } else none
  | .readerExit =>
    if !c.noticed then none
    else if syncConnect || c.loop = .attempting || c.loop = .handshaking then
      some { c with noticed := false }
    else if c.loop = .none then
      some { c with noticed := false, reconnectLoopActive := true, loop := .waiting }
    else none
  | .backoff =>
    if c.loop = .waiting then
      -- `max_retries_` is 5 for every client of the manager
      some { c with
        reconnectAttempts := c.reconnectAttempts + 1
        loop := if c.reconnectAttempts + 1 > 5 then .leaving else .attempting }
    else none
  | .opened =>
    if c.loop = .attempting then some { c with connected := true, loop := .handshaking } else none
  | .refused => if c.loop = .attempting then some { c with loop := .waiting } else none
  | .rejected =>
    -- a rejected login may be followed by one on the other protocol
    if c.loop = .handshaking then
      some { c with connected := false, noticed := false, loop := .attempting }
    else none
  | .accepted => if c.loop = .handshaking then some { c with loop := .reconnected } else none
  | .reset =>
    if c.loop = .reconnected then some { c with reconnectAttempts := 0, loop := .leaving }
    else none
  | .leave =>
    if c.loop = .leaving then some { c with reconnectLoopActive := false, loop := .none }
    else none

/-- A client is never moved to another pool, and only `opened` connects it. -/
theorem Client.step_spec {b : Bool} {c c' : Client} {e : ClientEvent}
    (h : c.step b e = some c') :
    c'.pool = c.pool ∧ (c'.connected = true → c.connected = true ∨ e = .opened) := by
  cases e <;> simp only [Client.step] at h <;> split at h <;> grind

/-! ## The manager's thread -/

/-- Where the manager's thread stands in `tick()` and `connect_to_current()`.
`found` records whether a load of this tick found the client connected. -/
inductive Pc
  | idle
  | loadConnected
  | loadRetries
  | loadLoopActive
  | loadConnectedAgain (first : Bool)
  | decide (found : Bool) (o : Observation)
  | replace (found : Bool)
  | create (entry : PoolEntry)
  | connecting
  | handshaking
  deriving DecidableEq

def Pc.syncConnect : Pc → Bool
  | .connecting | .handshaking => true
  | _ => false

structure State where
  counters : Counters
  stratum : Option Client
  pc : Pc
  deriving DecidableEq

/-- The next step of `tick()` and of what `connect_to_current()` does without
the network. -/
def State.tick (pools : Pools) (s : State) : Option State :=
  match s.pc, s.stratum with
  | .idle, none => some s
  | .idle, some _ => some { s with pc := .loadConnected }
  | .loadConnected, some c =>
    if !c.connected && s.counters.failoverCooldown = 0 then some { s with pc := .loadRetries }
    else some { s with pc := .loadConnectedAgain c.connected }
  | .loadRetries, some c =>
    -- `retries > 0` short-circuits the load of `reconnect_loop_active_`
    if c.reconnectAttempts > 0 then
      some { s with pc := .decide false (.disconnected c.reconnectAttempts false) }
    else some { s with pc := .loadLoopActive }
  | .loadLoopActive, some c =>
    some { s with pc := .decide false (.disconnected 0 c.reconnectLoopActive) }
  | .loadConnectedAgain first, some c =>
    some { s with pc := .decide (first || c.connected) (.other c.connected) }
  | .decide found o, _ =>
    let (counters, now) := s.counters.inspect pools.size o
    some { s with counters := counters, pc := if now then .replace found else .idle }
  | .replace _, _ =>
    match pools.entries[s.counters.currentIdx]? with
    | none => some { s with pc := .idle }
    | some entry => some { s with stratum := none, pc := .create entry }
  | .create entry, _ => some { s with stratum := some { pool := entry }, pc := .connecting }
  | _, _ => none

/-- An event: a step of the manager's thread, the outcome of its own
`connect()`, a step of the client's threads, or `disconnect()`. -/
inductive Event
  | tick | opened | refused | rejected | accepted
  | client (e : ClientEvent)
  | disconnect
  deriving DecidableEq

def step (pools : Pools) (s : State) : Event → Option State
  | .tick => s.tick pools
  | .opened =>
    if s.pc = .connecting then
      some { s with stratum := s.stratum.map ({ · with connected := true }), pc := .handshaking }
    else none
  | .refused => if s.pc = .connecting then some { s with pc := .idle } else none
  | .rejected =>
    if s.pc = .handshaking then
      some { s with
        stratum := s.stratum.map ({ · with connected := false, noticed := false })
        pc := .connecting }
    else none
  | .accepted => if s.pc = .handshaking then some { s with pc := .idle } else none
  | .client e => s.stratum.bind fun c =>
    (c.step s.pc.syncConnect e).map fun c' => { s with stratum := some c' }
  | .disconnect => if s.pc = .idle then some { s with stratum := none } else none

/-- `connect()` has reset the counters and is about to build the first client. -/
def initial (pools : Pools) : State :=
  ⟨{}, none, .create (pools.entries.head pools.entries_ne)⟩

def system (pools : Pools) : System State Event := ⟨(· = initial pools), step pools⟩

/-! ## Live sessions -/

/-- The tick has found the client disconnected and acts on it. -/
def Pc.deciding : Pc → Bool
  | .loadRetries | .loadLoopActive | .decide _ (.disconnected ..) | .replace _ => true
  | _ => false

/-- The condition on a step: the client's reconnect thread does not connect
while a cooldown runs or a tick acts on having found the client disconnected. -/
def Settled (s : State) (e : Event) : Prop :=
  e = .client .opened → s.counters.failoverCooldown = 0 ∧ s.pc.deciding = false

instance (s : State) (e : Event) : Decidable (Settled s e) :=
  inferInstanceAs (Decidable (_ → _))

/-- A replacement is pending: the counters may be ahead of the client. -/
def State.Stale (s : State) : Prop :=
  s.counters.failoverCooldown ≠ 0 ∨ ∃ found, s.pc = .replace found

/-- What the place in `tick()` says about the loads so far and the counters. -/
def Pc.Looked (pools : Pools) (c : Counters) : Pc → Prop
  | .loadRetries | .loadLoopActive | .connecting | .handshaking => c.failoverCooldown = 0
  | .loadConnectedAgain first => c.failoverCooldown ≠ 0 → first = false
  | .decide found (.other _) => c.failoverCooldown ≠ 0 → found = false
  | .decide found (.disconnected ..) => found = false ∧ c.failoverCooldown = 0
  | .replace found => found = false ∧ c.failoverCooldown = 0
  | .create entry => pools.entries[c.currentIdx]? = some entry ∧ c.failoverCooldown = 0
  | .idle | .loadConnected => True

structure Inv (pools : Pools) (s : State) : Prop where
  inRange : s.counters.currentIdx < pools.size
  looked : s.pc.Looked pools s.counters
  /-- A client that is being given up stays disconnected. -/
  pending : ∀ c, s.stratum = some c → s.Stale ∨ s.pc.deciding = true → c.connected = false
  /-- Otherwise it is a client of the current pool. -/
  current : ∀ c, s.stratum = some c → ¬ s.Stale →
    pools.entries[s.counters.currentIdx]? = some c.pool

theorem inspect_currentIdx_lt {n : Nat} {c : Counters} (o : Observation)
    (hIdx : c.currentIdx < n) : (c.inspect n o).1.currentIdx < n := by
  have hNext : (c.currentIdx + 1) % n < n := Nat.mod_lt _ (by omega)
  have hReact : (c.react n o).currentIdx < n := by
    cases o <;> simp only [Counters.react] <;> grind
  simp only [Counters.inspect]
  split <;> exact hReact

theorem inspect_other (n : Nat) (c : Counters) (b : Bool) :
    (c.inspect n (.other b)).1.currentIdx = c.currentIdx ∧
      (c.inspect n (.other b)).1.failoverCooldown = c.failoverCooldown - 1 ∧
      ((c.inspect n (.other b)).2 = true ↔ c.failoverCooldown = 1) := by
  cases b <;> simp only [Counters.inspect, Counters.react] <;> split <;> grind

/-- A tick that finds the client disconnected never replaces it itself; it
starts a cooldown, or leaves the pool as it is. -/
theorem inspect_disconnected (n : Nat) (c : Counters) (r : Nat) (l : Bool)
    (hCool : c.failoverCooldown = 0) :
    (c.inspect n (.disconnected r l)).2 = false ∧
      ((c.inspect n (.disconnected r l)).1.failoverCooldown ≠ 0 ∨
        (c.inspect n (.disconnected r l)).1.failoverCooldown = 0 ∧
          (c.inspect n (.disconnected r l)).1.currentIdx = c.currentIdx) := by
  simp only [Counters.inspect, Counters.react]
  split <;> split <;> simp [hCool]

theorem inv_initial (pools : Pools) : Inv pools (initial pools) where
  inRange := pools.size_pos
  looked := by
    refine ⟨?_, rfl⟩
    exact (List.head?_eq_getElem?).symm.trans (List.head?_eq_some_head pools.entries_ne)
  pending := by simp [initial]
  current := by simp [initial]

/-- The locked section ends: a cooldown that ran out found the client
disconnected at every load, and the pool moves only under a new cooldown. -/
theorem inv_decide {pools : Pools} {s : State} {found : Bool} {o : Observation}
    (h : Inv pools s) (hPc : s.pc = .decide found o) :
    Inv pools { s with
      counters := (s.counters.inspect pools.size o).1
      pc := if (s.counters.inspect pools.size o).2 then .replace found else .idle } := by
  have hLooked := h.looked
  rw [hPc] at hLooked
  have hRange := inspect_currentIdx_lt o h.inRange
  cases o with
  | disconnected r l =>
    obtain ⟨-, hCool⟩ := hLooked
    obtain ⟨hNow, hNext⟩ := inspect_disconnected pools.size s.counters r l hCool
    have hDown : ∀ c, s.stratum = some c → c.connected = false := fun c hc =>
      h.pending c hc (.inr (by rw [hPc]; rfl))
    have hCurrent : ∀ c, s.stratum = some c →
        pools.entries[s.counters.currentIdx]? = some c.pool := fun c hc =>
      h.current c hc (by simp [State.Stale, hCool, hPc])
    rw [hNow]
    refine ⟨hRange, trivial, fun c hc _ => hDown c hc, fun c hc hStale => ?_⟩
    -- the index moves only together with a new cooldown
    rcases hNext with hCool' | ⟨-, hIdx⟩
    · exact absurd (.inl hCool') hStale
    · exact (congrArg (pools.entries[·]?) hIdx).trans (hCurrent c hc)
  | other b =>
    obtain ⟨hIdx, hCool', hNow⟩ := inspect_other pools.size s.counters b
    by_cases hOne : s.counters.failoverCooldown = 1
    · -- the cooldown runs out in this tick
      rw [if_pos (hNow.mpr hOne)]
      have hFound : found = false := hLooked (by omega)
      refine ⟨hRange, ⟨hFound, by rw [hCool', hOne]⟩, fun c hc _ => ?_, fun c hc hStale => ?_⟩
      · exact h.pending c hc (.inl (.inl (by omega)))
      · exact absurd (.inr ⟨found, rfl⟩) hStale
    · rw [if_neg (by simpa [hNow] using hOne)]
      refine ⟨hRange, trivial, fun c hc hPending => ?_, fun c hc hStale => ?_⟩
      · rcases hPending with (hCool | ⟨_, hPc'⟩) | hDeciding
        · refine h.pending c hc (.inl (.inl ?_))
          rw [hCool'] at hCool
          omega
        · cases hPc'
        · cases hDeciding
      · have hZero : s.counters.failoverCooldown = 0 := by
          by_contra hCool
          refine hStale (.inl ?_)
          rw [hCool']
          omega
        refine (congrArg (pools.entries[·]?) hIdx).trans (h.current c hc ?_)
        simp [State.Stale, hZero, hPc]

/-- A step of the manager's thread that only moves on inside `tick()`. -/
theorem inv_move {pools : Pools} {s : State} {pc : Pc} (h : Inv pools s)
    (hLooked : pc.Looked pools s.counters)
    (hReplace : ∀ found, s.pc ≠ .replace found)
    (hReplace' : ∀ found, pc ≠ .replace found)
    (hDeciding : pc.deciding = true → ∀ c, s.stratum = some c → c.connected = false) :
    Inv pools { s with pc := pc } := by
  have hStale : State.Stale { s with pc := pc } ↔ s.Stale := by
    simp [State.Stale, hReplace, hReplace']
  refine ⟨h.inRange, hLooked, fun c hc hPending => ?_, fun c hc hNot => ?_⟩
  · rcases hPending with hSt | hDec
    · exact h.pending c hc (.inl (hStale.mp hSt))
    · exact hDeciding hDec c hc
  · exact h.current c hc (hNot ∘ hStale.mpr)

theorem inv_tick {pools : Pools} {s t : State} (h : Inv pools s) (hStep : s.tick pools = some t) :
    Inv pools t := by
  obtain ⟨counters, stratum, pc⟩ := s
  have hLooked := h.looked
  cases pc with
  | idle =>
    cases stratum with
    | none =>
      cases hStep
      exact h
    | some c =>
      cases hStep
      exact inv_move h trivial (by simp) (by simp) (by simp [Pc.deciding])
  | loadConnected =>
    cases stratum with
    | none => cases hStep
    | some c =>
      simp only [State.tick] at hStep
      split at hStep
      · rename_i hDown
        simp only [Bool.and_eq_true, Bool.not_eq_true', decide_eq_true_eq] at hDown
        cases hStep
        refine inv_move h hDown.2 (by simp) (by simp) ?_
        rintro - c' hc'
        cases hc'
        exact hDown.1
      · cases hStep
        refine inv_move h ?_ (by simp) (by simp) (by simp [Pc.deciding])
        exact fun hCool => h.pending c rfl (.inl (.inl hCool))
  | loadRetries =>
    cases stratum with
    | none => cases hStep
    | some c =>
      have hDown : c.connected = false := h.pending c rfl (.inr rfl)
      simp only [State.tick] at hStep
      split at hStep
      · cases hStep
        exact inv_move h ⟨rfl, hLooked⟩ (by simp) (by simp) (by simp [hDown])
      · cases hStep
        exact inv_move h hLooked (by simp) (by simp) (by simp [hDown])
  | loadLoopActive =>
    cases stratum with
    | none => cases hStep
    | some c =>
      have hDown : c.connected = false := h.pending c rfl (.inr rfl)
      cases hStep
      exact inv_move h ⟨rfl, hLooked⟩ (by simp) (by simp) (by simp [hDown])
  | loadConnectedAgain first =>
    cases stratum with
    | none => cases hStep
    | some c =>
      cases hStep
      refine inv_move h ?_ (by simp) (by simp) (by simp [Pc.deciding])
      -- under a cooldown the client is down, and both loads find it so
      intro hCool
      have hDown : c.connected = false := h.pending c rfl (.inl (.inl hCool))
      simp [hDown, hLooked hCool]
  | decide found o =>
    cases hStep
    exact inv_decide h rfl
  | replace found =>
    simp only [State.tick] at hStep
    split at hStep
    · -- the index is in range
      rename_i hNone
      exact absurd h.inRange (Nat.not_lt.mpr (List.getElem?_eq_none_iff.mp hNone))
    · rename_i entry hEntry
      cases hStep
      exact ⟨h.inRange, ⟨hEntry, hLooked.2⟩, by simp, by simp⟩
  | create entry =>
    -- the new client is one of the current pool and not yet connected
    cases hStep
    refine ⟨h.inRange, hLooked.2, ?_, ?_⟩
    · rintro c hc -
      cases hc
      rfl
    · rintro c hc -
      cases hc
      exact hLooked.1
  | connecting => cases hStep
  | handshaking => cases hStep

/-- A change of the client that keeps its pool, and connects it only when it is
not being given up. -/
theorem inv_client {pools : Pools} {s : State} {c c' : Client} (h : Inv pools s)
    (hClient : s.stratum = some c) (hPool : c'.pool = c.pool)
    (hUp : c'.connected = true →
      c.connected = true ∨ s.counters.failoverCooldown = 0 ∧ s.pc.deciding = false) :
    Inv pools { s with stratum := some c' } := by
  refine ⟨h.inRange, h.looked, ?_, ?_⟩
  · rintro _ ⟨⟩ hPending
    by_contra hNot
    rcases hUp (by simpa using hNot) with hWas | ⟨hCool, hDec⟩
    · rw [h.pending c hClient hPending] at hWas
      cases hWas
    · rcases hPending with (hCool' | ⟨_, hPc⟩) | hDec'
      · exact hCool' hCool
      · simp only at hPc
        rw [hPc] at hDec
        cases hDec
      · exact absurd hDec' (by simp [hDec])
  · rintro _ ⟨⟩ hStale
    rw [hPool]
    exact h.current c hClient hStale

/-- The manager's own `connect()`: the counters stand still and no cooldown
runs, so the client is one of the current pool. -/
theorem inv_connect {pools : Pools} {s : State} {stratum : Option Client} {pc : Pc}
    (h : Inv pools s) (hPc : s.pc = .connecting ∨ s.pc = .handshaking)
    (hPc' : pc = .connecting ∨ pc = .handshaking ∨ pc = .idle)
    (hPool : ∀ c', stratum = some c' → ∃ c, s.stratum = some c ∧ c'.pool = c.pool) :
    Inv pools { s with stratum := stratum, pc := pc } := by
  have hCool : s.counters.failoverCooldown = 0 := by
    have hLooked := h.looked
    rcases hPc with hPc | hPc <;> rwa [hPc] at hLooked
  have hStale : ¬ s.Stale := by
    rcases hPc with hPc | hPc <;> simp [State.Stale, hCool, hPc]
  have hNot : ¬ (State.Stale ⟨s.counters, stratum, pc⟩ ∨ pc.deciding = true) := by
    rcases hPc' with rfl | rfl | rfl <;> simp [State.Stale, hCool, Pc.deciding]
  refine ⟨h.inRange, ?_, fun c' _ hPending => absurd hPending hNot, fun c' hc' _ => ?_⟩
  · rcases hPc' with rfl | rfl | rfl
    · exact hCool
    · exact hCool
    · trivial
  · obtain ⟨c, hc, hEq⟩ := hPool c' hc'
    rw [hEq]
    exact h.current c hc hStale

theorem inv_step {pools : Pools} {s t : State} {e : Event} (h : Inv pools s)
    (hOk : Settled s e) (hStep : step pools s e = some t) : Inv pools t := by
  cases e with
  | tick => exact inv_tick h hStep
  | opened =>
    simp only [step, Option.ite_none_right_eq_some] at hStep
    obtain ⟨hPc, hEq⟩ := hStep
    cases hEq
    refine inv_connect h (.inl hPc) (.inr (.inl rfl)) fun c' hc' => ?_
    obtain ⟨c, hc, rfl⟩ := Option.map_eq_some_iff.mp hc'
    exact ⟨c, hc, rfl⟩
  | refused =>
    simp only [step, Option.ite_none_right_eq_some] at hStep
    obtain ⟨hPc, hEq⟩ := hStep
    cases hEq
    exact inv_connect h (.inl hPc) (.inr (.inr rfl)) fun c' hc' => ⟨c', hc', rfl⟩
  | rejected =>
    simp only [step, Option.ite_none_right_eq_some] at hStep
    obtain ⟨hPc, hEq⟩ := hStep
    cases hEq
    refine inv_connect h (.inr hPc) (.inl rfl) fun c' hc' => ?_
    obtain ⟨c, hc, rfl⟩ := Option.map_eq_some_iff.mp hc'
    exact ⟨c, hc, rfl⟩
  | accepted =>
    simp only [step, Option.ite_none_right_eq_some] at hStep
    obtain ⟨hPc, hEq⟩ := hStep
    cases hEq
    exact inv_connect h (.inr hPc) (.inr (.inr rfl)) fun c' hc' => ⟨c', hc', rfl⟩
  | client e =>
    obtain ⟨c, hClient, hMap⟩ := Option.bind_eq_some_iff.mp hStep
    obtain ⟨c', hMove, rfl⟩ := Option.map_eq_some_iff.mp hMap
    obtain ⟨hPool, hUp⟩ := Client.step_spec hMove
    refine inv_client h hClient hPool fun hConn => (hUp hConn).imp_right fun hOpened => ?_
    exact hOk (by rw [hOpened])
  | disconnect =>
    simp only [step, Option.ite_none_right_eq_some] at hStep
    obtain ⟨-, hEq⟩ := hStep
    cases hEq
    exact ⟨h.inRange, h.looked, by simp, by simp⟩

theorem inv_reachable {pools : Pools} {s : State} (h : (system pools).Reachable Settled s) :
    Inv pools s := by
  refine h.induct ?_ fun s e t hInv hOk hStep => inv_step hInv hOk hStep
  rintro s rfl
  exact inv_initial pools

/-- **Live sessions are kept.** In every run in which the client's reconnect
thread never connects behind the manager's decision, `tick()` replaces no
client that its own loads found connected, and while a client is connected
`current_pool_name()` names its pool. -/
theorem live_session_kept (pools : Pools) {s : State}
    (hReach : (system pools).Reachable Settled s) :
    (∀ found, s.pc = .replace found → found = false) ∧
      ∀ c, s.stratum = some c → c.connected = true →
        currentPoolName pools s.counters = c.pool.name := by
  have h := inv_reachable hReach
  refine ⟨fun found hPc => ?_, fun c hClient hUp => ?_⟩
  · have hLooked := h.looked
    rw [hPc] at hLooked
    exact hLooked.1
  · have hStale : ¬ s.Stale := fun hStale => by
      rw [h.pending c hClient (.inl hStale)] at hUp
      cases hUp
    rw [currentPoolName, h.current c hClient hStale]

/-- Two pools on one host. -/
def twoPools : Pools := ⟨[⟨bytes "a", 1⟩, ⟨bytes "a", 2⟩], by simp⟩

/-- The first pool refuses five attempts, eleven steps of the manager apart;
the second accepts the next one. -/
def failsOver : List Event :=
  ([.tick, .refused] : List Event) ++
    (List.replicate 4 (List.replicate 11 Event.tick ++ [Event.refused])).flatten ++
    List.replicate 11 Event.tick ++ ([.opened, .accepted] : List Event)

theorem live_session_kept_failover :
    ∃ s c, (system twoPools).runWhile Settled (initial twoPools) failsOver = some s ∧
      s.stratum = some c ∧ c.connected = true ∧ c.pool.port = 2 ∧
      currentPoolName twoPools s.counters = c.pool.name := by
  obtain ⟨s, hRun⟩ : ∃ s, (system twoPools).runWhile Settled (initial twoPools) failsOver =
      some s := ⟨_, rfl⟩
  obtain ⟨c, hClient, hUp, hPort⟩ : ∃ c, s.stratum = some c ∧ c.connected = true ∧
      c.pool.port = 2 := by
    cases hRun
    exact ⟨_, rfl, rfl, rfl⟩
  have hReach := System.reachable_of_runWhile _ (.start rfl) hRun
  exact ⟨s, c, hRun, hClient, hUp, hPort, (live_session_kept twoPools hReach).2 c hClient hUp⟩

/-- A connection drops and four reconnect attempts fail; a tick during the
fifth moves on to the next pool, the fifth succeeds, and the next tick runs. -/
def comesBack : List Event :=
  ([.tick, .opened, .accepted, .client .drop, .client .readerExit] : List Event) ++
    (List.replicate 4 ([.client .backoff, .client .refused] : List Event)).flatten ++
    ([.client .backoff] : List Event) ++ List.replicate 4 Event.tick ++
    ([.client .opened, .client .accepted] : List Event) ++ List.replicate 4 Event.tick

/-- **A live session is replaced.** The tick that is about to replace the
client found it connected, and the reported pool is the one it will be replaced
with. -/
theorem live_session_replaced :
    ∃ s c, (system twoPools).Reachable System.Any s ∧ s.pc = .replace true ∧
      s.stratum = some c ∧ c.connected = true ∧
      currentPoolName twoPools s.counters = bytes "a:2" ∧ c.pool.name = bytes "a:1" := by
  obtain ⟨s, hRun⟩ : ∃ s, (system twoPools).run (initial twoPools) comesBack = some s := ⟨_, rfl⟩
  have hReach := System.reachable_of_run_any _ rfl hRun
  cases hRun
  exact ⟨_, _, hReach, rfl, rfl, rfl, by decide, by decide⟩

/-! ## The schedule is one of the system's -/

/-- Between two ticks, with a client whose `connect()` has failed. -/
def dead (entry : PoolEntry) (c : Counters) : State := ⟨c, some { pool := entry }, .idle⟩

/-- The events of one tick on such a client, when the attempt it may make is
refused as well. -/
def deadTick (c : Counters) : List Event :=
  if c.failoverCooldown = 0 then List.replicate 5 .tick
  else if c.failoverCooldown = 1 then List.replicate 6 .tick ++ [.refused]
  else List.replicate 4 .tick

/-- A tick of `Failing` is a run of the system, and the client it leaves after
an attempt is one of the pool that is logged. -/
theorem run_deadTick (pools : Pools) (entry : PoolEntry) {c : Counters}
    (hIdx : c.currentIdx < pools.size) :
    ∃ entry', (system pools).run (dead entry c) (deadTick c) =
        some (dead entry' (c.inspect pools.size c.observeDead).1) ∧
      ((c.inspect pools.size c.observeDead).2 = true →
        pools.entries[(c.inspect pools.size c.observeDead).1.currentIdx]? = some entry') := by
  by_cases hZero : c.failoverCooldown = 0
  · obtain ⟨hNow, -⟩ := inspect_disconnected pools.size c 0 false hZero
    refine ⟨entry, ?_, ?_⟩
    · simp [deadTick, hZero, List.replicate, System.run, system, step, State.tick, dead,
        Counters.observeDead, hNow]
    · simp [Counters.observeDead, hZero, hNow]
  · obtain ⟨hSame, -, hNow⟩ := inspect_other pools.size c false
    by_cases hOne : c.failoverCooldown = 1
    · have hEntry : pools.entries[c.currentIdx]? = some (pools.entries[c.currentIdx]) :=
        List.getElem?_eq_getElem hIdx
      refine ⟨pools.entries[c.currentIdx], ?_, ?_⟩
      · simp [deadTick, hOne, List.replicate, System.run, system, step, State.tick, dead,
          Counters.observeDead, hNow, hSame, hEntry]
      · simp [Counters.observeDead, hOne, hSame, hEntry]
    · refine ⟨entry, ?_, ?_⟩
      · simp [deadTick, hZero, hOne, List.replicate, System.run, system, step, State.tick, dead,
          Counters.observeDead, hNow]
      · simp [Counters.observeDead, hZero, hNow, hOne]

theorem ticks_currentIdx_lt {n : Nat} (hPos : 0 < n) (k : Nat) :
    (Failing.ticks n k).counters.currentIdx < n := by
  induction k with
  | zero => exact hPos
  | succ k ih => exact inspect_currentIdx_lt _ ih

/-- The counters of the schedule are reached in the system. -/
theorem ticks_reachable (pools : Pools) (k : Nat) :
    ∃ entry, (system pools).Reachable System.Any
      (dead entry (Failing.ticks pools.size k).counters) := by
  induction k with
  | zero =>
    exact ⟨_, System.reachable_of_run_any [.tick, .refused] rfl rfl⟩
  | succ k ih =>
    obtain ⟨entry, hReach⟩ := ih
    obtain ⟨entry', hRun, -⟩ :=
      run_deadTick pools entry (ticks_currentIdx_lt pools.size_pos k)
    refine ⟨entry', System.reachable_of_run _ hReach ?_ hRun⟩
    exact System.runOk_of_forall _ (fun _ _ _ => trivial) _

end ArmRx.Pool.Failover
