import ArmRx.Lib.Transition
import ArmRx.Pool.ReadLine

/-!
# The threads of a connection

A `StratumClient` (`src/stratum_client.cpp`) runs on up to four threads: the
user's, which calls `connect()` and `disconnect()`, the reader, the keepalive
thread and the reconnect thread, which calls `connect()` too. They share
atomics, the socket, the receive buffer and the `std::thread` objects through
which they join one another.

One step is one access to what is shared. The network, the pool's replies and
the time-outs are inputs of the steps that wait for them. Every received byte
carries the connection it was received on, and `handled` logs each line passed
to `handle_line` with the connection that was current; neither influences a
step.
-/

namespace ArmRx.Pool.Connection

open ArmRx.Lib ArmRx.Lib.Json

/-! ## Shared state -/

/-- A byte and the connection it was received on. -/
structure Received where
  byte : BitVec 8
  connection : Nat
  deriving DecidableEq

inductive Protocol
  | auto | cryptonote | stratumV1
  deriving DecidableEq

/-- A `std::thread` object: not joinable, running, or finished and not joined. -/
inductive Thread (Pc : Type)
  | none
  | running (pc : Pc)
  | finished
  deriving DecidableEq

namespace Thread

variable {Pc : Type}

/-- `if (t.joinable()) t.join();` waits for a running thread. -/
def join : Thread Pc → Option (Thread Pc)
  | .running _ => Option.none
  | _ => some .none

def joinable : Thread Pc → Bool
  | .none => false
  | _ => true

/-- A join leaves an object without a thread. -/
theorem join_eq {t t' : Thread Pc} (h : t.join = some t') : t' = .none := by
  cases t <;> simp_all [Thread.join]

end Thread

/-- The places of `close_connection`. `shutdown` only wakes the reader, whose
`recv` may return at any time. -/
inductive ClosePc
  | store | joinReader | joinKeepalive | closeFd
  deriving DecidableEq

/-- The places of `connect`. -/
inductive ConnectPc
  | check | enable | beginHandshake | joinReader | joinKeepalive | joinReconnect
  | resolve | opened | spawnReader | await | evaluate
  /-- `close_connection` after a failed handshake; then another round, or a throw. -/
  | close (retry : Bool) (pc : ClosePc)
  | closed
  | joinOldKeepalive | spawnKeepalive
  | finish (ok : Bool)
  deriving DecidableEq

inductive UserPc
  | idle
  | connect (pc : ConnectPc)
  | disconnect (pc : ClosePc)
  | joinReconnect
  deriving DecidableEq

/-- The places of `reconnect_loop`. -/
inductive ReconnectPc
  | loop | wait | check | attempt
  | connect (pc : ConnectPc)
  | reset | leaving
  deriving DecidableEq

/-- The places of `reader_thread_fn` and, up to `recv`, of `read_line`. -/
inductive ReaderPc
  | loop | scan
  | recv (socket : Option Nat)
  | handle (line : List Received)
  | lost | checkEnabled | checkHandshake | joinReconnect | arm | spawn
  deriving DecidableEq

structure State where
  connected : Bool := false
  reconnectEnabled : Bool := true
  handshakeInProgress : Bool := false
  reconnectLoopActive : Bool := false
  reconnectAttempts : Nat := 0
  subscribeDone : Bool := false
  subscribeOk : Bool := false
  protocol : Protocol := .auto
  /-- `sockfd_`, as the number of its connection; `none` is -1. The state forgets the
  descriptor that a `connect` after a drop overwrites: no statement of the source closes
  it. -/
  socket : Option Nat := none
  /-- The connections opened so far; the last one is the current one. -/
  connections : Nat := 0
  readBuf : List Received := []
  user : UserPc := .idle
  reader : Thread ReaderPc := .none
  keepalive : Thread Unit := .none
  reconnect : Thread ReconnectPc := .none
  /-- `std::terminate`, for a thread assigned to a joinable object. -/
  terminated : Bool := false
  /-- The last call of the user was `disconnect()`, and it has returned. -/
  disconnected : Bool := false
  handled : List (Nat × List Received) := []
  deriving DecidableEq

/-! ## connect and close_connection -/

/-- What the network and the clock answer to a step that waits for them. -/
inductive Answer
  | ok | fail
  deriving DecidableEq

/-- One step of `close_connection`; the place is `none` when it returns. -/
def State.closeConnection (s : State) : ClosePc → Option (State × Option ClosePc)
  | .store => some ({ s with connected := false }, some .joinReader)
  | .joinReader => s.reader.join.map fun t => ({ s with reader := t }, some .joinKeepalive)
  | .joinKeepalive => s.keepalive.join.map fun t => ({ s with keepalive := t }, some .closeFd)
  | .closeFd => some ({ s with socket := none }, none)

/-- The outcome of a step of `connect`. -/
inductive Connecting
  | next (pc : ConnectPc)
  | returned
  | threw
  deriving DecidableEq

/-- One step of `connect`, called on the reconnect thread or by the user. -/
def State.connectStep (onReconnect : Bool) (answer : Answer) (s : State) :
    ConnectPc → Option (State × Connecting)
  | .check => some (s, if s.connected then .returned else .next .enable)
  | .enable => some ({ s with reconnectEnabled := true }, .next .beginHandshake)
  | .beginHandshake => some ({ s with handshakeInProgress := true }, .next .joinReader)
  | .joinReader => s.reader.join.map fun t => ({ s with reader := t }, .next .joinKeepalive)
  | .joinKeepalive => s.keepalive.join.map fun t => ({ s with keepalive := t }, .next .joinReconnect)
  | .joinReconnect =>
    -- a thread does not join itself
    if onReconnect then some (s, .next .resolve)
    else s.reconnect.join.map fun t => ({ s with reconnect := t }, .next .resolve)
  | .resolve =>
    match answer with
    | .ok =>
      let connection := s.connections + 1
      some ({ s with connections := connection, socket := some connection }, .next .opened)
    | .fail => some (s, .next (.finish false))
  | .opened =>
    match answer with
    | .ok => some ({ s with connected := true }, .next .spawnReader)
    -- the TLS handshake failed
    | .fail => some ({ s with socket := none }, .next (.finish false))
  | .spawnReader =>
    if s.reader.joinable then some ({ s with terminated := true }, .next .await)
    else some ({ s with subscribeDone := false, reader := .running .loop }, .next .await)
  | .await =>
    if s.subscribeDone then some (s, .next .evaluate)
    else
      match answer with
      | .ok => none
      | .fail => some (s, .next (.close false .store))
  | .evaluate =>
    if s.subscribeOk then
      match s.protocol with
      | .stratumV1 => some (s, .next (.finish true))
      | _ => some ({ s with protocol := .cryptonote }, .next .joinOldKeepalive)
    else
      match s.protocol with
      | .auto => some ({ s with protocol := .stratumV1 }, .next (.close true .store))
      | _ => some (s, .next (.close false .store))
  | .close retry pc => (s.closeConnection pc).map fun
    | (s, some pc) => (s, .next (.close retry pc))
    | (s, none) => (s, .next (if retry then .closed else .finish false))
  | .closed => some ({ s with connected := false }, .next .resolve)
  | .joinOldKeepalive =>
    s.keepalive.join.map fun t => ({ s with keepalive := t }, .next .spawnKeepalive)
  | .spawnKeepalive =>
    if s.keepalive.joinable then some ({ s with terminated := true }, .next (.finish true))
    else some ({ s with keepalive := .running () }, .next (.finish true))
  | .finish ok => some ({ s with handshakeInProgress := false }, if ok then .returned else .threw)

/-! ## The threads -/

def State.userStep (answer : Answer) (s : State) : Option State :=
  match s.user with
  | .idle => none
  | .connect pc => (s.connectStep false answer pc).map fun
    | (s, .next pc) => { s with user := .connect pc }
    | (s, _) => { s with user := .idle }
  | .disconnect pc => (s.closeConnection pc).map fun
    | (s, some pc) => { s with user := .disconnect pc }
    | (s, none) => { s with user := .joinReconnect }
  | .joinReconnect => s.reconnect.join.map fun t =>
    { s with reconnect := t, user := .idle, disconnected := true }

/-- `keepalive_loop`: what it sends does not matter here. -/
def State.keepaliveStep (s : State) : Option State :=
  match s.keepalive with
  | .running () => if s.connected then some s else some { s with keepalive := .finished }
  | _ => none

def State.reconnectStep (maxRetries : Nat) (answer : Answer) (s : State) : Option State :=
  match s.reconnect with
  | .running .loop =>
    some { s with reconnect := .running (if s.reconnectEnabled then .wait else .leaving) }
  | .running .wait => some { s with reconnect := .running .check }
  | .running .check =>
    some { s with reconnect := .running (if s.reconnectEnabled then .attempt else .leaving) }
  | .running .attempt =>
    let attempts := s.reconnectAttempts + 1
    some { s with
      reconnectAttempts := attempts
      reconnect := .running
        (if maxRetries > 0 && attempts > maxRetries then .leaving else .connect .check) }
  | .running (.connect pc) => (s.connectStep true answer pc).map fun
    | (s, .next pc) => { s with reconnect := .running (.connect pc) }
    | (s, .returned) => { s with reconnect := .running .reset }
    | (s, .threw) => { s with reconnect := .running .loop }
  | .running .reset =>
    some { s with reconnectAttempts := 0, reconnect := .running .leaving }
  | .running .leaving => some { s with reconnectLoopActive := false, reconnect := .finished }
  | _ => none

/-- What reaches the reader: the result of a `recv`, and what `handle_line`
makes of a line. -/
inductive Input
  | chunk (text : Bytes)
  | eof
  | quiet
  | reply (ok : Bool)
  | thrown
  deriving DecidableEq

/-- Pass a line to `handle_line`; an empty one is skipped. -/
def State.deliver (s : State) (line : List Received) : State :=
  if line.isEmpty then { s with reader := .running .loop }
  else
    { s with
      reader := .running (.handle line), handled := (s.connections, line) :: s.handled }

def State.readerStep (input : Input) (s : State) : Option State :=
  match s.reader with
  | .running .loop =>
    some { s with reader := .running (if s.connected then .scan else .lost) }
  | .running .scan =>
    match takeLine Received.byte s.readBuf with
    | some (line, rest) => some ({ s with readBuf := rest }.deliver line)
    | none => some { s with reader := .running (.recv s.socket) }
  | .running (.recv socket) =>
    match input, socket with
    | .chunk text, some connection =>
      if text.isEmpty || text.length > 4096 then none
      else
        match receive s.readBuf (text.map (⟨·, connection⟩)) with
        | some buf => some { s with readBuf := buf, reader := .running .scan }
        | none => some { s with readBuf := [], reader := .running .lost }
    | .eof, _ =>
      match atEof s.readBuf with
      | some line => some ({ s with readBuf := [] }.deliver line)
      | none => some { s with reader := .running .lost }
    | _, _ => none
  | .running (.handle _) =>
    match input with
    | .quiet => some { s with reader := .running .loop }
    | .reply ok =>
      -- a second reply makes `set_value` throw
      if s.subscribeDone then some { s with subscribeOk := ok, reader := .running .lost }
      else some { s with subscribeOk := ok, subscribeDone := true, reader := .running .loop }
    | .thrown => some { s with reader := .running .lost }
    | _ => none
  | .running .lost => some { s with connected := false, reader := .running .checkEnabled }
  | .running .checkEnabled =>
    some { s with reader := if s.reconnectEnabled then .running .checkHandshake else .finished }
  | .running .checkHandshake =>
    some { s with
      reader := if s.handshakeInProgress then .finished else .running .joinReconnect }
  | .running .joinReconnect => s.reconnect.join.map fun t =>
    { s with reconnect := t, reader := .running .arm }
  | .running .arm => some { s with reconnectLoopActive := true, reader := .running .spawn }
  | .running .spawn =>
    if s.reconnect.joinable then some { s with terminated := true }
    else some { s with reconnect := .running .loop, reader := .finished }
  | _ => none

/-! ## The system -/

inductive Event
  | callConnect
  | callDisconnect
  | user (answer : Answer)
  | reader (input : Input)
  | keepalive
  | reconnect (answer : Answer)
  deriving DecidableEq

def step (maxRetries : Nat) (s : State) (e : Event) : Option State :=
  if s.terminated then none
  else
    match e with
    | .callConnect =>
      if s.user = .idle then some { s with user := .connect .check, disconnected := false }
      else none
    | .callDisconnect =>
      -- up to the store to `reconnect_enabled_`
      if s.user = .idle then
        some { s with reconnectEnabled := false, user := .disconnect .store, disconnected := false }
      else none
    | .user answer => s.userStep answer
    | .reader input => s.readerStep input
    | .keepalive => s.keepaliveStep
    | .reconnect answer => s.reconnectStep maxRetries answer

/-- A new client, with the given `max_retries_`. -/
def system (maxRetries : Nat) : System State Event := ⟨(· = {}), step maxRetries⟩

end ArmRx.Pool.Connection
