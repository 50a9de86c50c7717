import ArmRx.Pool.Connection

/-!
# Connections and the receive buffer

`read_buf_` is a member of the client and outlives the connection its bytes
were received on: neither `close_connection` nor `connect` clears it, and the
reader can leave its loop with lines still buffered, when `connected_` was
cleared or when `handle_line` threw.

* `handled_isolated` — lines do not cross connections in runs in which every
  connection is opened on an empty buffer.
* `handled_crosses` — a rejected login with a second line behind it: the
  fallback connection handles that line as its own first one.
-/

namespace ArmRx.Pool.Connection

open ArmRx.Lib ArmRx.Lib.Json

/-! ## The condition -/

/-- The step opens a new connection. -/
def Opens (s : State) (e : Event) : Prop :=
  e = .user .ok ∧ s.user = .connect .resolve ∨
    e = .reconnect .ok ∧ s.reconnect = .running (.connect .resolve)

/-- A thread object without a running thread. -/
def Thread.stopped {Pc : Type} : Thread Pc → Bool
  | .running _ => false
  | _ => true

/-- The condition on a step: a connection is opened on an empty buffer that no
reader uses. -/
def OpensFresh (s : State) (e : Event) : Prop :=
  Opens s e → s.readBuf = [] ∧ s.reader.stopped = true

instance (s : State) (e : Event) : Decidable (OpensFresh s e) :=
  inferInstanceAs (Decidable (_ ∨ _ → _))

/-! ## The invariant -/

/-- Everything buffered, about to be received or handled belongs to the
connection it is used on. -/
structure Isolated (s : State) : Prop where
  buf : ∀ b ∈ s.readBuf, b.connection = s.connections
  socket : ∀ c, s.socket = some c → c = s.connections
  recv : ∀ c, s.reader = .running (.recv (some c)) → c = s.connections
  handled : ∀ p ∈ s.handled, ∀ b ∈ p.2, b.connection = p.1

/-- What every step keeps that neither opens a connection nor is the reader's. -/
structure Frame (s t : State) : Prop where
  buf : t.readBuf = s.readBuf
  connections : t.connections = s.connections
  handled : t.handled = s.handled
  socket : t.socket = s.socket ∨ t.socket = none
  recv : ∀ c, t.reader = .running (.recv c) → s.reader = .running (.recv c)

theorem Isolated.frame {s t : State} (h : Isolated s) (hFrame : Frame s t) : Isolated t where
  buf := by
    rw [hFrame.buf, hFrame.connections]
    exact h.buf
  socket := by
    intro c hc
    rw [hFrame.connections]
    rcases hFrame.socket with hSame | hNone
    · exact h.socket c (hSame ▸ hc)
    · rw [hNone] at hc
      cases hc
  recv := by
    intro c hc
    rw [hFrame.connections]
    exact h.recv c (hFrame.recv _ hc)
  handled := by
    rw [hFrame.handled]
    exact h.handled

theorem frame_closeConnection {s t : State} {pc : ClosePc} {pc' : Option ClosePc}
    (h : s.closeConnection pc = some (t, pc')) : Frame s t := by
  cases pc with
  | store =>
    cases h
    exact ⟨rfl, rfl, rfl, .inl rfl, fun _ => id⟩
  | joinReader =>
    obtain ⟨th, hJoin, hEq⟩ := Option.map_eq_some_iff.mp h
    cases hEq
    refine ⟨rfl, rfl, rfl, .inl rfl, fun c hc => ?_⟩
    simp [Thread.join_eq hJoin] at hc
  | joinKeepalive =>
    obtain ⟨th, -, hEq⟩ := Option.map_eq_some_iff.mp h
    cases hEq
    exact ⟨rfl, rfl, rfl, .inl rfl, fun _ => id⟩
  | closeFd =>
    cases h
    exact ⟨rfl, rfl, rfl, .inr rfl, fun _ => id⟩

theorem frame_connectStep {s t : State} {b : Bool} {answer : Answer} {pc : ConnectPc}
    {r : Connecting} (h : s.connectStep b answer pc = some (t, r))
    (hPc : ¬ (pc = .resolve ∧ answer = .ok)) : Frame s t := by
  cases pc with
  | joinReader =>
    obtain ⟨th, hJoin, hEq⟩ := Option.map_eq_some_iff.mp h
    cases hEq
    refine ⟨rfl, rfl, rfl, .inl rfl, fun c hc => ?_⟩
    simp [Thread.join_eq hJoin] at hc
  | resolve =>
    cases answer with
    | ok => exact absurd ⟨rfl, rfl⟩ hPc
    | fail =>
      cases h
      exact ⟨rfl, rfl, rfl, .inl rfl, fun _ => id⟩
  | opened =>
    cases answer with
    | ok =>
      cases h
      exact ⟨rfl, rfl, rfl, .inl rfl, fun _ => id⟩
    | fail =>
      cases h
      exact ⟨rfl, rfl, rfl, .inr rfl, fun _ => id⟩
  | spawnReader =>
    simp only [State.connectStep] at h
    split at h
    · cases h
      exact ⟨rfl, rfl, rfl, .inl rfl, fun _ => id⟩
    · cases h
      exact ⟨rfl, rfl, rfl, .inl rfl, nofun⟩
  | close retry pc =>
    obtain ⟨⟨u, pc'⟩, hClose, hEq⟩ := Option.map_eq_some_iff.mp h
    have hFrame := frame_closeConnection hClose
    cases pc' <;> cases hEq <;> exact hFrame
  | _ =>
    -- the other places touch neither the buffer, nor the socket, nor the reader
    simp only [State.connectStep] at h
    repeat' split at h
    all_goals first
      | (cases h <;> exact ⟨rfl, rfl, rfl, .inl rfl, fun _ => id⟩)
      | (obtain ⟨_, -, hEq⟩ := Option.map_eq_some_iff.mp h
         cases hEq
         exact ⟨rfl, rfl, rfl, .inl rfl, fun _ => id⟩)

/-- The opening step, on an empty buffer that no reader uses. -/
theorem isolated_open {s t : State} {b : Bool} {r : Connecting} (h : Isolated s)
    (hStep : s.connectStep b .ok .resolve = some (t, r)) (hBuf : s.readBuf = [])
    (hReader : s.reader.stopped = true) : Isolated t := by
  cases hStep
  refine ⟨by simp [hBuf], fun _ hc => (Option.some.inj hc).symm, fun c hc => ?_, h.handled⟩
  rw [show s.reader = _ from hc] at hReader
  cases hReader

theorem isolated_connectStep {s t : State} {b : Bool} {answer : Answer} {pc : ConnectPc}
    {r : Connecting} (h : Isolated s) (hStep : s.connectStep b answer pc = some (t, r))
    (hFresh : pc = .resolve ∧ answer = .ok → s.readBuf = [] ∧ s.reader.stopped = true) :
    Isolated t := by
  by_cases hOpen : pc = .resolve ∧ answer = .ok
  · obtain ⟨hBuf, hReader⟩ := hFresh hOpen
    obtain ⟨rfl, rfl⟩ := hOpen
    exact isolated_open h hStep hBuf hReader
  · exact h.frame (frame_connectStep hStep hOpen)

/-- A change of what the invariant does not speak about. -/
theorem Isolated.congr {s t : State} (h : Isolated s) (hBuf : t.readBuf = s.readBuf := by rfl)
    (hConnections : t.connections = s.connections := by rfl)
    (hHandled : t.handled = s.handled := by rfl) (hSocket : t.socket = s.socket := by rfl)
    (hReader : t.reader = s.reader := by rfl) : Isolated t :=
  h.frame ⟨hBuf, hConnections, hHandled, .inl hSocket, fun _ hc => hReader ▸ hc⟩

/-- The reader goes on to a place in front of no `recv`. -/
theorem Isolated.move {s t : State} (h : Isolated s)
    (hReader : ∀ c, t.reader ≠ .running (.recv c)) (hBuf : t.readBuf = s.readBuf := by rfl)
    (hConnections : t.connections = s.connections := by rfl)
    (hHandled : t.handled = s.handled := by rfl) (hSocket : t.socket = s.socket := by rfl) :
    Isolated t :=
  h.frame ⟨hBuf, hConnections, hHandled, .inl hSocket, fun c hc => absurd hc (hReader c)⟩

theorem isolated_userStep {s t : State} {answer : Answer} (h : Isolated s)
    (hFresh : OpensFresh s (.user answer)) (hStep : s.userStep answer = some t) : Isolated t := by
  simp only [State.userStep] at hStep
  split at hStep
  case h_1 => cases hStep
  case h_2 pc hPc =>
    obtain ⟨⟨u, r⟩, hConnect, hEq⟩ := Option.map_eq_some_iff.mp hStep
    have hU : Isolated u := isolated_connectStep h hConnect fun hOpen =>
      hFresh (.inl ⟨by rw [hOpen.2], by rw [hPc, hOpen.1]⟩)
    cases r <;> cases hEq <;> exact hU.congr
  case h_3 pc hPc =>
    obtain ⟨⟨u, r⟩, hClose, hEq⟩ := Option.map_eq_some_iff.mp hStep
    have hU : Isolated u := h.frame (frame_closeConnection hClose)
    cases r <;> cases hEq <;> exact hU.congr
  case h_4 =>
    obtain ⟨_, -, hEq⟩ := Option.map_eq_some_iff.mp hStep
    cases hEq
    exact h.congr

theorem isolated_reconnectStep {n : Nat} {s t : State} {answer : Answer} (h : Isolated s)
    (hFresh : OpensFresh s (.reconnect answer)) (hStep : s.reconnectStep n answer = some t) :
    Isolated t := by
  simp only [State.reconnectStep] at hStep
  split at hStep
  case h_5 pc hPc =>
    obtain ⟨⟨u, r⟩, hConnect, hEq⟩ := Option.map_eq_some_iff.mp hStep
    have hU : Isolated u := isolated_connectStep h hConnect fun hOpen =>
      hFresh (.inr ⟨by rw [hOpen.2], by rw [hPc, hOpen.1]⟩)
    cases r <;> cases hEq <;> exact hU.congr
  all_goals
    cases hStep
    try exact h.congr

/-- A line of bytes of the current connection is logged as one of it. -/
theorem isolated_deliver {s : State} {line : List Received} (h : Isolated s)
    (hLine : ∀ b ∈ line, b.connection = s.connections) : Isolated (s.deliver line) := by
  rw [State.deliver]
  split
  · exact ⟨h.buf, h.socket, nofun, h.handled⟩
  · refine ⟨h.buf, h.socket, nofun, ?_⟩
    simpa using ⟨hLine, by simpa using h.handled⟩

/-- Both parts of a split buffer come from the buffer. -/
theorem takeLine_subset {buf line rest : List Received}
    (h : takeLine Received.byte buf = some (line, rest)) : line ⊆ buf ∧ rest ⊆ buf := by
  obtain ⟨nl, -, hEq⟩ := Option.map_eq_some_iff.mp h
  cases hEq
  refine ⟨fun b hb => ?_, List.drop_subset _ _⟩
  have hStrip : stripCr Received.byte (buf.take nl) ⊆ buf.take nl := by
    rw [stripCr]
    split
    · split
      · exact List.dropLast_subset _
      · exact List.Subset.refl _
    · exact List.Subset.refl _
  exact List.take_subset _ _ (hStrip hb)

theorem isolated_readerStep {s t : State} {input : Input} (h : Isolated s)
    (hStep : s.readerStep input = some t) : Isolated t := by
  simp only [State.readerStep] at hStep
  split at hStep
  case h_2 =>
    split at hStep
    case h_1 line rest hTake =>
      cases hStep
      obtain ⟨hLine, hRest⟩ := takeLine_subset hTake
      have hU : Isolated { s with readBuf := rest } :=
        ⟨fun b hb => h.buf b (hRest hb), h.socket, h.recv, h.handled⟩
      exact isolated_deliver hU fun b hb => h.buf b (hLine hb)
    case h_2 =>
      cases hStep
      refine ⟨h.buf, h.socket, fun c hc => h.socket c ?_, h.handled⟩
      simpa using hc
  case h_3 socket hReader =>
    split at hStep
    case h_1 text connection =>
      have hConnection := h.recv connection hReader
      split at hStep
      · cases hStep
      · split at hStep
        case h_1 buf hReceive =>
          cases hStep
          refine ⟨fun b hb => ?_, h.socket, fun c hc => (by cases hc), h.handled⟩
          simp only [receive, Option.ite_none_left_eq_some, Option.some.injEq] at hReceive
          rw [← hReceive.2, List.mem_append] at hb
          rcases hb with hOld | hNew
          · exact h.buf b hOld
          · obtain ⟨_, -, rfl⟩ := List.mem_map.mp hNew
            exact hConnection
        case h_2 =>
          cases hStep
          exact ⟨by simp, h.socket, fun c hc => (by cases hc), h.handled⟩
    case h_2 =>
      split at hStep
      case h_1 line hEof =>
        cases hStep
        have hU : Isolated { s with readBuf := [] } := ⟨by simp, h.socket, h.recv, h.handled⟩
        refine isolated_deliver hU fun b hb => h.buf b ?_
        simp only [atEof, Option.ite_none_left_eq_some, Option.some.injEq] at hEof
        rw [hEof.2]
        exact hb
      case h_2 =>
        cases hStep
        exact ⟨h.buf, h.socket, fun c hc => (by cases hc), h.handled⟩
    case h_3 => cases hStep
  case h_8 =>
    obtain ⟨_, -, hEq⟩ := Option.map_eq_some_iff.mp hStep
    cases hEq
    exact h.move (fun c hc => by cases hc)
  case h_10 hReader =>
    split at hStep
    · cases hStep
      exact h.congr
    · cases hStep
      exact h.move (fun c hc => by cases hc)
  all_goals
    -- the reader only moves on
    repeat' split at hStep
    all_goals
      cases hStep
      try exact h.move (by grind)

theorem isolated_step {n : Nat} {s t : State} {e : Event} (h : Isolated s)
    (hFresh : OpensFresh s e) (hStep : step n s e = some t) : Isolated t := by
  simp only [step, Option.ite_none_left_eq_some] at hStep
  obtain ⟨-, hStep⟩ := hStep
  cases e with
  | callConnect =>
    simp only [Option.ite_none_right_eq_some] at hStep
    obtain ⟨-, hEq⟩ := hStep
    cases hEq
    exact h.congr
  | callDisconnect =>
    simp only [Option.ite_none_right_eq_some] at hStep
    obtain ⟨-, hEq⟩ := hStep
    cases hEq
    exact h.congr
  | user answer => exact isolated_userStep h hFresh hStep
  | reader input => exact isolated_readerStep h hStep
  | keepalive =>
    simp only [State.keepaliveStep] at hStep
    split at hStep
    · split at hStep <;> cases hStep <;> exact h.congr
    · cases hStep
  | reconnect answer => exact isolated_reconnectStep h hFresh hStep

/-- **Lines do not cross connections.** In every run in which each connection is
opened on an empty buffer that no reader uses, every line passed to
`handle_line` consists of bytes received on the connection current then. -/
theorem handled_isolated (maxRetries : Nat) {s : State}
    (hReach : (system maxRetries).Reachable OpensFresh s) :
    ∀ connection line, (connection, line) ∈ s.handled →
      ∀ b ∈ line, b.connection = connection := by
  have h : Isolated s := by
    refine hReach.induct ?_ fun s e t hInv hOk hStep => isolated_step hInv hOk hStep
    rintro s rfl
    exact ⟨by simp, by simp, by simp, by simp⟩
  exact fun connection line hMem => h.handled (connection, line) hMem

/-! ## Two runs -/

/-- `connect()` up to the wait for the handshake. -/
def upToAwait : List Event := .callConnect :: List.replicate 9 (.user .ok)

/-- The reader's first receive on a new connection, and its first line. -/
def firstLine (text : Bytes) : List Event :=
  [.reader .quiet, .reader .quiet, .reader (.chunk text), .reader .quiet]

/-- The pool's refusal of the login. -/
def loginRefused : Bytes :=
  bytes "\x7b\"id\":1,\"jsonrpc\":\"2.0\",\"error\":\x7b\"code\":-1\x7d\x7d"

/-- A refused login, and a first line on the connection of the other protocol. -/
def refusedAndAgain : List Event :=
  upToAwait ++ firstLine (loginRefused ++ bytes "\n") ++ [Event.reader (.reply false)] ++
    List.replicate 3 (Event.user .ok) ++ List.replicate 4 (Event.reader .quiet) ++
    List.replicate 7 (Event.user .ok) ++ firstLine (bytes "ok\n") ++
    [Event.reader (.reply true)]

/-- Two connections, each with its line. -/
theorem handled_isolated_refused :
    ∃ s first second, (system 5).runWhile OpensFresh {} refusedAndAgain = some s ∧
      s.handled = [(2, second), (1, first)] ∧ (∀ b ∈ second, b.connection = 2) ∧
      ∀ b ∈ first, b.connection = 1 := by
  obtain ⟨s, hRun⟩ : ∃ s, (system 5).runWhile OpensFresh {} refusedAndAgain = some s := ⟨_, rfl⟩
  obtain ⟨first, second, hHandled⟩ : ∃ first second, s.handled = [(2, second), (1, first)] := by
    cases hRun
    exact ⟨_, _, rfl⟩
  have hReach := System.reachable_of_runWhile _ (.start rfl) hRun
  refine ⟨s, first, second, hRun, hHandled, handled_isolated 5 hReach 2 second ?_,
    handled_isolated 5 hReach 1 first ?_⟩
  · rw [hHandled]
    exact List.mem_cons_self
  · rw [hHandled]
    exact List.mem_cons_of_mem _ (List.mem_singleton_self _)

/-- The refusal arrives with a second line behind it; `connect()` closes the
connection and falls back to the other protocol while that line is buffered. -/
def refusedAndMore : List Event :=
  upToAwait ++ firstLine (loginRefused ++ bytes "\nx\n") ++ [Event.reader (.reply false)] ++
    List.replicate 3 (Event.user .ok) ++ List.replicate 4 (Event.reader .quiet) ++
    List.replicate 7 (Event.user .ok) ++ List.replicate 2 (Event.reader .quiet)

/-- **A line crosses.** The second connection handles a line that was received
on the first. -/
theorem handled_crosses :
    ∃ s, (system 5).Reachable System.Any s ∧ (2, [⟨ch 'x', 1⟩]) ∈ s.handled := by
  obtain ⟨s, hRun⟩ : ∃ s, (system 5).run {} refusedAndMore = some s := ⟨_, rfl⟩
  have hReach := System.reachable_of_run_any _ rfl hRun
  cases hRun
  exact ⟨_, hReach, List.mem_cons_self⟩

end ArmRx.Pool.Connection
