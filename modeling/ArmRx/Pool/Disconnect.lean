import ArmRx.Pool.Connection

/-!
# After disconnect

`disconnect()` clears `reconnect_enabled_`, closes the connection and joins
every thread. `connect()`, also when the reconnect thread calls it, sets
`reconnect_enabled_` again.

* `disconnect_final` — once `disconnect()` has returned the client is at rest,
  in runs in which no `disconnect()` starts while the reconnect thread is past
  its look at `reconnect_enabled_`.
* `disconnect_overtaken` — a run in which one does, and the client stays
  connected.
-/

namespace ArmRx.Pool.Connection

open ArmRx.Lib

/-! ## The condition -/

/-- The reconnect thread has seen `reconnect_enabled_` and has not returned
from the `connect()` that follows. -/
def ReconnectPc.committed : ReconnectPc → Bool
  | .attempt | .connect _ => true
  | _ => false

def Thread.Committed : Thread ReconnectPc → Prop
  | .running pc => pc.committed = true
  | _ => False

instance (t : Thread ReconnectPc) : Decidable t.Committed :=
  match t with
  | .running pc => inferInstanceAs (Decidable (pc.committed = true))
  | .none | .finished => inferInstanceAs (Decidable False)

/-- The condition on a step: `disconnect()` does not start while the reconnect
thread is about to call `connect()` or inside it. -/
def Uncommitted (s : State) (e : Event) : Prop :=
  e = .callDisconnect → ¬ s.reconnect.Committed

instance (s : State) (e : Event) : Decidable (Uncommitted s e) :=
  inferInstanceAs (Decidable (_ → _))

/-! ## The invariant -/

/-- How far `disconnect()` has come; the last number is for its return. -/
def State.progress (s : State) : Option Nat :=
  match s.user with
  | .disconnect .store => some 0
  | .disconnect .joinReader => some 1
  | .disconnect .joinKeepalive => some 2
  | .disconnect .closeFd => some 3
  | .joinReconnect => some 4
  | .idle => if s.disconnected then some 5 else none
  | .connect _ => none

/-- What `disconnect()` has achieved so far; no thread undoes any of it. -/
structure Closing (s : State) (k : Nat) : Prop where
  disabled : s.reconnectEnabled = false
  uncommitted : ¬ s.reconnect.Committed
  connected : 1 ≤ k → s.connected = false
  reader : 2 ≤ k → s.reader = .none
  keepalive : 3 ≤ k → s.keepalive = .none
  socket : 4 ≤ k → s.socket = none
  reconnect : 5 ≤ k → s.reconnect = .none

structure Inv (s : State) : Prop where
  closing : ∀ k, s.progress = some k → Closing s k
  calling : ∀ pc, s.user = .connect pc → s.disconnected = false

/-- What a step of the reader may change of what `disconnect()` relies on. -/
structure ReaderFrame (s t : State) : Prop where
  ran : s.reader ≠ .none
  user : t.user = s.user
  disconnected : t.disconnected = s.disconnected
  enabled : t.reconnectEnabled = s.reconnectEnabled
  connected : s.connected = false → t.connected = false
  keepalive : t.keepalive = s.keepalive
  socket : t.socket = s.socket
  committed : t.reconnect.Committed → s.reconnect.Committed

theorem readerFrame_deliver {s t : State} {line : List Received} (h : ReaderFrame s t) :
    ReaderFrame s (t.deliver line) := by
  rw [State.deliver]
  split
  · exact { h with }
  · exact { h with }

theorem readerFrame {s t : State} {input : Input} (hStep : s.readerStep input = some t) :
    ReaderFrame s t := by
  simp only [State.readerStep] at hStep
  have hKeep : s.reader ≠ .none → ReaderFrame s s := fun hRan =>
    ⟨hRan, rfl, rfl, rfl, id, rfl, rfl, id⟩
  split at hStep
  case h_2 hReader =>
    have hSame := hKeep (by simp [hReader])
    split at hStep
    · cases hStep
      exact readerFrame_deliver { hSame with }
    · cases hStep
      exact { hSame with }
  case h_3 hReader =>
    have hSame := hKeep (by simp [hReader])
    split at hStep
    case h_1 =>
      repeat' split at hStep
      all_goals
        cases hStep
        try exact { hSame with }
    case h_2 =>
      split at hStep
      · cases hStep
        exact readerFrame_deliver { hSame with }
      · cases hStep
        exact { hSame with }
    case h_3 => cases hStep
  case h_8 hReader =>
    -- joining the reconnect thread
    have hSame := hKeep (by simp [hReader])
    obtain ⟨th, hJoin, hEq⟩ := Option.map_eq_some_iff.mp hStep
    cases hEq
    rw [Thread.join_eq hJoin]
    exact { hSame with committed := False.elim }
  case h_10 hReader =>
    -- a new reconnect thread has not looked at `reconnect_enabled_` yet
    have hSame := hKeep (by simp [hReader])
    split at hStep
    · cases hStep
      exact { hSame with }
    · cases hStep
      exact { hSame with committed := nofun }
  case h_5 hReader =>
    have hSame := hKeep (by simp [hReader])
    cases hStep
    exact { hSame with connected := fun _ => rfl }
  case h_11 => cases hStep
  all_goals
    rename_i hReader
    have hSame := hKeep (by simp [hReader])
    repeat' split at hStep
    all_goals
      cases hStep
      try exact { hSame with }

theorem closing_reader {s t : State} {k : Nat} (h : Closing s k) (hFrame : ReaderFrame s t) :
    Closing t k where
  disabled := hFrame.enabled.trans h.disabled
  uncommitted := fun hCommitted => h.uncommitted (hFrame.committed hCommitted)
  connected := fun hk => hFrame.connected (h.connected hk)
  reader := fun hk => absurd (h.reader hk) hFrame.ran
  keepalive := fun hk => hFrame.keepalive.trans (h.keepalive hk)
  socket := fun hk => hFrame.socket.trans (h.socket hk)
  -- by then the reader is gone
  reconnect := fun hk => absurd (h.reader (by omega)) hFrame.ran

/-- A reconnect thread that finds reconnecting disabled only leaves. -/
theorem closing_reconnect {n : Nat} {s t : State} {answer : Answer} {k : Nat} (h : Closing s k)
    (hStep : s.reconnectStep n answer = some t) : Closing t k := by
  have hLate : s.reconnect ≠ .none → ¬ 5 ≤ k := fun hRan hk => hRan (h.reconnect hk)
  have hOpen := h.uncommitted
  simp only [State.reconnectStep] at hStep
  split at hStep
  case h_4 hPc => simp [hPc, Thread.Committed, ReconnectPc.committed] at hOpen
  case h_5 hPc => simp [hPc, Thread.Committed, ReconnectPc.committed] at hOpen
  case h_8 => cases hStep
  all_goals
    rename_i hPc
    cases hStep
    refine { h with uncommitted := ?_, reconnect := fun hk => ?_ }
    · simp [h.disabled, Thread.Committed, ReconnectPc.committed]
    · exact absurd hk (hLate (by simp [hPc]))

/-- `close_connection` and `connect` do not touch what the user's thread is
doing. -/
theorem closeConnection_user {s t : State} {pc : ClosePc} {pc' : Option ClosePc}
    (h : s.closeConnection pc = some (t, pc')) :
    t.user = s.user ∧ t.disconnected = s.disconnected := by
  cases pc <;> simp only [State.closeConnection, Option.map_eq_some_iff] at h <;> grind

theorem connectStep_user {s t : State} {b : Bool} {answer : Answer} {pc : ConnectPc}
    {r : Connecting} (h : s.connectStep b answer pc = some (t, r)) :
    t.user = s.user ∧ t.disconnected = s.disconnected := by
  cases pc with
  | close retry pc =>
    obtain ⟨⟨u, pc'⟩, hClose, hEq⟩ := Option.map_eq_some_iff.mp h
    have hUser := closeConnection_user hClose
    cases pc' <;> cases hEq <;> exact hUser
  | joinReconnect =>
    simp only [State.connectStep] at h
    split at h
    · cases h
      exact ⟨rfl, rfl⟩
    · obtain ⟨_, -, hEq⟩ := Option.map_eq_some_iff.mp h
      cases hEq
      exact ⟨rfl, rfl⟩
  | _ =>
    simp only [State.connectStep, Option.map_eq_some_iff] at h
    grind

theorem reconnectStep_user {n : Nat} {s t : State} {answer : Answer}
    (h : s.reconnectStep n answer = some t) :
    t.user = s.user ∧ t.disconnected = s.disconnected := by
  simp only [State.reconnectStep] at h
  split at h
  case h_5 =>
    obtain ⟨⟨u, r⟩, hConnect, hEq⟩ := Option.map_eq_some_iff.mp h
    have hUser := connectStep_user hConnect
    cases r <;> cases hEq <;> exact hUser
  all_goals
    cases h
    try exact ⟨rfl, rfl⟩

/-- The steps of the other threads keep the user's place, so an achievement of
`disconnect()` that survives them is one of the same stage. -/
theorem Inv.other {s t : State} (h : Inv s)
    (hUser : t.user = s.user ∧ t.disconnected = s.disconnected)
    (hClosing : ∀ k, Closing s k → Closing t k) : Inv t where
  closing := by
    intro k hk
    refine hClosing k (h.closing k ?_)
    rw [← hk, State.progress, State.progress, hUser.1, hUser.2]
  calling := by
    intro pc hPc
    rw [hUser.2]
    exact h.calling pc (hUser.1 ▸ hPc)

/-- One step of `close_connection` inside `disconnect()`. -/
theorem inv_close {s t : State} {pc : ClosePc} {pc' : Option ClosePc} (h : Inv s)
    (hPc : s.user = .disconnect pc) (hStep : s.closeConnection pc = some (t, pc')) :
    Inv { t with user := (pc'.map UserPc.disconnect).getD .joinReconnect } := by
  -- each statement adds one fact to those of the statement before
  cases pc with
  | store =>
    have hClosing := h.closing 0 (by simp [State.progress, hPc])
    cases hStep
    refine ⟨fun k hk => ?_, nofun⟩
    obtain rfl : 1 = k := Option.some.inj hk
    exact { hClosing with
      connected := fun _ => rfl, reader := nofun, keepalive := nofun, socket := nofun
      reconnect := nofun }
  | joinReader =>
    have hClosing := h.closing 1 (by simp [State.progress, hPc])
    obtain ⟨th, hJoin, hEq⟩ := Option.map_eq_some_iff.mp hStep
    cases hEq
    refine ⟨fun k hk => ?_, nofun⟩
    obtain rfl : 2 = k := Option.some.inj hk
    exact { hClosing with
      connected := fun _ => hClosing.connected le_rfl, reader := fun _ => Thread.join_eq hJoin
      keepalive := nofun, socket := nofun, reconnect := nofun }
  | joinKeepalive =>
    have hClosing := h.closing 2 (by simp [State.progress, hPc])
    obtain ⟨th, hJoin, hEq⟩ := Option.map_eq_some_iff.mp hStep
    cases hEq
    refine ⟨fun k hk => ?_, nofun⟩
    obtain rfl : 3 = k := Option.some.inj hk
    exact { hClosing with
      connected := fun _ => hClosing.connected (by omega)
      reader := fun _ => hClosing.reader le_rfl, keepalive := fun _ => Thread.join_eq hJoin
      socket := nofun, reconnect := nofun }
  | closeFd =>
    have hClosing := h.closing 3 (by simp [State.progress, hPc])
    cases hStep
    refine ⟨fun k hk => ?_, nofun⟩
    obtain rfl : 4 = k := Option.some.inj hk
    exact { hClosing with
      connected := fun _ => hClosing.connected (by omega)
      reader := fun _ => hClosing.reader (by omega)
      keepalive := fun _ => hClosing.keepalive le_rfl
      socket := fun _ => rfl, reconnect := nofun }

theorem inv_userStep {s t : State} {answer : Answer} (h : Inv s)
    (hStep : s.userStep answer = some t) : Inv t := by
  simp only [State.userStep] at hStep
  split at hStep
  case h_1 => cases hStep
  case h_2 pc hPc =>
    obtain ⟨⟨u, r⟩, hConnect, hEq⟩ := Option.map_eq_some_iff.mp hStep
    have hDisconnected : u.disconnected = false :=
      (connectStep_user hConnect).2.trans (h.calling pc hPc)
    cases r <;> cases hEq <;> exact ⟨by simp [State.progress, hDisconnected], by simp [hDisconnected]⟩
  case h_3 pc hPc =>
    obtain ⟨⟨u, r⟩, hClose, hEq⟩ := Option.map_eq_some_iff.mp hStep
    have hInv := inv_close h hPc hClose
    cases r <;> cases hEq <;> exact hInv
  case h_4 hPc =>
    have hClosing := h.closing 4 (by simp [State.progress, hPc])
    obtain ⟨th, hJoin, hEq⟩ := Option.map_eq_some_iff.mp hStep
    cases hEq
    refine ⟨fun k hk => ?_, nofun⟩
    obtain rfl : 5 = k := Option.some.inj hk
    rw [Thread.join_eq hJoin]
    exact ⟨hClosing.disabled, False.elim, fun _ => hClosing.connected (by omega),
      fun _ => hClosing.reader (by omega), fun _ => hClosing.keepalive (by omega),
      fun _ => hClosing.socket (by omega), fun _ => rfl⟩

theorem inv_step {n : Nat} {s t : State} {e : Event} (h : Inv s) (hOk : Uncommitted s e)
    (hStep : step n s e = some t) : Inv t := by
  simp only [step, Option.ite_none_left_eq_some] at hStep
  obtain ⟨-, hStep⟩ := hStep
  cases e with
  | callConnect =>
    simp only [Option.ite_none_right_eq_some] at hStep
    obtain ⟨-, hEq⟩ := hStep
    cases hEq
    exact ⟨fun _ hk => (by cases hk), fun _ _ => rfl⟩
  | callDisconnect =>
    simp only [Option.ite_none_right_eq_some] at hStep
    obtain ⟨-, hEq⟩ := hStep
    cases hEq
    refine ⟨fun k hk => ?_, fun _ hUser => (by cases hUser)⟩
    obtain rfl : 0 = k := Option.some.inj hk
    -- no part of the shutdown has been reached
    exact ⟨rfl, hOk rfl, fun h => by omega, fun h => by omega, fun h => by omega,
      fun h => by omega, fun h => by omega⟩
  | user answer => exact inv_userStep h hStep
  | reader input =>
    have hFrame := readerFrame hStep
    exact h.other ⟨hFrame.user, hFrame.disconnected⟩ fun k hk => closing_reader hk hFrame
  | keepalive =>
    simp only [State.keepaliveStep] at hStep
    split at hStep
    case h_1 hRunning =>
      split at hStep
      · cases hStep
        exact h
      · cases hStep
        refine h.other ⟨rfl, rfl⟩ fun k hClosing => { hClosing with keepalive := fun hk => ?_ }
        rw [hClosing.keepalive hk] at hRunning
        cases hRunning
    case h_2 => cases hStep
  | reconnect answer =>
    exact h.other (reconnectStep_user hStep) fun k hClosing => closing_reconnect hClosing hStep

/-- **Disconnect is final.** In every run in which no `disconnect()` starts while
the reconnect thread is past its look at `reconnect_enabled_`, a client whose
last call was a `disconnect()` that has returned is not connected, its socket
is closed, and no thread is running or left to join. The socket is the one in
`sockfd_`: when the pool drops a connection and `connect` opens the next, the old
descriptor is overwritten there and stays open, whatever `disconnect()` does. -/
theorem disconnect_final (maxRetries : Nat) {s : State}
    (hReach : (system maxRetries).Reachable Uncommitted s) (hIdle : s.user = .idle)
    (hDisconnected : s.disconnected = true) :
    s.connected = false ∧ s.socket = none ∧ s.reader = .none ∧ s.keepalive = .none ∧
      s.reconnect = .none := by
  have h : Inv s := by
    refine hReach.induct ?_ fun s e t hInv hOk hStep => inv_step hInv hOk hStep
    rintro s rfl
    exact ⟨nofun, nofun⟩
  have hClosing := h.closing 5 (by simp [State.progress, hIdle, hDisconnected])
  exact ⟨hClosing.connected (by omega), hClosing.socket (by omega), hClosing.reader (by omega),
    hClosing.keepalive (by omega), hClosing.reconnect le_rfl⟩

/-! ## Two runs -/

/-- `connect()` with an accepted login; the keepalive thread runs. -/
def login : List Event :=
  Event.callConnect :: List.replicate 9 (Event.user .ok) ++
    ([.reader .quiet, .reader .quiet, .reader (.chunk (Lib.Json.bytes "ok\n")), .reader .quiet,
      .reader (.reply true)] : List Event) ++ List.replicate 5 (Event.user .ok)

/-- The pool closes the connection: the reader ends and leaves a reconnect
thread behind. -/
def dropped : List Event :=
  ([.reader .quiet, .reader .quiet, .reader .eof] : List Event) ++
    List.replicate 6 (Event.reader .quiet)

/-- `disconnect()` during the backoff wait. -/
def waitAndDisconnect : List Event :=
  login ++ dropped ++ ([.reconnect .ok, .callDisconnect, .keepalive] : List Event) ++
    List.replicate 4 (Event.user .ok) ++ List.replicate 3 (Event.reconnect .ok) ++
    [Event.user .ok]

theorem disconnect_final_waiting :
    ∃ s, (system 5).runWhile Uncommitted {} waitAndDisconnect = some s ∧ s.connections = 1 ∧
      s.connected = false ∧ s.socket = none ∧ s.reader = .none ∧ s.keepalive = .none ∧
      s.reconnect = .none := by
  obtain ⟨s, hRun⟩ : ∃ s, (system 5).runWhile Uncommitted {} waitAndDisconnect = some s :=
    ⟨_, rfl⟩
  have hReach := System.reachable_of_runWhile _ (.start rfl) hRun
  obtain ⟨hIdle, hDisconnected, hOne⟩ : s.user = .idle ∧ s.disconnected = true ∧
      s.connections = 1 := by
    cases hRun
    exact ⟨rfl, rfl, rfl⟩
  exact ⟨s, hRun, hOne, disconnect_final 5 hReach hIdle hDisconnected⟩

/-- `disconnect()` right after the reconnect thread found reconnecting enabled:
while the user waits for that thread, it connects. -/
def lookAndDisconnect : List Event :=
  login ++ dropped ++ List.replicate 3 (Event.reconnect .ok) ++
    ([.callDisconnect, .keepalive] : List Event) ++ List.replicate 4 (Event.user .ok) ++
    List.replicate 10 (Event.reconnect .ok) ++
    ([.reader .quiet, .reader .quiet, .reader (.chunk (Lib.Json.bytes "ok\n")), .reader .quiet,
      .reader (.reply true)] : List Event) ++ List.replicate 7 (Event.reconnect .ok) ++
    [Event.user .ok]

/-- **Disconnect is overtaken.** `disconnect()` has returned, and the client is
connected with a reader and a keepalive thread running. -/
theorem disconnect_overtaken :
    ∃ s, (system 5).Reachable System.Any s ∧ s.user = .idle ∧ s.disconnected = true ∧
      s.connected = true ∧ s.socket = some 2 ∧ s.reader = .running .loop ∧
      s.keepalive = .running () := by
  obtain ⟨s, hRun⟩ : ∃ s, (system 5).run {} lookAndDisconnect = some s := ⟨_, rfl⟩
  have hReach := System.reachable_of_run_any _ rfl hRun
  cases hRun
  exact ⟨_, hReach, rfl, rfl, rfl, rfl, rfl, rfl⟩

end ArmRx.Pool.Connection
