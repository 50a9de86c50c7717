import ArmRx.Pool.Extract
import ArmRx.Pool.TextTests

/-!
# Share accounting

`PoolManager` (`src/pool_manager.cpp`) reports the counters of its current
client. This module runs a manager through any sequence of connections,
requests and pool lines, remembers which request each id belongs to, and
compares the reported counters with what the replies say as JSON.

* `accounted_iff_truthful` — in which runs every reply is counted once, and the
  counters never fall.
* `stepTruthful_layout_iff` — what that asks of the members of a reply and their
  layout.
* `counters_lt` — the natural numbers here are the `uint64_t` of the source.
-/

namespace ArmRx.Pool

open ArmRx.Lib ArmRx.Lib.Json ArmRx.Mining

/-! ## The manager -/

/-- What a request asks of the pool. -/
inductive Request where
  | handshake | authorize | submit | keepalive
  deriving DecidableEq, Repr

/-- A client, and the requests it has sent, the latest first. -/
structure Session where
  client : StratumClient
  requests : List (BitVec 64 × Request) := []

/-- The part of `PoolManager` the counters depend on. -/
structure PoolManager where
  wallet : Bytes
  password : Bytes
  stratum : Option Session := none

namespace PoolManager

/-- `shares_accepted`. -/
def sharesAccepted (p : PoolManager) : Nat := (p.stratum.map (·.client.sharesAccepted)).getD 0

/-- `shares_rejected`. -/
def sharesRejected (p : PoolManager) : Nat := (p.stratum.map (·.client.sharesRejected)).getD 0

end PoolManager

/-- What can happen to a manager. -/
inductive Ev where
  /-- `connect_to_current`: the first connection, a retry or a failover -/
  | connectToCurrent
  /-- `PoolManager::disconnect` -/
  | disconnect
  /-- the client opens a connection and sends its login or subscription -/
  | handshake
  /-- the protocol is settled, or falls back to Stratum V1 -/
  | setProtocol (protocol : StratumProtocol)
  | authorize
  | submit (job : Job) (nonce : BitVec 64) (hash : Bytes32)
  | keepalive
  /-- the reader hands a line to `handle_line` -/
  | line (line : Bytes)

/-- Sends a message and notes its request. -/
def Session.send (s : Session) (r : Request) (build : StratumClient → Bytes × StratumClient) :
    Session :=
  { client := (build s.client).2, requests := (s.client.requestId, r) :: s.requests }

section Run

variable (stod : Bytes → Option (BitVec 64))

/-- One event of a session. -/
def Session.step (s : Session) : Ev → Session
  | .handshake =>
    Session.send { s with client := { s.client with subscribeDone := none } } .handshake
      (if s.client.protocol = .stratumV1 then StratumClient.buildSubscribeMsg
        else StratumClient.buildLoginMsg)
  | .setProtocol protocol => { s with client := { s.client with protocol } }
  | .authorize => s.send .authorize StratumClient.buildAuthorizeMsg
  | .submit job nonce hash => s.send .submit (·.buildSubmitMsg job nonce hash)
  | .keepalive => s.send .keepalive StratumClient.buildKeepaliveMsg
  | .line line => { s with client := (s.client.handleLine stod line).client }
  | .connectToCurrent | .disconnect => s

def PoolManager.step (p : PoolManager) : Ev → PoolManager
  | .connectToCurrent =>
    { p with stratum := some { client := { wallet := p.wallet, password := p.password } } }
  | .disconnect => { p with stratum := none }
  | e => { p with stratum := p.stratum.map (·.step stod e) }

/-! ## What a reply says -/

/-- The id a line answers to: it is an object with a numeric id and no method. -/
def replyId (line : Bytes) : Option Bytes :=
  match parse line with
  | some (.object members) =>
    if (members.lookup (bytes "method")).isSome then none
    else
      match members.lookup (bytes "id") with
      | some (.number text) => some text
      | _ => none
  | _ => none

/-- The request a line is the reply to. -/
def PoolManager.repliesTo (p : PoolManager) (line : Bytes) : Option Request :=
  match p.stratum, replyId line with
  | some s, some text => (s.requests.find? fun r => decimal r.1.toNat = text).map (·.2)
  | _, _ => none

/-- The result is `true`, `"true"` or has status `OK`, and there is no error. -/
def acceptsShare (line : Bytes) : Bool :=
  match parse line with
  | some (.object members) =>
    (match members.lookup (bytes "error") with
      | none | some .null => true
      | _ => false) &&
    (match members.lookup (bytes "result") with
      | some (.bool ok) => ok
      | some (.string s) => s = bytes "true"
      | some (.object result) =>
        match result.lookup (bytes "status") with
        | some (.string s) => s = bytes "OK"
        | _ => false
      | _ => false)
  | _ => false

/-- The counters a reply should leave. -/
def countReply (r : Request) (line : Bytes) (accepted rejected : Nat) : Nat × Nat :=
  match r with
  | .submit => if acceptsShare line then (accepted + 1, rejected) else (accepted, rejected + 1)
  | _ => (accepted, rejected)

/-- One event is accounted for: no reported counter falls, and a reply changes
them as it should. -/
def StepAccounted (p : PoolManager) (e : Ev) : Prop :=
  p.sharesAccepted ≤ (p.step stod e).sharesAccepted ∧
    p.sharesRejected ≤ (p.step stod e).sharesRejected ∧
    ∀ line r, e = .line line → p.repliesTo line = some r →
      ((p.step stod e).sharesAccepted, (p.step stod e).sharesRejected) =
        countReply r line p.sharesAccepted p.sharesRejected

/-- A property of every event of a run. -/
def Along (P : PoolManager → Ev → Prop) : PoolManager → List Ev → Prop
  | _, [] => True
  | p, e :: es => P p e ∧ Along P (p.step stod e) es

/-! ## Where the code counts as it should -/

/-- The texts `handle_reply` looks for tell the truth about the reply, a refused
share's result is an object or array, and no client that has counted anything is
replaced. -/
def StepTruthful (p : PoolManager) : Ev → Prop
  | .connectToCurrent | .disconnect => p.sharesAccepted = 0 ∧ p.sharesRejected = 0
  | .line line =>
    ∀ s r, p.stratum = some s → p.repliesTo line = some r →
      match r with
      | .submit =>
        s.client.reachesSubmit line = true ∧ StratumClient.shareOk line = acceptsShare line ∧
          (acceptsShare line = false → getObject line (bytes "result") ≠ [])
      | _ =>
        s.client.reachesSubmit line = true →
          StratumClient.shareOk line = false ∧ getObject line (bytes "result") = []
  | _ => True

theorem send_counters (s : Session) (r : Request) {build : StratumClient → Bytes × StratumClient}
    (hBuild : ∀ c, (build c).2.counters = c.counters) :
    (s.send r build).client.counters = s.client.counters := hBuild s.client

/-- Only lines change the counters of a client. -/
theorem Session.step_counters (s : Session) {e : Ev} (hLine : ∀ line, e ≠ .line line) :
    (s.step stod e).client.counters = s.client.counters := by
  cases e with
  | line line => exact absurd rfl (hLine line)
  | handshake =>
    refine (send_counters _ _ fun c => ?_).trans rfl
    split <;> rfl
  | submit job nonce hash =>
    refine send_counters _ _ fun c => ?_
    unfold StratumClient.buildSubmitMsg
    dsimp only
    split <;> rfl
  | connectToCurrent | disconnect | setProtocol | authorize | keepalive => rfl

/-- Replacing or dropping the client loses what it has counted. -/
theorem stepAccounted_reset_iff (p : PoolManager) {e : Ev}
    (he : e = .connectToCurrent ∨ e = .disconnect) :
    StepAccounted stod p e ↔ p.sharesAccepted = 0 ∧ p.sharesRejected = 0 := by
  have hZero : (p.step stod e).sharesAccepted = 0 ∧ (p.step stod e).sharesRejected = 0 := by
    rcases he with rfl | rfl <;> exact ⟨rfl, rfl⟩
  have hLine : ∀ line, e ≠ .line line := by
    rcases he with rfl | rfl <;> rintro line ⟨⟩
  unfold StepAccounted
  rw [hZero.1, hZero.2, Nat.le_zero, Nat.le_zero]
  exact ⟨fun h => ⟨h.1, h.2.1⟩, fun h => ⟨h.1, h.2, fun line r he => absurd he (hLine line)⟩⟩

theorem PoolManager.step_counters (p : PoolManager) {e : Ev} (hLine : ∀ line, e ≠ .line line)
    (hStep : p.step stod e = { p with stratum := p.stratum.map (·.step stod e) }) :
    (p.step stod e).sharesAccepted = p.sharesAccepted ∧
      (p.step stod e).sharesRejected = p.sharesRejected := by
  rw [hStep]
  cases hs : p.stratum with
  | none => simp [PoolManager.sharesAccepted, PoolManager.sharesRejected, hs]
  | some s =>
    have hCounters := s.step_counters stod hLine
    simp [PoolManager.sharesAccepted, PoolManager.sharesRejected, hs,
      (Prod.mk.inj hCounters).1, (Prod.mk.inj hCounters).2]

/-- What a line does to the counters. -/
theorem PoolManager.step_line (p : PoolManager) {s : Session} (hs : p.stratum = some s)
    (line : Bytes) :
    ((p.step stod (.line line)).sharesAccepted, (p.step stod (.line line)).sharesRejected) =
      if s.client.reachesSubmit line then
        if StratumClient.shareOk line then (p.sharesAccepted + 1, p.sharesRejected)
        else if (getObject line (bytes "result")).isEmpty then (p.sharesAccepted, p.sharesRejected)
        else (p.sharesAccepted, p.sharesRejected + 1)
      else (p.sharesAccepted, p.sharesRejected) := by
  have hBefore : p.sharesAccepted = s.client.sharesAccepted ∧
      p.sharesRejected = s.client.sharesRejected := by
    simp [PoolManager.sharesAccepted, PoolManager.sharesRejected, hs]
  have hAfter : ((p.step stod (.line line)).sharesAccepted,
      (p.step stod (.line line)).sharesRejected) =
      (s.client.handleLine stod line).client.counters := by
    simp [PoolManager.sharesAccepted, PoolManager.sharesRejected, PoolManager.step, hs,
      Session.step, StratumClient.counters]
  rw [hAfter, StratumClient.handleLine_counters, hBefore.1, hBefore.2]
  rfl

/-- The other events of a client leave the counters alone. -/
theorem stepAccounted_of_counters (p : PoolManager) {e : Ev} (hLine : ∀ line, e ≠ .line line)
    (hStep : p.step stod e = { p with stratum := p.stratum.map (·.step stod e) }) :
    StepAccounted stod p e := by
  have hSame := p.step_counters stod hLine hStep
  unfold StepAccounted
  rw [hSame.1, hSame.2]
  exact ⟨Nat.le_refl _, Nat.le_refl _, fun line r he => absurd he (hLine line)⟩

/-- A line is counted as it should exactly when the texts tell the truth. -/
theorem stepAccounted_line_iff (p : PoolManager) (line : Bytes) :
    StepAccounted stod p (.line line) ↔ StepTruthful p (.line line) := by
  cases hs : p.stratum with
  | none =>
    have hReply : p.repliesTo line = none := by simp [PoolManager.repliesTo, hs]
    refine iff_of_true ⟨?_, ?_, ?_⟩ fun s r hs' => ?_
    · simp [PoolManager.sharesAccepted, hs]
    · simp [PoolManager.sharesRejected, hs]
    · rintro line' r ⟨⟩ hr
      rw [hReply] at hr
      cases hr
    · rw [hs] at hs'
      cases hs'
  | some s =>
    have hAfter := p.step_line stod hs line
    have hGrow : p.sharesAccepted ≤ (p.step stod (.line line)).sharesAccepted ∧
        p.sharesRejected ≤ (p.step stod (.line line)).sharesRejected := by
      split at hAfter
      · split at hAfter
        · obtain ⟨h₁, h₂⟩ := Prod.mk.inj hAfter
          omega
        · split at hAfter <;> obtain ⟨h₁, h₂⟩ := Prod.mk.inj hAfter <;> omega
      · obtain ⟨h₁, h₂⟩ := Prod.mk.inj hAfter
        omega
    have hAccounted : StepAccounted stod p (.line line) ↔ ∀ r, p.repliesTo line = some r →
        ((p.step stod (.line line)).sharesAccepted, (p.step stod (.line line)).sharesRejected) =
          countReply r line p.sharesAccepted p.sharesRejected := by
      unfold StepAccounted
      refine ⟨fun h r => h.2.2 line r rfl, fun h => ⟨hGrow.1, hGrow.2, ?_⟩⟩
      rintro line' r ⟨⟩
      exact h r
    rw [hAccounted, hAfter]
    have hTruthful : StepTruthful p (.line line) ↔ ∀ r, p.repliesTo line = some r →
        match r with
        | .submit =>
          s.client.reachesSubmit line = true ∧ StratumClient.shareOk line = acceptsShare line ∧
            (acceptsShare line = false → getObject line (bytes "result") ≠ [])
        | _ =>
          s.client.reachesSubmit line = true →
            StratumClient.shareOk line = false ∧ getObject line (bytes "result") = [] := by
      unfold StepTruthful
      refine ⟨fun h r => h s r hs, fun h s' r hs' => ?_⟩
      obtain rfl : s' = s := Option.some.inj (hs'.symm.trans hs)
      exact h r
    rw [hTruthful]
    refine forall_congr' fun r => imp_congr_right fun _ => ?_
    have hEmpty : getObject line (bytes "result") = [] ↔
        (getObject line (bytes "result")).isEmpty = true := List.isEmpty_iff.symm
    -- the rest is a comparison of two decision tables
    rw [ne_eq, hEmpty]
    generalize s.client.reachesSubmit line = reaches
    generalize StratumClient.shareOk line = ok
    generalize (getObject line (bytes "result")).isEmpty = empty
    cases r with
    | submit =>
      unfold countReply
      dsimp only
      generalize acceptsShare line = accepts
      cases reaches <;> cases ok <;> cases empty <;> cases accepts <;> simp
    | handshake | authorize | keepalive =>
      cases reaches <;> cases ok <;> cases empty <;> simp [countReply]

theorem stepAccounted_iff (p : PoolManager) (e : Ev) :
    StepAccounted stod p e ↔ StepTruthful p e := by
  cases e with
  | connectToCurrent => exact stepAccounted_reset_iff stod p (.inl rfl)
  | disconnect => exact stepAccounted_reset_iff stod p (.inr rfl)
  | line line => exact stepAccounted_line_iff stod p line
  | handshake | setProtocol | authorize | submit | keepalive =>
    exact iff_of_true (stepAccounted_of_counters stod p (by rintro line ⟨⟩) rfl) trivial

/-- **A run is accounted for exactly when every event in it is truthful.** -/
theorem accounted_iff_truthful (p : PoolManager) (es : List Ev) :
    Along stod (StepAccounted stod) p es ↔ Along stod StepTruthful p es := by
  induction es generalizing p with
  | nil => exact Iff.rfl
  | cons e es ih => exact and_congr (stepAccounted_iff stod p e) (ih _)

/-! ## The size of the counters -/

/-- A line reaches the client. -/
def Ev.isLine : Ev → Bool
  | .line _ => true
  | _ => false

/-- An event counts at most one share, and only a line counts one. -/
theorem step_total_le (p : PoolManager) (e : Ev) :
    (p.step stod e).sharesAccepted + (p.step stod e).sharesRejected ≤
      p.sharesAccepted + p.sharesRejected + e.isLine.toNat := by
  have hOther {e : Ev} (hLine : ∀ line, e ≠ .line line)
      (hStep : p.step stod e = { p with stratum := p.stratum.map (·.step stod e) }) :
      (p.step stod e).sharesAccepted + (p.step stod e).sharesRejected ≤
        p.sharesAccepted + p.sharesRejected + e.isLine.toNat := by
    obtain ⟨hAccepted, hRejected⟩ := p.step_counters stod hLine hStep
    omega
  cases e with
  | connectToCurrent | disconnect => exact Nat.zero_le _
  | line line =>
    cases hs : p.stratum with
    | none => simp [PoolManager.sharesAccepted, PoolManager.sharesRejected, PoolManager.step, hs]
    | some s =>
      have hAfter := p.step_line stod hs line
      rw [Ev.isLine, Bool.toNat_true]
      split at hAfter
      · split at hAfter
        · obtain ⟨h₁, h₂⟩ := Prod.mk.inj hAfter
          omega
        · split at hAfter <;> obtain ⟨h₁, h₂⟩ := Prod.mk.inj hAfter <;> omega
      · obtain ⟨h₁, h₂⟩ := Prod.mk.inj hAfter
        omega
  | handshake | setProtocol | authorize | submit | keepalive =>
    exact hOther (by rintro line ⟨⟩) rfl

theorem run_total_le (p : PoolManager) (es : List Ev) :
    (es.foldl (PoolManager.step stod) p).sharesAccepted +
        (es.foldl (PoolManager.step stod) p).sharesRejected ≤
      p.sharesAccepted + p.sharesRejected + es.countP Ev.isLine := by
  induction es generalizing p with
  | nil => exact Nat.le_refl _
  | cons e es ih =>
    have hStep := step_total_le stod p e
    have hRest := ih (p.step stod e)
    rw [List.foldl_cons, List.countP_cons]
    cases he : e.isLine <;> simp only [he, Bool.toNat_false, Bool.toNat_true] at hStep <;>
      simp <;> omega

/-- **The counters do not wrap.** The `uint64_t` counters of the source are these
natural numbers in every run with fewer than `2 ^ 64` lines. -/
theorem counters_lt {p : PoolManager} (hNew : p.stratum = none) {es : List Ev}
    (hLines : es.countP Ev.isLine < 2 ^ 64) :
    (es.foldl (PoolManager.step stod) p).sharesAccepted < 2 ^ 64 ∧
      (es.foldl (PoolManager.step stod) p).sharesRejected < 2 ^ 64 := by
  have hTotal := run_total_le stod p es
  have hZero : p.sharesAccepted = 0 ∧ p.sharesRejected = 0 := by
    simp [PoolManager.sharesAccepted, PoolManager.sharesRejected, hNew]
  omega

end Run

/-! ## Replies as members and layout -/

section Layout

variable {trail : Space} {m : Members}

/-- `find_key` finds the id and the result of a reply, and the id is followed by
nothing that is taken for a part of it. -/
structure ReplyLayout (trail : Space) (m : Members) : Prop where
  id : looksUp (bytes "id") m (closeBrace :: trail.text) .free = true
  ends : rawEnds (gapBehind (bytes "id") m) = true
  result : looksUp (bytes "result") m (closeBrace :: trail.text) .free = true

/-- No string mentions a method or a keepalive, and the id is neither that of the
handshake nor that of the authorization. -/
def takenForShare (c : StratumClient) (m : Members) : Bool :=
  !m.anyString (mentions (bytes "method")) &&
    numberOf (m.lookup (bytes "id")) ≠ decimal c.handshakeReqId.toNat &&
    numberOf (m.lookup (bytes "id")) ≠ decimal c.authorizeReqId.toNat &&
    !m.anyString fun s => hasText (bytes "KEEPALIVED") s.text

theorem reachesSubmit_eq (c : StratumClient) (lead : Space) (h : ReplyLayout trail m) :
    c.reachesSubmit (lead.text ++ ((Doc.object m).text ++ trail.text)) = takenForShare c m := by
  have hMethod := hasText_quoted (⟨by decide, by decide, by decide⟩ : Word (bytes "method"))
    lead trail m
  have hId (n : Nat) :=
    (lookup_of_looksUp (by decide) lead trail h.id).getRaw_eq_decimal_iff (n := n) fun _ => h.ends
  have hQuoted : bytes "\"method\"" = quoted (bytes "method") := by decide
  unfold StratumClient.reachesSubmit takenForShare
  rw [hQuoted, hMethod, hasText_keepalived]
  simp only [ne_eq, hId]

/-- **Truthful replies.** What the code needs of the members of a reply and of
their layout. -/
theorem stepTruthful_layout_iff {p : PoolManager} {s : Session} (hs : p.stratum = some s)
    (lead : Space) (h : ReplyLayout trail m) :
    StepTruthful p (.line (lead.text ++ ((Doc.object m).text ++ trail.text))) ↔
      ∀ r, p.repliesTo (lead.text ++ ((Doc.object m).text ++ trail.text)) = some r →
        match r with
        | .submit =>
          takenForShare s.client m = true ∧
            compactOk m = acceptsShare (lead.text ++ ((Doc.object m).text ++ trail.text)) ∧
            (acceptsShare (lead.text ++ ((Doc.object m).text ++ trail.text)) = false →
              isStructure (m.lookup (bytes "result")) = true)
        | _ =>
          takenForShare s.client m = true →
            compactOk m = false ∧ isStructure (m.lookup (bytes "result")) = false := by
  have hResult := (lookup_of_looksUp (by decide) lead trail h.result).getObject_eq
  have hReaches := reachesSubmit_eq s.client lead h
  have hOk := shareOk_eq lead trail m
  -- a reply that is not accepted counts as rejected when `get_object` returns something
  have hEmpty : getObject (lead.text ++ ((Doc.object m).text ++ trail.text)) (bytes "result") = [] ↔
      isStructure (m.lookup (bytes "result")) = false := by
    rw [hResult, ← isEmpty_containerOf, Bool.not_eq_false', List.isEmpty_iff]
  unfold StepTruthful
  constructor
  · intro hTruthful r hr
    have hCase := hTruthful s r hs hr
    rw [hReaches, hOk, ne_eq, hEmpty, Bool.not_eq_false] at hCase
    exact hCase
  · intro hLayout s' r hs' hr
    obtain rfl : s' = s := Option.some.inj (hs'.symm.trans hs)
    rw [hReaches, hOk, ne_eq, hEmpty, Bool.not_eq_false]
    exact hLayout r hr

end Layout

/-- A refused share with a null result is counted nowhere. -/
theorem refusal_not_counted :
    let p := [Ev.connectToCurrent, .handshake, .submit {} 0 (Bytes32.ofNat 0)].foldl
      (PoolManager.step fun _ => none) { wallet := [], password := [] }
    let line := bytes "\x7b\"id\":2,\"result\":null,\"error\":\x7b\"code\":-1\x7d\x7d"
    p.repliesTo line = some .submit ∧ acceptsShare line = false ∧
      (p.step (fun _ => none) (.line line)).sharesAccepted = p.sharesAccepted ∧
      (p.step (fun _ => none) (.line line)).sharesRejected = p.sharesRejected := by
  decide +kernel

end ArmRx.Pool
