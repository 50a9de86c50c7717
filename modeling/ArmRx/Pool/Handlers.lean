import ArmRx.Pool.Messages

/-!
# Incoming lines

Embeds `handle_line` and the handlers behind it (`src/stratum_client.cpp`). A
handler returns the client it leaves, the jobs it hands to the job callback and
whether it throws; the only thing that throws is a handshake promise that is set
twice. Log messages are left out.

`std::stod` is a parameter: the bits of the double a text stands for, or nothing
when it throws.

* `handleLine_counters` — what a line does to the share counters.
-/

namespace ArmRx.Pool

open ArmRx.Lib ArmRx.Lib.Json ArmRx.Mining

/-! ## Searching a text -/

/-- The text from the first occurrence of `sub` on. -/
def findText (sub : Bytes) : Bytes → Option Bytes
  | [] => if sub.isEmpty then some [] else none
  | c :: rest => if sub.isPrefixOf (c :: rest) then some (c :: rest) else findText sub rest

/-- `line.find(sub) != std::string::npos`. -/
def hasText (sub line : Bytes) : Bool := (findText sub line).isSome

/-! ## Jobs -/

def kMinMoneroBlobBytes : Nat := 76
def kSeedHashBytes : Nat := 32

/-- `is_valid_hex`. -/
def isValidHex (s : Bytes) : Bool :=
  s.length % 2 = 0 && s.all fun c =>
    (ch '0' ≤ c && c ≤ ch '9') || (ch 'a' ≤ c && c ≤ ch 'f') || (ch 'A' ≤ c && c ≤ ch 'F')

/-- `valid_job_hex`. -/
def validJobHex (blobHex seedHex : Bytes) : Bool :=
  !(blobHex.length < 2 * kMinMoneroBlobBytes) && isValidHex blobHex &&
    !(!seedHex.isEmpty && seedHex.length ≠ 2 * kSeedHashBytes) &&
    !(!seedHex.isEmpty && !isValidHex seedHex)

/-- The bytes of a target, when there are 32 of them. -/
def toBytes32 (bs : Bytes) : Option Bytes32 := if h : bs.length = 32 then some ⟨bs, h⟩ else none

/-- The target an eight-digit compact target stands for. -/
def compactTarget (targetHex : Bytes) : Bytes32 :=
  let compact := hexToBytes targetHex
  if h : compact.length = 4 then ⟨List.replicate 28 0xff ++ compact, by simp [h]⟩
  else ⟨List.replicate 32 0xff, by simp⟩

/-- What handling a line does. -/
structure Outcome where
  client : StratumClient
  jobs : List Job := []
  throws : Bool := false
  deriving DecidableEq

namespace StratumClient

/-- `process_cryptonote_job`. -/
def processCryptonoteJob (c : StratumClient) (jobId blobHex targetHex seedHex : Bytes) : Outcome :=
  if jobId.isEmpty || blobHex.isEmpty then { client := c }
  else if !validJobHex blobHex seedHex then { client := c }
  else
    let target :=
      if targetHex.length = 8 then compactTarget targetHex
      else if targetHex.length = 64 then (toBytes32 (hexToBytes targetHex)).getD (Bytes32.ofNat 0)
      else c.currentTarget
    let job : Job :=
      { jobId, blockTemplate := hexToBytes blobHex, nonceOffset := c.nonceOffset,
        nonceSize := c.nonceSize, target,
        seedKey := if seedHex.isEmpty then [] else hexToBytes seedHex }
    { client := { c with currentTarget := target }, jobs := [job] }

/-- `handle_notify`. -/
def handleNotify (c : StratumClient) (line : Bytes) : Outcome :=
  let jobId := getArrayElement line (bytes "params") 0
  let blobHex := getArrayElement line (bytes "params") 1
  let tgtHex := getArrayElement line (bytes "params") 2
  let seedHex := getArrayElement line (bytes "params") 3
  if jobId.isEmpty || blobHex.isEmpty then { client := c }
  else if !validJobHex blobHex seedHex then { client := c }
  else
    let target := if tgtHex.length = 8 then compactTarget tgtHex else c.currentTarget
    let job : Job :=
      { jobId, blockTemplate := hexToBytes blobHex, nonceOffset := c.nonceOffset,
        nonceSize := c.nonceSize, target,
        seedKey := if seedHex.isEmpty then [] else hexToBytes seedHex }
    { client := c, jobs := [job] }

/-- `handle_set_target`. -/
def handleSetTarget (c : StratumClient) (line : Bytes) : Outcome :=
  let tgtHex := getArrayFirst line (bytes "params")
  if tgtHex.length ≠ 64 then { client := c }
  else { client := { c with
    currentTarget := (toBytes32 (hexToBytes tgtHex)).getD (Bytes32.ofNat 0) } }

/-- `handle_set_difficulty`. -/
def handleSetDifficulty (stod : Bytes → Option (BitVec 64)) (c : StratumClient) (line : Bytes) :
    Outcome :=
  let diffStr := getArrayFirst line (bytes "params")
  if diffStr.isEmpty then { client := c }
  else
    match stod diffStr with
    | none => { client := c }
    | some diff => { client := { c with
        currentTarget := Mining.StratumClient.difficultyToTarget diff } }

/-- `subscribe_done_.set_value(ok)` behind `subscribe_ok_ = ok`; setting the
promise again throws. -/
def finishHandshake (c : StratumClient) (ok : Bool) : Outcome :=
  let c := { c with subscribeOk := ok }
  match c.subscribeDone with
  | some _ => { client := c, throws := true }
  | none => { client := { c with subscribeDone := some ok } }

/-- Only the second setting of the promise throws. -/
theorem finishHandshake_throws (c : StratumClient) (ok : Bool) :
    (c.finishHandshake ok).throws = c.subscribeDone.isSome := by
  rw [finishHandshake]
  cases c.subscribeDone <;> rfl

/-- The string behind the next comma. -/
def extraNonceBehind (text : Bytes) : Bytes :=
  match text.dropWhile (· ≠ comma) with
  | [] => []
  | _ :: rest =>
    match rest.dropWhile (· = 0x20#8) with
    | [] => []
    | c :: rest => if c = quote then rest.takeWhile (· ≠ quote) else []

/-- The search for the extra nonce, from the word `"result"` on. -/
def extraNonceFrom (text : Bytes) : Bytes :=
  match text.dropWhile (· ≠ openBracket) with
  | [] => []
  | outer :: afterOuter =>
    let inner := afterOuter.dropWhile (· ≠ openBracket)
    let start := if inner.isEmpty then outer :: afterOuter else inner
    extraNonceBehind (start.dropWhile (· ≠ closeBracket))

/-- The search for the extra nonce in the reply to `mining.subscribe`. -/
def extraNonceIn (line : Bytes) : Bytes :=
  match findText (bytes "\"result\"") line with
  | none => []
  | some text => extraNonceFrom text

/-- The reply to the login request. -/
def handleLoginReply (c : StratumClient) (error result : Bytes) : Outcome :=
  if !error.isEmpty && error ≠ bytes "null" then finishHandshake c false
  else
    let o := finishHandshake { c with sessionId := getString result (bytes "id") } true
    if o.throws then o
    else
      let jobObj := getObject result (bytes "job")
      if jobObj.isEmpty then o
      else
        o.client.processCryptonoteJob (getString jobObj (bytes "job_id"))
          (getString jobObj (bytes "blob")) (getString jobObj (bytes "target"))
          (getString jobObj (bytes "seed_hash"))

/-- The reply to `mining.subscribe`. -/
def handleSubscribeReply (c : StratumClient) (error line : Bytes) : Outcome :=
  if !error.isEmpty && error ≠ bytes "null" then finishHandshake c false
  else
    let en1 := extraNonceIn line
    finishHandshake (if en1.isEmpty then c else { c with extraNonce1 := en1 }) true

/-- The texts that mark an accepted share. -/
def shareOk (line : Bytes) : Bool :=
  hasText (bytes "\"result\":true") line || hasText (bytes "\"result\":\"true\"") line ||
    hasText (bytes "\"status\":\"OK\"") line

/-- `handle_reply`. The reply to `mining.authorize` is only logged. -/
def handleReply (c : StratumClient) (line : Bytes) : Outcome :=
  let error := getObject line (bytes "error")
  let result := getObject line (bytes "result")
  let idStr := getRaw line (bytes "id")
  let isCryptonoteReply := hasText (bytes "\"jsonrpc\":\"2.0\"") line
  if idStr = decimal c.handshakeReqId.toNat then
    if isCryptonoteReply then handleLoginReply c error result
    else handleSubscribeReply c error line
  else if idStr = decimal c.authorizeReqId.toNat then { client := c }
  else if hasText (bytes "KEEPALIVED") line then { client := c }
  else if shareOk line then { client := { c with sharesAccepted := c.sharesAccepted + 1 } }
  else if !result.isEmpty && result ≠ bytes "null" then
    { client := { c with sharesRejected := c.sharesRejected + 1 } }
  else { client := c }

/-- `handle_line`. -/
def handleLine (stod : Bytes → Option (BitVec 64)) (c : StratumClient) (line : Bytes) : Outcome :=
  if hasText (bytes "\"method\"") line then
    let method := getString line (bytes "method")
    if method = bytes "mining.notify" then handleNotify c line
    else if method = bytes "mining.set_target" then handleSetTarget c line
    else if method = bytes "mining.set_difficulty" then handleSetDifficulty stod c line
    else if method = bytes "mining.set_extranonce" then
      let en1 := getArrayFirst line (bytes "params")
      { client := if en1.isEmpty then c else { c with extraNonce1 := en1 } }
    else if method = bytes "job" then
      let paramsObj := getObject line (bytes "params")
      c.processCryptonoteJob (getString paramsObj (bytes "job_id"))
        (getString paramsObj (bytes "blob")) (getString paramsObj (bytes "target"))
        (getString paramsObj (bytes "seed_hash"))
    else { client := c }
  else handleReply c line

/-! ## Share counters -/

/-- The accepted and the rejected shares. -/
def counters (c : StratumClient) : Nat × Nat := (c.sharesAccepted, c.sharesRejected)

theorem processCryptonoteJob_counters (c : StratumClient) (jobId blobHex targetHex seedHex : Bytes) :
    (c.processCryptonoteJob jobId blobHex targetHex seedHex).client.counters = c.counters := by
  unfold processCryptonoteJob
  split
  · rfl
  · split <;> rfl

theorem finishHandshake_counters (c : StratumClient) (ok : Bool) :
    (c.finishHandshake ok).client.counters = c.counters := by
  unfold finishHandshake
  dsimp only
  split <;> rfl

theorem handleLoginReply_counters (c : StratumClient) (error result : Bytes) :
    (c.handleLoginReply error result).client.counters = c.counters := by
  unfold handleLoginReply
  dsimp only
  split
  · exact finishHandshake_counters c false
  · have hDone : (finishHandshake { c with sessionId := getString result (bytes "id") }
        true).client.counters = c.counters := finishHandshake_counters _ _
    split
    · exact hDone
    · split
      · exact hDone
      · exact (processCryptonoteJob_counters _ _ _ _ _).trans hDone

theorem handleSubscribeReply_counters (c : StratumClient) (error line : Bytes) :
    (c.handleSubscribeReply error line).client.counters = c.counters := by
  unfold handleSubscribeReply
  dsimp only
  split
  · exact finishHandshake_counters c false
  · refine (finishHandshake_counters _ _).trans ?_
    split <;> rfl

theorem handleNotify_counters (c : StratumClient) (line : Bytes) :
    (c.handleNotify line).client.counters = c.counters := by
  unfold handleNotify
  dsimp only
  split
  · rfl
  · split <;> rfl

theorem handleSetTarget_counters (c : StratumClient) (line : Bytes) :
    (c.handleSetTarget line).client.counters = c.counters := by
  unfold handleSetTarget
  dsimp only
  split <;> rfl

theorem handleSetDifficulty_counters (stod : Bytes → Option (BitVec 64)) (c : StratumClient)
    (line : Bytes) : (c.handleSetDifficulty stod line).client.counters = c.counters := by
  unfold handleSetDifficulty
  dsimp only
  split
  · rfl
  · split <;> rfl

/-- Notifications leave the counters alone. -/
theorem handleLine_method_counters (stod : Bytes → Option (BitVec 64)) (c : StratumClient)
    (line : Bytes) (hMethod : hasText (bytes "\"method\"") line = true) :
    (c.handleLine stod line).client.counters = c.counters := by
  unfold handleLine
  rw [if_pos hMethod]
  dsimp only
  split
  · exact handleNotify_counters c line
  split
  · exact handleSetTarget_counters c line
  split
  · exact handleSetDifficulty_counters stod c line
  split
  · split <;> rfl
  split
  · exact processCryptonoteJob_counters _ _ _ _ _
  · rfl

/-- The line is taken for the reply to a submitted share. -/
def reachesSubmit (c : StratumClient) (line : Bytes) : Bool :=
  !hasText (bytes "\"method\"") line && getRaw line (bytes "id") ≠ decimal c.handshakeReqId.toNat &&
    getRaw line (bytes "id") ≠ decimal c.authorizeReqId.toNat && !hasText (bytes "KEEPALIVED") line

/-- An extracted object is no literal. -/
theorem getObject_ne_null (json key : Bytes) : getObject json key ≠ bytes "null" := by
  unfold getObject
  split
  · decide
  · split
    · decide
    · split
      · rename_i hc
        exact fun h => absurd (hc.symm.trans (List.cons.inj h).1) (by decide)
      · split
        · rename_i hc
          exact fun h => absurd (hc.symm.trans (List.cons.inj h).1) (by decide)
        · decide

/-- **What a line does to the share counters.** -/
theorem handleLine_counters (stod : Bytes → Option (BitVec 64)) (c : StratumClient)
    (line : Bytes) :
    (c.handleLine stod line).client.counters =
      if c.reachesSubmit line then
        if shareOk line then (c.sharesAccepted + 1, c.sharesRejected)
        else if (getObject line (bytes "result")).isEmpty then c.counters
        else (c.sharesAccepted, c.sharesRejected + 1)
      else c.counters := by
  by_cases hMethod : hasText (bytes "\"method\"") line = true
  · rw [handleLine_method_counters stod c line hMethod, reachesSubmit, hMethod]
    rfl
  rw [Bool.not_eq_true] at hMethod
  rw [handleLine, hMethod, if_neg Bool.false_ne_true, handleReply]
  by_cases hHandshake : getRaw line (bytes "id") = decimal c.handshakeReqId.toNat
  · have hReaches : c.reachesSubmit line = false := by simp [reachesSubmit, hHandshake]
    rw [if_pos hHandshake, hReaches, if_neg Bool.false_ne_true]
    split
    · exact handleLoginReply_counters _ _ _
    · exact handleSubscribeReply_counters _ _ _
  rw [if_neg hHandshake]
  by_cases hAuthorize : getRaw line (bytes "id") = decimal c.authorizeReqId.toNat
  · have hReaches : c.reachesSubmit line = false := by simp [reachesSubmit, hAuthorize]
    rw [if_pos hAuthorize, hReaches]
    rfl
  rw [if_neg hAuthorize]
  by_cases hKeepalive : hasText (bytes "KEEPALIVED") line = true
  · have hReaches : c.reachesSubmit line = false := by simp [reachesSubmit, hKeepalive]
    rw [if_pos hKeepalive, hReaches]
    rfl
  have hReaches : c.reachesSubmit line = true := by
    simp [reachesSubmit, hMethod, hHandshake, hAuthorize, hKeepalive]
  rw [if_neg hKeepalive, if_pos hReaches]
  by_cases hOk : shareOk line = true
  · rw [if_pos hOk, if_pos hOk]
    rfl
  rw [if_neg hOk, if_neg hOk]
  by_cases hResult : (getObject line (bytes "result")).isEmpty = true
  · rw [hResult]
    rfl
  · rw [Bool.not_eq_true] at hResult
    rw [hResult, if_pos (by simp [getObject_ne_null]), if_neg Bool.false_ne_true]
    rfl

end StratumClient

end ArmRx.Pool
