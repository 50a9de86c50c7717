import ArmRx.Pool.ExtraNonce

/-!
# Lines and the values they spell

`handle_line` reads a line through a fixed set of questions: the extractors of
`json.cpp` and a few substring searches. `Probes` is one answer to each of them,
`probes` what the code answers from the text and `docProbes` what the JSON value
says. The value's answers do not depend on white space or member order, the
text's do.

Which questions matter depends on the answers: `questions` lists them in the
order the handler comes to them. For each one `readable` is the condition on the
members and the layout of the line under which the text answers like the value.

* `probes_of_readable` — from a readable line every question is answered right.
* `handleLine_serialisations` — two serialisations of one object are handled
  alike when both are readable as far as the handler asks.
-/

namespace ArmRx.Pool

open ArmRx.Lib ArmRx.Lib.Json ArmRx.Mining

/-! ## The questions -/

/-- What `handle_line` asks of a line. -/
structure Probes where
  /-- the line has a method, and its name -/
  hasMethod : Bool
  method : Bytes
  /-- the elements of `params`, its first element as `get_array_first` gives it,
  and its string members -/
  element : Nat → Bytes
  first : Bytes
  param : Bytes → Bytes
  id : Bytes
  cryptonote : Bool
  /-- the error, and the result, is an object or array -/
  error : Bool
  result : Bool
  /-- the session id, the job and the string members of the job in a result -/
  sessionId : Bytes
  hasJob : Bool
  jobField : Bytes → Bytes
  extraNonce : Bytes
  keepalived : Bool
  shareOk : Bool

/-- The answers of the code. -/
def probes (line : Bytes) : Probes where
  hasMethod := hasText (bytes "\"method\"") line
  method := getString line (bytes "method")
  element := getArrayElement line (bytes "params")
  first := getArrayFirst line (bytes "params")
  param := getString (getObject line (bytes "params"))
  id := getRaw line (bytes "id")
  cryptonote := hasText (bytes "\"jsonrpc\":\"2.0\"") line
  error := !(getObject line (bytes "error")).isEmpty
  result := !(getObject line (bytes "result")).isEmpty
  sessionId := getString (getObject line (bytes "result")) (bytes "id")
  hasJob := !(getObject (getObject line (bytes "result")) (bytes "job")).isEmpty
  jobField := getString (getObject (getObject line (bytes "result")) (bytes "job"))
  extraNonce := StratumClient.extraNonceIn line
  keepalived := hasText (bytes "KEEPALIVED") line
  shareOk := StratumClient.shareOk line

/-! ## The handler on answers -/

namespace StratumClient

variable (stod : Bytes → Option (BitVec 64))

/-- A job message whose fields are `field`. -/
def answerJob (c : StratumClient) (field : Bytes → Bytes) : Outcome :=
  c.processCryptonoteJob (field (bytes "job_id")) (field (bytes "blob")) (field (bytes "target"))
    (field (bytes "seed_hash"))

/-- A notification with these fields. -/
def answerNotify (c : StratumClient) (jobId blobHex tgtHex seedHex : Bytes) : Outcome :=
  if jobId.isEmpty || blobHex.isEmpty then { client := c }
  else if !validJobHex blobHex seedHex then { client := c }
  else
    { client := c
      jobs := [{
        jobId, blockTemplate := hexToBytes blobHex, nonceOffset := c.nonceOffset,
        nonceSize := c.nonceSize,
        target := if tgtHex.length = 8 then compactTarget tgtHex else c.currentTarget,
        seedKey := if seedHex.isEmpty then [] else hexToBytes seedHex }] }

def answerTarget (c : StratumClient) (tgtHex : Bytes) : Outcome :=
  if tgtHex.length ≠ 64 then { client := c }
  else { client := { c with
    currentTarget := (toBytes32 (hexToBytes tgtHex)).getD (Bytes32.ofNat 0) } }

def answerDifficulty (c : StratumClient) (diffStr : Bytes) : Outcome :=
  if diffStr.isEmpty then { client := c }
  else
    match stod diffStr with
    | none => { client := c }
    | some diff => { client := { c with
        currentTarget := Mining.StratumClient.difficultyToTarget diff } }

def answerLogin (c : StratumClient) (p : Probes) : Outcome :=
  if p.error then finishHandshake c false
  else
    let o := finishHandshake { c with sessionId := p.sessionId } true
    if o.throws then o
    else if p.hasJob then o.client.answerJob p.jobField
    else o

def answerSubscribe (c : StratumClient) (p : Probes) : Outcome :=
  if p.error then finishHandshake c false
  else finishHandshake (if p.extraNonce.isEmpty then c else { c with extraNonce1 := p.extraNonce })
    true

def answerReply (c : StratumClient) (p : Probes) : Outcome :=
  if p.id = decimal c.handshakeReqId.toNat then
    if p.cryptonote then answerLogin c p else answerSubscribe c p
  else if p.id = decimal c.authorizeReqId.toNat then { client := c }
  else if p.keepalived then { client := c }
  else if p.shareOk then { client := { c with sharesAccepted := c.sharesAccepted + 1 } }
  else if p.result then { client := { c with sharesRejected := c.sharesRejected + 1 } }
  else { client := c }

/-- `handle_line`, given the answers. -/
def answer (c : StratumClient) (p : Probes) : Outcome :=
  if p.hasMethod then
    if p.method = bytes "mining.notify" then
      answerNotify c (p.element 0) (p.element 1) (p.element 2) (p.element 3)
    else if p.method = bytes "mining.set_target" then answerTarget c p.first
    else if p.method = bytes "mining.set_difficulty" then answerDifficulty stod c p.first
    else if p.method = bytes "mining.set_extranonce" then
      { client := if p.first.isEmpty then c else { c with extraNonce1 := p.first } }
    else if p.method = bytes "job" then answerJob c p.param
    else { client := c }
  else answerReply c p

theorem error_test (json key : Bytes) :
    (!(getObject json key).isEmpty && decide (getObject json key ≠ bytes "null")) =
      !(getObject json key).isEmpty := by
  simp [getObject_ne_null]

theorem handleLoginReply_eq (c : StratumClient) (line : Bytes) :
    c.handleLoginReply (getObject line (bytes "error")) (getObject line (bytes "result")) =
      c.answerLogin (probes line) := by
  unfold handleLoginReply answerLogin
  rw [error_test]
  refine ite_congr rfl (fun _ => rfl) fun _ => ?_
  dsimp only
  refine ite_congr rfl (fun _ => rfl) fun _ => ?_
  cases hJob : (getObject (getObject line (bytes "result")) (bytes "job")).isEmpty with
  | true =>
    have hHas : (probes line).hasJob = false := by simp [probes, hJob]
    rw [hHas]
    rfl
  | false =>
    have hHas : (probes line).hasJob = true := by simp [probes, hJob]
    rw [hHas]
    rfl

theorem handleSubscribeReply_eq (c : StratumClient) (line : Bytes) :
    c.handleSubscribeReply (getObject line (bytes "error")) line =
      c.answerSubscribe (probes line) := by
  unfold handleSubscribeReply answerSubscribe
  rw [error_test]
  rfl

/-- The handler sees the line only through its questions. -/
theorem handleLine_eq_answer (c : StratumClient) (line : Bytes) :
    c.handleLine stod line = c.answer stod (probes line) := by
  have hReply : c.handleReply line = c.answerReply (probes line) := by
    unfold handleReply answerReply
    dsimp only
    rw [handleLoginReply_eq, handleSubscribeReply_eq, error_test]
    rfl
  unfold handleLine answer
  rw [hReply]
  rfl

end StratumClient

/-! ## What the value says -/

/-- The string has that value. -/
def isString (s : Bytes) (v : Option Doc) : Bool :=
  match v with
  | some (.string t) => t.decode = s
  | _ => false

def isTrue : Option Doc → Bool
  | some (.scalar (.bool b)) => b
  | _ => false

/-- The answers of the value. -/
def docProbes (m : Members) : Probes where
  hasMethod := (m.lookup (bytes "method")).isSome
  method := stringOf (m.lookup (bytes "method"))
  element := fun index => elementOf index (m.lookup (bytes "params"))
  first := firstOf (m.lookup (bytes "params"))
  param := fun key => stringOf (memberOf key (m.lookup (bytes "params")))
  id := numberOf (m.lookup (bytes "id"))
  cryptonote := isString (bytes "2.0") (m.lookup (bytes "jsonrpc"))
  error := isStructure (m.lookup (bytes "error"))
  result := isStructure (m.lookup (bytes "result"))
  sessionId := stringOf (memberOf (bytes "id") (m.lookup (bytes "result")))
  hasJob := isStructure (memberOf (bytes "job") (m.lookup (bytes "result")))
  jobField := fun key =>
    stringOf (memberOf key (memberOf (bytes "job") (m.lookup (bytes "result"))))
  extraNonce := secondOf (m.lookup (bytes "result"))
  keepalived := m.anyString fun s => hasText (bytes "KEEPALIVED") s.text
  shareOk := isTrue (m.lookup (bytes "result")) ||
    isString (bytes "true") (m.lookup (bytes "result")) ||
    isString (bytes "OK") (memberOf (bytes "status") (m.lookup (bytes "result")))

section Steps

variable {v w : Option Doc}

theorem stringOf_congr (h : StepOrEq v w) : stringOf v = stringOf w :=
  h.eq fun h => by cases h <;> rfl

theorem itemAt_step : {i j : Items} → ItemsStep i j → (index : Nat) →
    itemAt i index = itemAt j index
  | _, _, .nil .., _ => rfl
  | _, _, .space _ _ v _ _ _, 0 => by cases v <;> rfl
  | _, _, .space _ _ v _ _ _, _ + 1 => by cases v <;> rfl
  | _, _, .value _ _ _ h, 0 => by cases h <;> rfl
  | _, _, .value _ _ _ h, _ + 1 => by cases h <;> rfl
  | _, _, .rest _ _ v h, 0 => by cases v <;> rfl
  | _, _, .rest _ _ v h, index + 1 => by cases v <;> exact itemAt_step h index

theorem elementOf_congr (h : StepOrEq v w) (index : Nat) :
    elementOf index v = elementOf index w :=
  h.eq fun h => by
    cases h with
    | array h => exact itemAt_step h index
    | object h => rfl

theorem firstOf_congr (h : StepOrEq v w) : firstOf v = firstOf w :=
  h.eq fun h => by
    cases h with
    | object h => rfl
    | array h =>
      cases h with
      | nil => rfl
      | space _ _ v => cases v <;> rfl
      | value _ _ _ h => cases h <;> rfl
      | rest _ _ v => cases v <;> rfl

theorem secondOf_congr (h : StepOrEq v w) : secondOf v = secondOf w :=
  h.eq fun h => by
    cases h with
    | object h => rfl
    | array h =>
      cases h with
      | nil => rfl
      | space _ _ v _ _ i =>
        cases i with
        | nil => rfl
        | cons _ u => cases u <;> rfl
      | value _ _ i h =>
        cases i with
        | nil => rfl
        | cons _ u => cases u <;> rfl
      | rest _ _ v h =>
        cases h with
        | nil => rfl
        | space _ _ u => cases u <;> rfl
        | value _ _ _ h => cases h <;> rfl
        | rest _ _ u => cases u <;> rfl

theorem memberOf_congr (h : StepOrEq v w) (key : Bytes) :
    StepOrEq (memberOf key v) (memberOf key w) := by
  rcases h with rfl | ⟨v, w, rfl, rfl, h⟩
  · exact .inl rfl
  · cases h with
    | array h => exact .inl rfl
    | object h => exact lookup_step key h

theorem numberOf_congr (h : StepOrEq v w) : numberOf v = numberOf w :=
  h.eq fun h => by cases h <;> rfl

theorem isStructure_congr (h : StepOrEq v w) : isStructure v = isStructure w :=
  h.eq fun h => by cases h <;> rfl

theorem isString_congr (h : StepOrEq v w) (s : Bytes) : isString s v = isString s w :=
  h.eq fun h => by cases h <;> rfl

theorem isTrue_congr (h : StepOrEq v w) : isTrue v = isTrue w :=
  h.eq fun h => by cases h <;> rfl

theorem isSome_congr (h : StepOrEq v w) : v.isSome = w.isSome := h.eq fun _ => rfl

end Steps

/-- The answers of the value do not depend on the layout or the order of
members. -/
theorem docProbes_step {m n : Members} (h : MembersStep m n) : docProbes m = docProbes n := by
  have hLookup (key : Bytes) : StepOrEq (m.lookup key) (n.lookup key) := lookup_step key h
  have hResult := hLookup (bytes "result")
  have hJob := memberOf_congr hResult (bytes "job")
  have hParams := hLookup (bytes "params")
  unfold docProbes
  rw [Probes.mk.injEq]
  refine ⟨isSome_congr (hLookup _), stringOf_congr (hLookup _), funext (elementOf_congr hParams),
    firstOf_congr hParams, funext fun key => stringOf_congr (memberOf_congr hParams key),
    numberOf_congr (hLookup _), isString_congr (hLookup _) _, isStructure_congr (hLookup _),
    isStructure_congr hResult, stringOf_congr (memberOf_congr hResult _), isStructure_congr hJob,
    funext fun key => stringOf_congr (memberOf_congr hJob key), secondOf_congr hResult,
    Members.anyString_step _ h, ?_⟩
  rw [isTrue_congr hResult, isString_congr hResult, isString_congr (memberOf_congr hResult _)]

/-! ## The questions that matter -/

/-- The strings of a job. -/
inductive JobField where
  | jobId | blob | target | seedHash
  deriving DecidableEq, Repr

def JobField.name : JobField → Bytes
  | .jobId => bytes "job_id"
  | .blob => bytes "blob"
  | .target => bytes "target"
  | .seedHash => bytes "seed_hash"

theorem JobField.name_plain (f : JobField) : ∀ b ∈ f.name, isPlain b = true := by
  cases f <;> decide

/-- A question to a line. -/
inductive Question where
  | hasMethod | method
  | element (index : Nat)
  | first
  | param (field : JobField)
  /-- is the id this number? -/
  | id (n : Nat)
  | cryptonote | error | result | sessionId | hasJob
  | jobField (field : JobField)
  | extraNonce | keepalived | shareOk
  deriving DecidableEq, Repr

/-- `p` answers the question like `q`. -/
def SameAnswer (p q : Probes) : Question → Prop
  | .hasMethod => p.hasMethod = q.hasMethod
  | .method => p.method = q.method
  | .element index => p.element index = q.element index
  | .first => p.first = q.first
  | .param field => p.param field.name = q.param field.name
  | .id n => p.id = decimal n ↔ q.id = decimal n
  | .cryptonote => p.cryptonote = q.cryptonote
  | .error => p.error = q.error
  | .result => p.result = q.result
  | .sessionId => p.sessionId = q.sessionId
  | .hasJob => p.hasJob = q.hasJob
  | .jobField field => p.jobField field.name = q.jobField field.name
  | .extraNonce => p.extraNonce = q.extraNonce
  | .keepalived => p.keepalived = q.keepalived
  | .shareOk => p.shareOk = q.shareOk

/-- A job is dropped without an id or a template, and then when they or the seed
hash are malformed; the target of a dropped job does not matter. -/
def jobQuestions (jobId blob seed target : Question) (jobIdText blobHex seedHex : Bytes) :
    List Question :=
  jobId :: if jobIdText.isEmpty then [] else
    blob :: if blobHex.isEmpty then [] else
      seed :: if validJobHex blobHex seedHex then [target] else []

/-- The questions about a notification. -/
def methodQuestions (q : Probes) : List Question :=
  if q.method = bytes "mining.notify" then
    jobQuestions (.element 0) (.element 1) (.element 3) (.element 2) (q.element 0) (q.element 1)
      (q.element 3)
  else if q.method = bytes "mining.set_target" then [.first]
  else if q.method = bytes "mining.set_difficulty" then [.first]
  else if q.method = bytes "mining.set_extranonce" then [.first]
  else if q.method = bytes "job" then
    jobQuestions (.param .jobId) (.param .blob) (.param .seedHash) (.param .target)
      (q.param (bytes "job_id")) (q.param (bytes "blob")) (q.param (bytes "seed_hash"))
  else []

namespace StratumClient

/-- The questions about the reply to a login or subscription. Once the handshake
promise is set, setting it again throws before the job is looked at. -/
def handshakeQuestions (c : StratumClient) (q : Probes) : List Question :=
  .cryptonote :: .error :: if q.error then [] else
    if q.cryptonote then
      .sessionId :: if c.subscribeDone.isSome then [] else
        .hasJob :: if q.hasJob then
          jobQuestions (.jobField .jobId) (.jobField .blob) (.jobField .seedHash)
            (.jobField .target) (q.jobField (bytes "job_id")) (q.jobField (bytes "blob"))
            (q.jobField (bytes "seed_hash"))
        else []
    else [.extraNonce]

/-- The questions about a reply. -/
def replyQuestions (c : StratumClient) (q : Probes) : List Question :=
  .id c.handshakeReqId.toNat :: if q.id = decimal c.handshakeReqId.toNat then c.handshakeQuestions q
    else .id c.authorizeReqId.toNat :: if q.id = decimal c.authorizeReqId.toNat then [] else
      .keepalived :: if q.keepalived then [] else
        .shareOk :: if q.shareOk then [] else [.result]

/-- The questions the handler comes to when the answers are `q`. -/
def questions (c : StratumClient) (q : Probes) : List Question :=
  .hasMethod :: if q.hasMethod then .method :: methodQuestions q else c.replyQuestions q

end StratumClient

section Congruence

variable (c : StratumClient) {p q : Probes}

/-- A handler that drops a job with an empty or malformed field treats jobs alike
whose fields are answered alike as far as they matter. -/
theorem job_congr {F : Bytes → Bytes → Bytes → Bytes → Outcome} {drop : Outcome}
    (hDrop : ∀ i b t s, (i.isEmpty || b.isEmpty || !validJobHex b s) = true → F i b t s = drop)
    {jobId blob seed target : Question} {i b t s i' b' t' s' : Bytes}
    (h : ∀ x ∈ jobQuestions jobId blob seed target i' b' s', SameAnswer p q x)
    (hi : SameAnswer p q jobId → i = i') (hb : SameAnswer p q blob → b = b')
    (hs : SameAnswer p q seed → s = s') (ht : SameAnswer p q target → t = t') :
    F i b t s = F i' b' t' s' := by
  unfold jobQuestions at h
  rw [List.forall_mem_cons] at h
  rw [hi h.1]
  cases hId : i'.isEmpty with
  | true => rw [hDrop _ _ _ _ (by simp [hId]), hDrop _ _ _ _ (by simp [hId])]
  | false =>
    rw [hId, if_neg Bool.false_ne_true, List.forall_mem_cons] at h
    rw [hb h.2.1]
    cases hBlob : b'.isEmpty with
    | true => rw [hDrop _ _ _ _ (by simp [hBlob]), hDrop _ _ _ _ (by simp [hBlob])]
    | false =>
      rw [hBlob, if_neg Bool.false_ne_true, List.forall_mem_cons] at h
      rw [hs h.2.2.1]
      cases hValid : validJobHex b' s' with
      | false => rw [hDrop _ _ _ _ (by simp [hValid]), hDrop _ _ _ _ (by simp [hValid])]
      | true =>
        rw [hValid, if_pos rfl, List.forall_mem_singleton] at h
        rw [ht h.2.2.2]

theorem processCryptonoteJob_drop (i b t s : Bytes)
    (h : (i.isEmpty || b.isEmpty || !validJobHex b s) = true) :
    c.processCryptonoteJob i b t s = { client := c } := by
  unfold StratumClient.processCryptonoteJob
  cases hEmpty : i.isEmpty || b.isEmpty with
  | true => rfl
  | false =>
    rw [hEmpty, Bool.false_or] at h
    rw [h]
    rfl

theorem answerNotify_drop (i b t s : Bytes)
    (h : (i.isEmpty || b.isEmpty || !validJobHex b s) = true) :
    c.answerNotify i b t s = { client := c } := by
  unfold StratumClient.answerNotify
  cases hEmpty : i.isEmpty || b.isEmpty with
  | true => rfl
  | false =>
    rw [hEmpty, Bool.false_or] at h
    rw [h]
    rfl

theorem answerJob_congr {f g : Bytes → Bytes} {ask : JobField → Question}
    (h : ∀ x ∈ jobQuestions (ask .jobId) (ask .blob) (ask .seedHash) (ask .target)
      (g (bytes "job_id")) (g (bytes "blob")) (g (bytes "seed_hash")), SameAnswer p q x)
    (hAsk : ∀ field, SameAnswer p q (ask field) → f field.name = g field.name) :
    c.answerJob f = c.answerJob g :=
  job_congr (processCryptonoteJob_drop c) h (hAsk .jobId) (hAsk .blob) (hAsk .seedHash)
    (hAsk .target)

theorem answerMethod_congr (stod : Bytes → Option (BitVec 64)) (hp : p.hasMethod = true)
    (hq : q.hasMethod = true) (hMethod : p.method = q.method)
    (h : ∀ x ∈ methodQuestions q, SameAnswer p q x) : c.answer stod p = c.answer stod q := by
  unfold StratumClient.answer
  rw [hp, hq, if_pos rfl, if_pos rfl, hMethod]
  unfold methodQuestions at h
  -- the same chain of methods on both sides and in the list of questions
  split
  · rename_i hName
    rw [if_pos hName] at h
    exact job_congr (answerNotify_drop c) h id id id id
  rename_i hName
  rw [if_neg hName] at h
  clear hName
  split
  · rename_i hName
    rw [if_pos hName, List.forall_mem_singleton] at h
    rw [show p.first = q.first from h]
  rename_i hName
  rw [if_neg hName] at h
  clear hName
  split
  · rename_i hName
    rw [if_pos hName, List.forall_mem_singleton] at h
    rw [show p.first = q.first from h]
  rename_i hName
  rw [if_neg hName] at h
  clear hName
  split
  · rename_i hName
    rw [if_pos hName, List.forall_mem_singleton] at h
    rw [show p.first = q.first from h]
  rename_i hName
  rw [if_neg hName] at h
  clear hName
  split
  · rename_i hName
    rw [if_pos hName] at h
    exact answerJob_congr c h fun _ => id
  · rfl

theorem answerHandshake_congr (h : ∀ x ∈ c.handshakeQuestions q, SameAnswer p q x) :
    (if p.cryptonote then c.answerLogin p else c.answerSubscribe p) =
      if q.cryptonote then c.answerLogin q else c.answerSubscribe q := by
  unfold StratumClient.handshakeQuestions at h
  rw [List.forall_mem_cons, List.forall_mem_cons] at h
  obtain ⟨hCryptonote, hError, h⟩ := h
  rw [show p.cryptonote = q.cryptonote from hCryptonote]
  unfold StratumClient.answerLogin StratumClient.answerSubscribe
  rw [show p.error = q.error from hError]
  cases hErr : q.error with
  | true => rfl
  | false =>
    -- each answer decides which question comes next, so `h` is unfolded on the way
    rw [hErr, if_neg Bool.false_ne_true] at h
    cases hCn : q.cryptonote with
    | false =>
      rw [hCn, if_neg Bool.false_ne_true, List.forall_mem_singleton] at h
      rw [show p.extraNonce = q.extraNonce from h]
      rfl
    | true =>
      rw [hCn, if_pos rfl, List.forall_mem_cons] at h
      rw [show p.sessionId = q.sessionId from h.1]
      replace h := h.2
      simp only [if_true, Bool.false_eq_true, if_false]
      rw [StratumClient.finishHandshake_throws]
      -- setting the promise twice throws before the job is looked at
      cases hDone : c.subscribeDone.isSome with
      | true => rfl
      | false =>
        rw [hDone, if_neg Bool.false_ne_true, List.forall_mem_cons] at h
        rw [show p.hasJob = q.hasJob from h.1]
        cases hJob : q.hasJob with
        | false => rfl
        | true =>
          rw [hJob, if_pos rfl] at h
          rw [answerJob_congr _ h.2 fun _ => id]

theorem answerReply_congr (h : ∀ x ∈ c.replyQuestions q, SameAnswer p q x) :
    c.answerReply p = c.answerReply q := by
  unfold StratumClient.replyQuestions at h
  rw [List.forall_mem_cons] at h
  obtain ⟨hHandshake, h⟩ := h
  unfold StratumClient.answerReply
  by_cases hId : q.id = decimal c.handshakeReqId.toNat
  · rw [if_pos hId] at h
    rw [if_pos hId, if_pos (hHandshake.mpr hId)]
    exact answerHandshake_congr c h
  rw [if_neg hId, List.forall_mem_cons] at h
  obtain ⟨hAuthorize, h⟩ := h
  rw [if_neg hId, if_neg (mt hHandshake.mp hId)]
  by_cases hAuth : q.id = decimal c.authorizeReqId.toNat
  · rw [if_pos hAuth, if_pos (hAuthorize.mpr hAuth)]
  rw [if_neg hAuth, List.forall_mem_cons] at h
  obtain ⟨hKeepalive, h⟩ := h
  rw [if_neg hAuth, if_neg (mt hAuthorize.mp hAuth),
    show p.keepalived = q.keepalived from hKeepalive]
  cases hKeep : q.keepalived with
  | true => rfl
  | false =>
    rw [hKeep, if_neg Bool.false_ne_true, List.forall_mem_cons] at h
    rw [show p.shareOk = q.shareOk from h.1]
    cases hOk : q.shareOk with
    | true => rfl
    | false =>
      rw [hOk, if_neg Bool.false_ne_true, List.forall_mem_singleton] at h
      rw [show p.result = q.result from h.2]

/-- Answers that agree where they are asked for lead to the same outcome. -/
theorem answer_congr (stod : Bytes → Option (BitVec 64))
    (h : ∀ x ∈ c.questions q, SameAnswer p q x) : c.answer stod p = c.answer stod q := by
  unfold StratumClient.questions at h
  rw [List.forall_mem_cons] at h
  obtain ⟨hMethod, h⟩ := h
  cases hq : q.hasMethod with
  | true =>
    rw [hq, if_pos rfl, List.forall_mem_cons] at h
    exact answerMethod_congr c stod (hMethod.trans hq) hq h.1 h.2
  | false =>
    rw [hq, if_neg Bool.false_ne_true] at h
    unfold StratumClient.answer
    rw [show p.hasMethod = false from hMethod.trans hq, hq]
    exact answerReply_congr c h

end Congruence

/-! ## Readable lines -/

section Readable

variable (m : Members) (trail : Space)

/-- `find_key` finds what a parser would on the line of `m`. -/
def finds (key : Bytes) : Bool := looksUp key m (closeBrace :: trail.text) .free

/-- The members and the layout of the line let the text answer the question like
the value. -/
def readable : Question → Bool
  | .hasMethod => m.anyString (mentions (bytes "method")) = (m.lookup (bytes "method")).isSome
  | .method => finds m trail (bytes "method")
  | .element index =>
    finds m trail (bytes "params") && elementReadable index (m.lookup (bytes "params"))
  | .first => finds m trail (bytes "params") && elementReadable 0 (m.lookup (bytes "params"))
  | .param field =>
    finds m trail (bytes "params") && looksUpIn field.name (m.lookup (bytes "params"))
  | .id n =>
    finds m trail (bytes "id") &&
      (numberOf (m.lookup (bytes "id")) ≠ decimal n || rawEnds (gapBehind (bytes "id") m))
  | .cryptonote =>
    anyCompact (bytes "jsonrpc") (quoted (bytes "2.0")) m =
      isString (bytes "2.0") (m.lookup (bytes "jsonrpc"))
  | .error => finds m trail (bytes "error")
  | .result => finds m trail (bytes "result")
  | .sessionId =>
    finds m trail (bytes "result") && looksUpIn (bytes "id") (m.lookup (bytes "result"))
  | .hasJob => finds m trail (bytes "result") && looksUpIn (bytes "job") (m.lookup (bytes "result"))
  | .jobField field =>
    finds m trail (bytes "result") && looksUpIn (bytes "job") (m.lookup (bytes "result")) &&
      looksUpIn field.name (memberOf (bytes "job") (m.lookup (bytes "result")))
  | .extraNonce => nonceReadable m (closeBrace :: trail.text)
  | .keepalived => true
  | .shareOk => compactOk m = (docProbes m).shareOk

variable {m trail}

/-- **A readable line.** The text answers the question like the value. -/
theorem probes_of_readable (lead : Space) {x : Question} (h : readable m trail x = true) :
    SameAnswer (probes (lead.text ++ ((Doc.object m).text ++ trail.text))) (docProbes m) x := by
  have hLookup {key : Bytes} (hPlain : ∀ b ∈ key, isPlain b = true)
      (h : finds m trail key = true) :
      Lookup (lead.text ++ ((Doc.object m).text ++ trail.text)) key m :=
        lookup_of_looksUp hPlain lead trail h
  cases x with
  | hasMethod =>
    have hText := hasText_quoted (⟨by decide, by decide, by decide⟩ : Word (bytes "method"))
      lead trail m
    exact hText.trans (of_decide_eq_true h)
  | method => exact (hLookup (by decide) h).getString_eq
  | element index =>
    rw [readable, Bool.and_eq_true] at h
    exact (hLookup (by decide) h.1).getArrayElement_eq h.2
  | first =>
    rw [readable, Bool.and_eq_true] at h
    exact (hLookup (by decide) h.1).getArrayFirst_eq h.2
  | param field =>
    rw [readable, Bool.and_eq_true] at h
    have hObject := (hLookup (by decide) h.1).getObject_eq
    have hField := getString_in field.name_plain h.2
    rw [← hObject] at hField
    exact hField
  | id n =>
    -- the white space behind the id matters only if the id is `n`
    rw [readable, Bool.and_eq_true, Bool.or_eq_true] at h
    refine (hLookup (by decide) h.1).getRaw_eq_decimal_iff fun hId => ?_
    exact h.2.resolve_left fun hNot => of_decide_eq_true hNot hId
  | cryptonote =>
    have hText := hasText_pair (w := quoted (bytes "2.0"))
      (⟨by decide, by decide, by decide⟩ : Word (bytes "jsonrpc")) (spelled_string (by decide))
      lead trail m
    exact hText.trans (of_decide_eq_true h)
  | error =>
    have hObject := (hLookup (by decide) h).getObject_eq
    exact (congrArg (fun t => !List.isEmpty t) hObject).trans (isEmpty_containerOf _)
  | result =>
    have hObject := (hLookup (by decide) h).getObject_eq
    exact (congrArg (fun t => !List.isEmpty t) hObject).trans (isEmpty_containerOf _)
  | sessionId =>
    rw [readable, Bool.and_eq_true] at h
    have hObject := (hLookup (by decide) h.1).getObject_eq
    have hField := getString_in (by decide) h.2
    rw [← hObject] at hField
    exact hField
  | hasJob =>
    rw [readable, Bool.and_eq_true] at h
    have hObject := (hLookup (by decide) h.1).getObject_eq
    have hJob := getObject_in (by decide) h.2
    rw [← hObject] at hJob
    exact (congrArg (fun t => !List.isEmpty t) hJob).trans (isEmpty_containerOf _)
  | jobField field =>
    -- two extractions, each on the text the one before returned
    rw [readable, Bool.and_eq_true, Bool.and_eq_true] at h
    have hObject := (hLookup (by decide) h.1.1).getObject_eq
    have hJob := getObject_in (by decide) h.1.2
    have hField := getString_in field.name_plain h.2
    rw [← hObject] at hJob
    rw [← hJob] at hField
    exact hField
  | extraNonce => exact extraNonceIn_eq lead trail m h
  | keepalived => exact hasText_keepalived lead trail m
  | shareOk => exact (shareOk_eq lead trail m).trans (of_decide_eq_true h)

end Readable

namespace StratumClient

/-- Every question the handler of `c` comes to can be answered from the line. -/
def Readable (c : StratumClient) (m : Members) (trail : Space) : Prop :=
  ∀ x ∈ c.questions (docProbes m), readable m trail x = true

instance (c : StratumClient) (m : Members) (trail : Space) : Decidable (c.Readable m trail) :=
  inferInstanceAs (Decidable (∀ x ∈ c.questions (docProbes m), readable m trail x = true))

/-- A readable line is handled as its value says. -/
theorem handleLine_of_readable (stod : Bytes → Option (BitVec 64)) {c : StratumClient} {m : Members}
    {trail : Space} (h : c.Readable m trail) (lead : Space) :
    c.handleLine stod (lead.text ++ ((Doc.object m).text ++ trail.text)) =
      c.answer stod (docProbes m) := by
  rw [handleLine_eq_answer]
  exact answer_congr c stod fun x hx => probes_of_readable lead (h x hx)

end StratumClient

/-! ## A reply in three layouts -/

def fiveDoc : Doc := .scalar (.number (.ofNat 5))

/-- `{"id":5,"result":true}`, with `space` in front of `true`. -/
def replyMembers (space : Space) : Members :=
  .cons .none (escapeSpelling (bytes "id")) .none .none fiveDoc .none
    (.cons .none (escapeSpelling (bytes "result")) .none space (.scalar (.bool true)) .none
      (.nil .none))

/-- `{"result":true,"id":5}`. -/
def swappedMembers : Members :=
  .cons .none (escapeSpelling (bytes "result")) .none .none (.scalar (.bool true)) .none
    (.cons .none (escapeSpelling (bytes "id")) .none .none fiveDoc .none (.nil .none))

theorem replyMembers_same_swapped : (replyMembers .none).Same swappedMembers :=
  Relation.ReflTransGen.single (.swap _ _ _ _ _ _ _ _ _ _ _ _ _ (by decide +kernel))

theorem replyMembers_same (space : Space) : (replyMembers .none).Same (replyMembers space) :=
  Relation.ReflTransGen.single (.rest _ _ _ _ _ _ (.space ..))

end ArmRx.Pool
