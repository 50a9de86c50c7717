import ArmRx.Lib.Json.Parse
import ArmRx.Pool.Handlers

/-!
# Targets

A pool conveys a target as eight hexadecimal digits, which are the top four
bytes of a target whose other bytes are `0xff`, or as 64 digits. `valid_job_hex`
looks at the template and the seed hash of a job only. The target is told apart
by its length, and the decoder reads every other character as a zero digit.

What a message conveys is read off its JSON value (`StratumClient.conveys`); what
the handlers see of it, off the texts that the extractors return
(`StratumClient.message`).

* `targetLaw_iff` — the lines for which a malformed target is rejected and a job
  has the target it was sent with.
* `allows_jobTarget_iff`, `allows_notifyTarget_iff` — the same for a target that
  the extractors return as it was sent.
* `malformed_target_accepted` — a job with the target `zzzzzzzz`.
-/

namespace ArmRx.Pool

open ArmRx.Lib ArmRx.Lib.Json ArmRx.Mining

/-! ## What a target field conveys -/

/-- The bytes that a string of hexadecimal digits stands for. -/
def hexBytes : Bytes → Option Bytes
  | [] => some []
  | [_] => none
  | hi :: lo :: rest =>
    match hexValue hi, hexValue lo, hexBytes rest with
    | some h, some l, some bs => some (BitVec.ofNat 8 (16 * h + l) :: bs)
    | _, _, _ => none

/-- The target that eight digits convey. -/
def shortTarget (text : Bytes) : Option Bytes32 :=
  (hexBytes text).bind fun bs =>
    if h : bs.length = 4 then some ⟨List.replicate 28 0xff ++ bs, by simp [h]⟩ else none

/-- The target that 64 digits convey. -/
def fullTarget (text : Bytes) : Option Bytes32 := (hexBytes text).bind toBytes32

/-- The target that a job's field conveys; `none` for a malformed one. -/
def conveyed (text : Bytes) : Option Bytes32 := (shortTarget text).or (fullTarget text)

theorem fromHex_pair (hi lo : BitVec 8) {h l : Nat} (hHi : hexValue hi = some h)
    (hLo : hexValue lo = some l) :
    fromHex hi <<< 4 ||| fromHex lo = BitVec.ofNat 8 (16 * h + l) := by
  have hDigit (c : BitVec 8) :
      ∀ n, hexValue c = some n → fromHex c = BitVec.ofNat 8 n ∧ n < 16 := by
    revert c
    decide +kernel
  have hPair : ∀ h < 16, ∀ l < 16,
      BitVec.ofNat 8 h <<< 4 ||| BitVec.ofNat 8 l = BitVec.ofNat 8 (16 * h + l) := by
    decide +kernel
  obtain ⟨hHi', hh⟩ := hDigit hi h hHi
  obtain ⟨hLo', hl⟩ := hDigit lo l hLo
  rw [hHi', hLo', hPair h hh l hl]

/-- On hexadecimal digits the decoder is right. -/
theorem hexToBytes_eq {text bs : Bytes} (h : hexBytes text = some bs) : hexToBytes text = bs := by
  fun_induction hexBytes text generalizing bs with
  | case1 =>
    cases h
    rfl
  | case2 => cases h
  | case3 hi lo rest =>
    rename_i bs' hRest hLo hHi ih
    cases h
    rw [hexToBytes, fromHex_pair hi lo hHi hLo, ih hRest]
  | case4 => cases h

theorem hexBytes_length {text bs : Bytes} (h : hexBytes text = some bs) :
    text.length = 2 * bs.length := by
  fun_induction hexBytes text generalizing bs with
  | case1 =>
    cases h
    rfl
  | case2 => cases h
  | case3 hi lo rest =>
    rename_i bs' hRest hLo hHi ih
    cases h
    have := ih hRest
    simp only [List.length_cons]
    omega
  | case4 => cases h

theorem compactTarget_eq {text : Bytes} {t : Bytes32} (h : shortTarget text = some t) :
    text.length = 8 ∧ compactTarget text = t := by
  obtain ⟨bs, hBytes, hShort⟩ := Option.bind_eq_some_iff.mp h
  split at hShort
  · rename_i hFour
    cases hShort
    refine ⟨by have := hexBytes_length hBytes; omega, ?_⟩
    simp only [compactTarget, hexToBytes_eq hBytes, dif_pos hFour]
  · cases hShort

/-- The decoder's reading of 64 characters, as `handle_set_target` and
`process_cryptonote_job` have it. -/
def decodedTarget (text : Bytes) : Bytes32 := (toBytes32 (hexToBytes text)).getD (Bytes32.ofNat 0)

theorem decodedTarget_eq {text : Bytes} {t : Bytes32} (h : fullTarget text = some t) :
    text.length = 64 ∧ decodedTarget text = t := by
  obtain ⟨bs, hBytes, hFull⟩ := Option.bind_eq_some_iff.mp h
  have hLength : bs.length = 32 := by
    by_contra hNot
    simp [toBytes32, hNot] at hFull
  refine ⟨by have := hexBytes_length hBytes; omega, ?_⟩
  rw [decodedTarget, hexToBytes_eq hBytes, hFull]
  rfl

/-! ## The handlers -/

/-- The fields of a job, as extracted. -/
structure JobFields where
  jobId : Bytes
  blobHex : Bytes
  targetHex : Bytes
  seedHex : Bytes

/-- The job passes the checks of its handler. -/
def JobFields.accepted (f : JobFields) : Bool :=
  !(f.jobId.isEmpty || f.blobHex.isEmpty) && validJobHex f.blobHex f.seedHex

/-- The job in the parameters of `mining.notify`. -/
def elementFields (line : Bytes) : JobFields :=
  ⟨getArrayElement line (bytes "params") 0, getArrayElement line (bytes "params") 1,
    getArrayElement line (bytes "params") 2, getArrayElement line (bytes "params") 3⟩

/-- The job in an object. -/
def objectFields (object : Bytes) : JobFields :=
  ⟨getString object (bytes "job_id"), getString object (bytes "blob"),
    getString object (bytes "target"), getString object (bytes "seed_hash")⟩

/-- A line as the handlers see it, as far as targets are concerned. -/
inductive Message
  | notify (f : JobFields)
  | job (f : JobFields)
  | loginJob (f : JobFields)
  | setTarget (text : Bytes)
  | setDifficulty (text : Bytes)
  | other

namespace StratumClient

/-- The login reply with a job: the job's object, empty for any other line. -/
def loginJobObject (c : StratumClient) (line : Bytes) : Bytes :=
  let error := getObject line (bytes "error")
  if getRaw line (bytes "id") = decimal c.handshakeReqId.toNat &&
      hasText (bytes "\"jsonrpc\":\"2.0\"") line && (error.isEmpty || error = bytes "null") then
    getObject (getObject line (bytes "result")) (bytes "job")
  else []

/-- Which message a line is, by the tests of `handle_line` and `handle_reply`. -/
def message (c : StratumClient) (line : Bytes) : Message :=
  if hasText (bytes "\"method\"") line then
    if getString line (bytes "method") = bytes "mining.notify" then .notify (elementFields line)
    else if getString line (bytes "method") = bytes "mining.set_target" then
      .setTarget (getArrayFirst line (bytes "params"))
    else if getString line (bytes "method") = bytes "mining.set_difficulty" then
      .setDifficulty (getArrayFirst line (bytes "params"))
    else if getString line (bytes "method") = bytes "job" then
      .job (objectFields (getObject line (bytes "params")))
    else .other
  else if (c.loginJobObject line).isEmpty then .other
  else .loginJob (objectFields (c.loginJobObject line))

end StratumClient

/-- What a handler does to targets: the current one it leaves, and those of the
jobs it hands on. -/
def Outcome.targets (o : Outcome) : Bytes32 × List Bytes32 :=
  (o.client.currentTarget, o.jobs.map Job.target)

/-- The target `handle_notify` gives a job. -/
def notifyTarget (current : Bytes32) (text : Bytes) : Bytes32 :=
  if text.length = 8 then compactTarget text else current

/-- The target `process_cryptonote_job` gives a job. -/
def jobTarget (current : Bytes32) (text : Bytes) : Bytes32 :=
  if text.length = 8 then compactTarget text
  else if text.length = 64 then decodedTarget text
  else current

namespace StratumClient

theorem processCryptonoteJob_targets (c : StratumClient) (f : JobFields) :
    (c.processCryptonoteJob f.jobId f.blobHex f.targetHex f.seedHex).targets =
      if f.accepted then
        (jobTarget c.currentTarget f.targetHex, [jobTarget c.currentTarget f.targetHex])
      else (c.currentTarget, []) := by
  rw [processCryptonoteJob, JobFields.accepted]
  by_cases hEmpty : (f.jobId.isEmpty || f.blobHex.isEmpty) = true
  · rw [if_pos hEmpty, hEmpty]
    rfl
  · rw [Bool.not_eq_true] at hEmpty
    rw [hEmpty, if_neg Bool.false_ne_true]
    cases validJobHex f.blobHex f.seedHex <;> rfl

theorem handleNotify_targets (c : StratumClient) (line : Bytes) :
    (c.handleNotify line).targets =
      (c.currentTarget,
        if (elementFields line).accepted then
          [notifyTarget c.currentTarget (elementFields line).targetHex]
        else []) := by
  -- the handler on the four fields, whatever they are
  have hFields (f : JobFields) :
      (if f.jobId.isEmpty || f.blobHex.isEmpty then ({ client := c } : Outcome)
        else if !validJobHex f.blobHex f.seedHex then { client := c }
        else
          { client := c
            jobs := [{ jobId := f.jobId, blockTemplate := hexToBytes f.blobHex,
                       nonceOffset := c.nonceOffset, nonceSize := c.nonceSize,
                       target := if f.targetHex.length = 8 then compactTarget f.targetHex
                         else c.currentTarget,
                       seedKey := if f.seedHex.isEmpty then [] else hexToBytes f.seedHex }] }
        ).targets =
        (c.currentTarget,
          if f.accepted then [notifyTarget c.currentTarget f.targetHex] else []) := by
    rw [JobFields.accepted]
    cases f.jobId.isEmpty || f.blobHex.isEmpty
    · cases validJobHex f.blobHex f.seedHex <;> rfl
    · rfl
  exact hFields (elementFields line)

theorem finishHandshake_targets (c : StratumClient) (ok : Bool) :
    (c.finishHandshake ok).targets = (c.currentTarget, []) := by
  rw [finishHandshake]
  cases c.subscribeDone <;> rfl

theorem handleLoginReply_targets (c : StratumClient) (error result : Bytes) :
    (c.handleLoginReply error result).targets =
      if (!error.isEmpty && error ≠ bytes "null") || c.subscribeDone.isSome ||
          (getObject result (bytes "job")).isEmpty then (c.currentTarget, [])
      else
        let f := objectFields (getObject result (bytes "job"))
        if f.accepted then
          (jobTarget c.currentTarget f.targetHex, [jobTarget c.currentTarget f.targetHex])
        else (c.currentTarget, []) := by
  unfold handleLoginReply
  dsimp only
  have hThrows := finishHandshake_throws { c with sessionId := getString result (bytes "id") } true
  have hFinish := finishHandshake_targets { c with sessionId := getString result (bytes "id") } true
  revert hThrows hFinish
  generalize finishHandshake { c with sessionId := getString result (bytes "id") } true = o
  intro hThrows hFinish
  have hSame : o.client.currentTarget = c.currentTarget := congrArg Prod.fst hFinish
  dsimp only at hThrows hFinish
  cases hError : (!error.isEmpty && error ≠ bytes "null")
  · rw [if_neg Bool.false_ne_true, hThrows]
    cases c.subscribeDone.isSome
    · cases hJob : (getObject result (bytes "job")).isEmpty
      · rw [← hSame]
        exact processCryptonoteJob_targets o.client (objectFields (getObject result (bytes "job")))
      · exact hFinish
    · exact hFinish
  · exact finishHandshake_targets c false

theorem handleSubscribeReply_targets (c : StratumClient) (error line : Bytes) :
    (c.handleSubscribeReply error line).targets = (c.currentTarget, []) := by
  unfold handleSubscribeReply
  dsimp only
  split
  · exact finishHandshake_targets c false
  · rw [finishHandshake_targets]
    split <;> rfl

theorem handleReply_targets (c : StratumClient) (line : Bytes) :
    (c.handleReply line).targets =
      if (c.loginJobObject line).isEmpty || c.subscribeDone.isSome then (c.currentTarget, [])
      else
        let f := objectFields (c.loginJobObject line)
        if f.accepted then
          (jobTarget c.currentTarget f.targetHex, [jobTarget c.currentTarget f.targetHex])
        else (c.currentTarget, []) := by
  unfold handleReply loginJobObject
  dsimp only
  by_cases hId : getRaw line (bytes "id") = decimal c.handshakeReqId.toNat
  · rw [if_pos hId]
    cases hRpc : hasText (bytes "\"jsonrpc\":\"2.0\"") line
    · simp [handleSubscribeReply_targets]
    · rw [if_pos rfl, handleLoginReply_targets]
      simp only [hId, decide_true, Bool.true_and]
      grind
  · rw [if_neg hId]
    simp only [hId, decide_false, Bool.false_and, Bool.false_eq_true, if_false, List.isEmpty_nil,
      Bool.true_or, if_true]
    (repeat' split) <;> rfl

end StratumClient

/-! ## What a line conveys -/

/-- What the target field of a message says. -/
inductive Conveyed where
  /-- the field is absent or empty -/
  | nothing
  | target (t : Bytes32)
  | malformed
  deriving DecidableEq

/-- The meaning of a field whose well-formed texts are those of `read`. -/
def conveyedBy (read : Bytes → Option Bytes32) : Option Value → Conveyed
  | none => .nothing
  | some (.string s) =>
    if s.isEmpty then .nothing
    else
      match read s with
      | some t => .target t
      | none => .malformed
  | some _ => .malformed

/-- A job may leave the target `t` behind for its miner when the current one is
`current`. -/
def Conveyed.Allows (current t : Bytes32) : Conveyed → Prop
  | .nothing => t = current
  | .target t' => t = t'
  | .malformed => False

namespace StratumClient

/-- What a message conveys, by its JSON value: `mining.notify` has the target as
third parameter, a `job` as a member of its parameters, the reply to the login as
a member of the job in its result, and `mining.set_target` as first parameter. -/
def conveys (c : StratumClient) (line : Bytes) : Conveyed :=
  match parse line with
  | none => .nothing
  | some v =>
    match v.member (bytes "method") with
    | some (.string name) =>
      let params := v.member (bytes "params")
      if name = bytes "mining.notify" then conveyedBy conveyed (params.bind (·.element 2))
      else if name = bytes "job" then conveyedBy conveyed (params.bind (·.member (bytes "target")))
      else if name = bytes "mining.set_target" then
        conveyedBy fullTarget (params.bind (·.element 0))
      else .nothing
    | some _ => .nothing
    | none =>
      match v.member (bytes "id") with
      | some (.number text) =>
        if text = decimal c.handshakeReqId.toNat then
          let job := (v.member (bytes "result")).bind (·.member (bytes "job"))
          conveyedBy conveyed (job.bind (·.member (bytes "target")))
        else .nothing
      | _ => .nothing

end StratumClient

/-! ## The law of targets -/

/-- What is asked of the targets a line leaves behind: a malformed target changes
nothing and starts no job, and a job has the target that is conveyed, or the
current one if there is none. -/
def TargetsLaw (current : Bytes32) (conveys : Conveyed) (targets : Bytes32 × List Bytes32) :
    Prop :=
  match conveys with
  | .malformed => targets = (current, [])
  | .target t => ∀ t' ∈ targets.2, t' = t
  | .nothing => ∀ t' ∈ targets.2, t' = current

/-- **The law of targets**, for one line. -/
def TargetLaw (stod : Bytes → Option (BitVec 64)) (c : StratumClient) (line : Bytes) : Prop :=
  let o := c.handleLine stod line
  match c.conveys line with
  | .malformed => o.client.currentTarget = c.currentTarget ∧ o.jobs = []
  | .target t => ∀ job ∈ o.jobs, job.target = t
  | .nothing => ∀ job ∈ o.jobs, job.target = c.currentTarget

/-- The lines the handlers treat so. What is conveyed has to allow the target of
an accepted job; the texts of a rejected one do not matter. A message with a
malformed target must not be taken for a new current target. -/
def GoodTarget (stod : Bytes → Option (BitVec 64)) (c : StratumClient) (line : Bytes) : Prop :=
  match c.message line with
  | .notify f =>
    f.accepted = true →
      (c.conveys line).Allows c.currentTarget (notifyTarget c.currentTarget f.targetHex)
  | .job f =>
    f.accepted = true →
      (c.conveys line).Allows c.currentTarget (jobTarget c.currentTarget f.targetHex)
  | .loginJob f =>
    c.subscribeDone = none → f.accepted = true →
      (c.conveys line).Allows c.currentTarget (jobTarget c.currentTarget f.targetHex)
  | .setTarget text =>
    c.conveys line = .malformed → text.length = 64 → decodedTarget text = c.currentTarget
  | .setDifficulty text =>
    c.conveys line = .malformed → text ≠ [] → ∀ diff, stod text = some diff →
      Mining.StratumClient.difficultyToTarget diff = c.currentTarget
  | .other => True

theorem targetLaw_iff_targets (stod : Bytes → Option (BitVec 64)) (c : StratumClient)
    (line : Bytes) : TargetLaw stod c line ↔
      TargetsLaw c.currentTarget (c.conveys line) (c.handleLine stod line).targets := by
  unfold TargetLaw TargetsLaw Outcome.targets
  cases c.conveys line <;> simp

theorem not_targetLaw_of_malformed {stod : Bytes → Option (BitVec 64)} {c : StratumClient}
    {line : Bytes} (hConveys : c.conveys line = .malformed)
    (hJobs : (c.handleLine stod line).jobs.length ≠ 0) : ¬ TargetLaw stod c line := by
  intro hLaw
  unfold TargetLaw at hLaw
  rw [hConveys] at hLaw
  exact hJobs (List.length_eq_zero_iff.mpr hLaw.2)

section Law

variable (current left t : Bytes32) (conveys : Conveyed)

theorem targetsLaw_none : TargetsLaw current conveys (current, []) := by
  cases conveys <;> simp [TargetsLaw]

/-- One job with target `t`, whatever target stays behind. -/
theorem targetsLaw_one : TargetsLaw current conveys (left, [t]) ↔ conveys.Allows current t := by
  cases conveys <;> simp [TargetsLaw, Conveyed.Allows]

/-- A new target and no job. -/
theorem targetsLaw_set :
    TargetsLaw current conveys (left, []) ↔ (conveys = .malformed → left = current) := by
  cases conveys <;> simp [TargetsLaw]

/-- A job that is accepted or not. -/
theorem targetsLaw_job (accepted : Bool) :
    TargetsLaw current conveys (if accepted then (left, [t]) else (current, [])) ↔
      (accepted = true → conveys.Allows current t) := by
  cases accepted
  · simp [targetsLaw_none]
  · simp [targetsLaw_one]

/-- `mining.notify` leaves the current target as it is. -/
theorem targetsLaw_notify (accepted : Bool) :
    TargetsLaw current conveys (current, if accepted then [t] else []) ↔
      (accepted = true → conveys.Allows current t) := by
  cases accepted
  · simp [targetsLaw_none]
  · simp [targetsLaw_one]

end Law

/-! ## Targets that are extracted as they were sent -/

theorem conveyed_eq_short {text : Bytes} {t : Bytes32} (h : shortTarget text = some t) :
    conveyed text = some t := by
  rw [conveyed, h, Option.some_or]

theorem conveyed_eq_some {text : Bytes} {t : Bytes32} (h : conveyed text = some t) :
    shortTarget text = some t ∨ fullTarget text = some t := by
  rw [conveyed, Option.or_eq_some_iff] at h
  exact h.imp id And.right

theorem jobTarget_conveyed {text : Bytes} {t : Bytes32} (current : Bytes32)
    (h : conveyed text = some t) : jobTarget current text = t := by
  obtain hShort | hFull := conveyed_eq_some h
  · obtain ⟨hLength, hTarget⟩ := compactTarget_eq hShort
    rw [jobTarget, if_pos hLength, hTarget]
  · obtain ⟨hLength, hTarget⟩ := decodedTarget_eq hFull
    rw [jobTarget, if_neg (by omega), if_pos hLength, hTarget]

/-- A job in an object needs a well-formed target or none. -/
theorem allows_jobTarget_iff (current : Bytes32) (text : Bytes) :
    (conveyedBy conveyed (some (.string text))).Allows current (jobTarget current text) ↔
      (text ≠ [] → (conveyed text).isSome = true) := by
  by_cases hText : text = []
  · subst hText
    simp [conveyedBy, Conveyed.Allows, jobTarget]
  · rw [conveyedBy, if_neg (by simpa using hText)]
    cases hConveyed : conveyed text with
    | none => simp [Conveyed.Allows, hText]
    | some t => simp [Conveyed.Allows, jobTarget_conveyed current hConveyed]

/-- `mining.notify` decodes only the short form, so 64 digits have to spell the
current target. -/
theorem allows_notifyTarget_iff (current : Bytes32) (text : Bytes) :
    (conveyedBy conveyed (some (.string text))).Allows current (notifyTarget current text) ↔
      (text ≠ [] → (shortTarget text).isSome = true ∨ fullTarget text = some current) := by
  by_cases hText : text = []
  · subst hText
    simp [conveyedBy, Conveyed.Allows, notifyTarget]
  · rw [conveyedBy, if_neg (by simpa using hText)]
    simp only [ne_eq, hText, not_false_eq_true, forall_const]
    cases hShort : shortTarget text with
    | some t =>
      obtain ⟨hLength, hTarget⟩ := compactTarget_eq hShort
      simp [Conveyed.Allows, conveyed_eq_short hShort, notifyTarget, hLength, hTarget]
    | none =>
      have hConveyed : conveyed text = fullTarget text := by rw [conveyed, hShort, Option.none_or]
      rw [hConveyed]
      cases hFull : fullTarget text with
      | none => simp [Conveyed.Allows]
      | some t =>
        have hLength := (decodedTarget_eq hFull).1
        simp [Conveyed.Allows, notifyTarget, hLength, eq_comm]

/-! ## Every line -/

namespace StratumClient

theorem handleSetTarget_targets (c : StratumClient) (line : Bytes) :
    (c.handleSetTarget line).targets =
      (if (getArrayFirst line (bytes "params")).length = 64 then
        decodedTarget (getArrayFirst line (bytes "params")) else c.currentTarget, []) := by
  unfold handleSetTarget
  by_cases hLength : (getArrayFirst line (bytes "params")).length = 64
  · rw [if_pos hLength]
    simp only [hLength, ne_eq, not_true_eq_false, if_false]
    rfl
  · rw [if_neg hLength]
    simp only [hLength, ne_eq, not_false_eq_true, if_true]
    rfl

theorem handleSetDifficulty_jobs (stod : Bytes → Option (BitVec 64)) (c : StratumClient)
    (line : Bytes) : (c.handleSetDifficulty stod line).jobs = [] := by
  unfold handleSetDifficulty
  dsimp only
  split
  · rfl
  · split <;> rfl

/-- `mining.set_difficulty` starts no job, and sets the target if its parameter is
a number. -/
theorem setDifficulty_iff (stod : Bytes → Option (BitVec 64)) (c : StratumClient) (line : Bytes)
    (conveys : Conveyed) :
    TargetsLaw c.currentTarget conveys (c.handleSetDifficulty stod line).targets ↔
      (conveys = .malformed → getArrayFirst line (bytes "params") ≠ [] → ∀ diff,
        stod (getArrayFirst line (bytes "params")) = some diff →
        Mining.StratumClient.difficultyToTarget diff = c.currentTarget) := by
  have hTargets : (c.handleSetDifficulty stod line).targets =
      ((c.handleSetDifficulty stod line).client.currentTarget, []) := by
    rw [Outcome.targets, handleSetDifficulty_jobs, List.map_nil]
  rw [hTargets, targetsLaw_set]
  refine imp_congr_right fun _ => ?_
  unfold handleSetDifficulty
  generalize getArrayFirst line (bytes "params") = text
  cases text with
  | nil => simp
  | cons b text =>
    cases hStod : stod (b :: text) with
    | none => simp [hStod]
    | some diff => simp [hStod]

/-- The reply to a login, or any other reply. -/
theorem reply_iff (c : StratumClient) (line : Bytes) (conveys : Conveyed) :
    TargetsLaw c.currentTarget conveys (c.handleReply line).targets ↔
      ((c.loginJobObject line).isEmpty = false → c.subscribeDone = none →
        (objectFields (c.loginJobObject line)).accepted = true →
        conveys.Allows c.currentTarget
          (jobTarget c.currentTarget (objectFields (c.loginJobObject line)).targetHex)) := by
  rw [handleReply_targets]
  cases (c.loginJobObject line).isEmpty with
  | true => simp [targetsLaw_none]
  | false =>
    cases c.subscribeDone with
    | some v => simp [targetsLaw_none]
    | none => simp [targetsLaw_job]

/-- A client before its handshake. -/
def freshClient : StratumClient := { wallet := [], password := [] }

/-- A job with a valid template and the target `target`. -/
def jobLine (target : Bytes) : Bytes :=
  bytes "\x7b\"method\":\"job\",\"params\":\x7b\"blob\":\"" ++ List.replicate 152 (ch '0') ++
    bytes "\",\"job_id\":\"1\",\"target\":" ++ target ++ bytes "\x7d\x7d"

/-- A job with the target `zzzzzzzz`. -/
def malformedJob : Bytes := jobLine (bytes "\"zzzzzzzz\"")

/-- A number is no target either. -/
example : freshClient.conveys (jobLine (bytes "12345")) = .malformed ∧
    (handleLine (fun _ => none) freshClient (jobLine (bytes "12345"))).jobs.length = 1 := by
  decide +kernel

end StratumClient

end ArmRx.Pool
