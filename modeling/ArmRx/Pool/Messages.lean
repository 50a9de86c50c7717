import ArmRx.Lib.Json.Parse
import ArmRx.Pool.Client

/-!
# Outgoing messages

Embeds the message builders of `src/stratum_client.cpp` and `rpc_envelope`
(`src/json.cpp`). They paste escaped strings into fixed texts. Each message is
shown to be the text of a document, so that what a parser reads is known
whatever the strings hold.

* `messages_parse` — every message is one line that parses to the intended value.
-/

namespace ArmRx.Pool

open ArmRx.Lib ArmRx.Lib.Json ArmRx.Mining

/-! ## The builders -/

abbrev newline : BitVec 8 := 0x0a#8

/-- `rpc_envelope`. -/
def rpcEnvelope (id : BitVec 64) (method params : Bytes) : Bytes :=
  bytes "\x7b\"id\":" ++ decimal id.toNat ++ bytes ",\"method\":\"" ++ method ++ bytes "\"" ++
    bytes ",\"params\":" ++ params ++ bytes "\x7d\n"

namespace StratumClient

/-- `build_subscribe_msg`: the message, and the client with its next request id. -/
def buildSubscribeMsg (c : StratumClient) : Bytes × StratumClient :=
  let id := c.requestId
  (rpcEnvelope id (bytes "mining.subscribe") (bytes "[\"armrx/1.0\"]"),
    { c with requestId := id + 1, handshakeReqId := id })

/-- `build_login_msg`. -/
def buildLoginMsg (c : StratumClient) : Bytes × StratumClient :=
  let id := c.requestId
  (bytes "\x7b\"id\":" ++ decimal id.toNat ++
    bytes ",\"jsonrpc\":\"2.0\"" ++
    bytes ",\"method\":\"login\"" ++
    bytes ",\"params\":\x7b" ++
      bytes "\"login\":\"" ++ escape c.wallet ++ bytes "\"," ++
      bytes "\"pass\":\"" ++ escape c.password ++ bytes "\"," ++
      bytes "\"agent\":\"armrx/1.0\"," ++
      bytes "\"rigid\":\"\"," ++
      bytes "\"algo\":[\"rx/0\"]" ++
    bytes "\x7d\x7d\n",
    { c with requestId := id + 1, handshakeReqId := id })

/-- `build_authorize_msg`. -/
def buildAuthorizeMsg (c : StratumClient) : Bytes × StratumClient :=
  let id := c.requestId
  (rpcEnvelope id (bytes "mining.authorize")
    (bytes "[\"" ++ escape c.wallet ++ bytes "\",\"" ++ escape c.password ++ bytes "\"]"),
    { c with requestId := id + 1, authorizeReqId := id })

/-- `build_submit_msg`. The warning about an extra nonce is only logged. -/
def buildSubmitMsg (c : StratumClient) (job : Job) (nonce : BitVec 64) (hash : Bytes32) :
    Bytes × StratumClient :=
  let id := c.requestId
  let nonceHex := nonceToHex nonce job.nonceSize
  let c' := { c with requestId := id + 1 }
  if c.protocol = .cryptonote then
    let resultHex := bytesToHex hash.bytes
    (bytes "\x7b\"id\":" ++ decimal id.toNat ++
      bytes ",\"jsonrpc\":\"2.0\"" ++
      bytes ",\"method\":\"submit\"" ++
      bytes ",\"params\":\x7b" ++
        bytes "\"id\":\"" ++ escape c.sessionId ++ bytes "\"," ++
        bytes "\"job_id\":\"" ++ escape job.jobId ++ bytes "\"," ++
        bytes "\"nonce\":\"" ++ nonceHex ++ bytes "\"," ++
        bytes "\"result\":\"" ++ resultHex ++ bytes "\"" ++
      bytes "\x7d\x7d\n", c')
  else
    (rpcEnvelope id (bytes "mining.submit")
      (bytes "[\"" ++ escape c.wallet ++ bytes "\",\"" ++ escape job.jobId ++ bytes "\",\"" ++
        nonceHex ++ bytes "\"]"), c')

/-- The message `keepalive_loop` sends. -/
def buildKeepaliveMsg (c : StratumClient) : Bytes × StratumClient :=
  let id := c.requestId
  (bytes "\x7b\"id\":" ++ decimal id.toNat ++
    bytes ",\"jsonrpc\":\"2.0\"" ++
    bytes ",\"method\":\"keepalived\"" ++
    bytes ",\"params\":\x7b" ++
      bytes "\"id\":\"" ++ escape c.sessionId ++ bytes "\"" ++
    bytes "\x7d\x7d\n",
    { c with requestId := id + 1 })

end StratumClient

/-! ## Escaped strings -/

/-- The unit `escape` writes for one character. -/
def escapeUnit (c : BitVec 8) : StringUnit :=
  if c = backslash then .short backslash backslash backslash_mem_shortEscapes
  else if c = quote then .short quote quote quote_mem_shortEscapes
  else if c = 0x0a#8 then .short (ch 'n') 0x0a (by decide)
  else if c = 0x0d#8 then .short (ch 'r') 0x0d (by decide)
  else if c = 0x09#8 then .short (ch 't') 0x09 (by decide)
  else if hc : c < 0x20#8 then
    .unicode (ch '0') (ch '0') (hexDigit (c >>> 4 &&& 0xf)) (hexDigit (c &&& 0xf)) (by
      revert c
      decide +kernel)
  else if hp : isPlain c = true then .byte c hp
  else .byte 0x20 (by decide)

def escapeSpelling (s : Bytes) : Spelling := s.map escapeUnit

theorem escapeUnit_text : ∀ c : BitVec 8, (escapeUnit c).text = escapeByte c := by
  decide +kernel

theorem escapeSpelling_text (s : Bytes) : (escapeSpelling s).text = escape s := by
  rw [escapeSpelling, Spelling.text, escape, List.flatMap_map]
  simp only [escapeUnit_text]

theorem decode_escapeUnit (c : BitVec 8) (s : Spelling) :
    Spelling.decode (escapeUnit c :: s) = c :: Spelling.decode s := by
  have hUnicode : ∀ c : BitVec 8, c < 0x20#8 →
      utf8 (codeUnit (ch '0') (ch '0') (hexDigit (c >>> 4 &&& 0xf)) (hexDigit (c &&& 0xf))) = [c] ∧
      isHighSurrogate (codeUnit (ch '0') (ch '0') (hexDigit (c >>> 4 &&& 0xf))
        (hexDigit (c &&& 0xf))) = false := by
    decide +kernel
  have hPlain : ∀ c : BitVec 8, c ≠ backslash → c ≠ quote → ¬ c < 0x20#8 → isPlain c = true := by
    decide +kernel
  unfold Spelling.decode escapeUnit
  split
  · rename_i hc; rw [hc]; rfl
  split
  · rename_i hc; rw [hc]; rfl
  split
  · rename_i hc; rw [hc]; rfl
  split
  · rename_i hc; rw [hc]; rfl
  split
  · rename_i hc; rw [hc]; rfl
  split
  · rename_i hc
    obtain ⟨hUtf8, hHigh⟩ := hUnicode c hc
    rw [Spelling.decodeFrom]
    simp only [hUtf8, hHigh, Bool.false_eq_true, if_false]
    rfl
  · rename_i hSlash hQuote _ _ _ hControl
    rw [dif_pos (hPlain c hSlash hQuote hControl)]
    rfl

theorem decode_escapeSpelling (s : Bytes) : (escapeSpelling s).decode = s := by
  induction s with
  | nil => rfl
  | cons c s ih =>
    rw [escapeSpelling, List.map_cons, decode_escapeUnit]
    exact congrArg (c :: ·) ih

/-- An escaped string as a document. -/
def stringDoc (s : Bytes) : Doc := .string (escapeSpelling s)

theorem stringDoc_text (s : Bytes) : (stringDoc s).text = quote :: (escape s ++ [quote]) := by
  rw [stringDoc, Doc.text, quoted, escapeSpelling_text]

theorem stringDoc_value (s : Bytes) : (stringDoc s).value = .string s := by
  rw [stringDoc, Doc.value, decode_escapeSpelling]

/-! ## Hexadecimal strings -/

/-- The lower-case hexadecimal digit of a number below sixteen. -/
def lowerHexDigit (d : Nat) : BitVec 8 :=
  if d < 10 then BitVec.ofNat 8 (0x30 + d) else BitVec.ofNat 8 (0x61 + (d - 10))

/-- Two lower-case hexadecimal digits for every byte. -/
def lowerHex (bs : Bytes) : Bytes :=
  bs.flatMap fun b => [lowerHexDigit (b.toNat / 16), lowerHexDigit (b.toNat % 16)]

theorem hexDigits_eq : ∀ b : BitVec 8, [hexDigit (b >>> 4), hexDigit (b &&& 0xf)] =
    [lowerHexDigit (b.toNat / 16), lowerHexDigit (b.toNat % 16)] := by
  decide +kernel

theorem bytesToHex_eq (bs : Bytes) : bytesToHex bs = lowerHex bs := by
  unfold bytesToHex lowerHex
  simp only [hexDigits_eq]

theorem nonceToHex_eq (nonce : BitVec 64) (size : Nat) :
    nonceToHex nonce size = lowerHex (bytesOfNat size nonce.toNat) := by
  have hByte (i : Nat) : (nonce >>> (i * 8)).setWidth 8 =
      BitVec.ofNat 8 (nonce.toNat / 256 ^ i) := by
    apply BitVec.eq_of_toNat_eq
    rw [BitVec.toNat_setWidth, BitVec.toNat_ushiftRight, BitVec.toNat_ofNat,
      Nat.shiftRight_eq_div_pow, Nat.mul_comm, Nat.pow_mul]
  -- the bytes of a number, listed by index
  have hBytes (n v : Nat) : bytesOfNat n v =
      (List.range n).map fun i => BitVec.ofNat 8 (v / 256 ^ i) := by
    induction n generalizing v with
    | zero => rfl
    | succ n ih =>
      rw [bytesOfNat, ih, List.range_succ_eq_map, List.map_cons, List.map_map]
      simp [Function.comp_def, Nat.div_div_eq_div_mul, Nat.pow_succ']
  unfold nonceToHex lowerHex
  rw [hBytes, List.flatMap_map]
  simp only [hByte, hexDigits_eq]

theorem escape_lowerHex (bs : Bytes) : escape (lowerHex bs) = lowerHex bs := by
  have hPlain : ∀ b : BitVec 8, escape [lowerHexDigit (b.toNat / 16), lowerHexDigit (b.toNat % 16)] =
      [lowerHexDigit (b.toNat / 16), lowerHexDigit (b.toNat % 16)] := by
    decide +kernel
  unfold lowerHex
  induction bs with
  | nil => rfl
  | cons b bs ih =>
    rw [List.flatMap_cons, escape, List.flatMap_append]
    exact congrArg₂ _ (hPlain b) ih

/-! ## Messages as documents -/

/-- An array without white space. -/
def compactItems : List Doc → Items
  | [] => .nil .none
  | v :: vs => .cons .none v .none (compactItems vs)

/-- An object without white space. -/
def compactMembers : List (Bytes × Doc) → Members
  | [] => .nil .none
  | (name, v) :: more => .cons .none (escapeSpelling name) .none .none v .none (compactMembers more)

def idDoc (id : BitVec 64) : Doc := .scalar (.number (.ofNat id.toNat))

/-- The line is `v` in JSON, with its line break at the end and nowhere else. -/
def IsLine (line : Bytes) (v : Value) : Prop :=
  ∃ body, line = body ++ [newline] ∧ newline ∉ body ∧ parse body = some v

theorem isLine_of_doc {line : Bytes} (v : Doc) (hText : line = v.text ++ [newline])
    (hCompact : v.Compact) : IsLine line v.value := by
  refine ⟨v.text, hText, fun hMem => ?_, ?_⟩
  · exact absurd (v.text_ge hCompact _ hMem) (by decide)
  · have := parse_text .none .none v
    simpa [Space.none] using this

/-- The document of `rpc_envelope`. -/
def envelopeDoc (id : BitVec 64) (method : Bytes) (params : Doc) : Doc :=
  .object (compactMembers [(bytes "id", idDoc id), (bytes "method", stringDoc method),
    (bytes "params", params)])

/-- The document of a JSON-RPC 2.0 request. -/
def jsonrpcDoc (id : BitVec 64) (method : Bytes) (params : Doc) : Doc :=
  .object (compactMembers [(bytes "id", idDoc id), (bytes "jsonrpc", stringDoc (bytes "2.0")),
    (bytes "method", stringDoc method), (bytes "params", params)])

section Documents

variable (id : BitVec 64) (method : Bytes) {params : Doc}

theorem envelopeDoc_value : (envelopeDoc id method params).value =
    .object [(bytes "id", .number (decimal id.toNat)), (bytes "method", .string method),
      (bytes "params", params.value)] := by
  simp [envelopeDoc, Doc.value, compactMembers, Members.values, decode_escapeSpelling,
    stringDoc_value, idDoc, Scalar.value]

theorem jsonrpcDoc_value : (jsonrpcDoc id method params).value =
    .object [(bytes "id", .number (decimal id.toNat)), (bytes "jsonrpc", .string (bytes "2.0")),
      (bytes "method", .string method), (bytes "params", params.value)] := by
  simp [jsonrpcDoc, Doc.value, compactMembers, Members.values, decode_escapeSpelling,
    stringDoc_value, idDoc, Scalar.value]

theorem envelopeDoc_compact (h : params.Compact) : (envelopeDoc id method params).Compact := by
  simp [envelopeDoc, Doc.Compact, compactMembers, Members.Compact, h, Space.none, stringDoc, idDoc]

theorem jsonrpcDoc_compact (h : params.Compact) : (jsonrpcDoc id method params).Compact := by
  simp [jsonrpcDoc, Doc.Compact, compactMembers, Members.Compact, h, Space.none, stringDoc, idDoc]

end Documents

theorem compactItems_compact : (vs : List Doc) → (∀ v ∈ vs, v.Compact) → (compactItems vs).Compact
  | [], _ => rfl
  | _ :: vs, h =>
    ⟨rfl, h _ List.mem_cons_self, rfl,
      compactItems_compact vs fun v hv => h v (List.mem_cons_of_mem _ hv)⟩

theorem compactMembers_compact : (ms : List (Bytes × Doc)) → (∀ m ∈ ms, m.2.Compact) →
    (compactMembers ms).Compact
  | [], _ => rfl
  | _ :: ms, h =>
    ⟨rfl, rfl, rfl, h _ List.mem_cons_self, rfl,
      compactMembers_compact ms fun m hm => h m (List.mem_cons_of_mem _ hm)⟩

theorem compactItems_values (vs : List Doc) : (compactItems vs).values = vs.map Doc.value := by
  induction vs with
  | nil => rfl
  | cons v vs ih => rw [compactItems, Items.values, ih, List.map_cons]

theorem compactMembers_values (ms : List (Bytes × Doc)) :
    (compactMembers ms).values = ms.map fun m => (m.1, m.2.value) := by
  induction ms with
  | nil => rfl
  | cons m ms ih => rw [compactMembers, Members.values, ih, List.map_cons, decode_escapeSpelling]

/-! ## What a parser reads -/

/-- The line `rpc_envelope` builds around a list of strings. -/
theorem rpcEnvelope_isLine (id : BitVec 64) {method params : Bytes} (strings : List Bytes)
    (hMethod : escape method = method)
    (hParams : params = (Doc.array (compactItems (strings.map stringDoc))).text) :
    IsLine (rpcEnvelope id method params)
      (.object [(bytes "id", .number (decimal id.toNat)), (bytes "method", .string method),
        (bytes "params", .array (strings.map Value.string))]) := by
  have hCompact : (Doc.array (compactItems (strings.map stringDoc))).Compact :=
    compactItems_compact _ fun _ hv => by
      obtain ⟨s, -, rfl⟩ := List.mem_map.mp hv
      trivial
  have hValue : (Doc.array (compactItems (strings.map stringDoc))).value =
      .array (strings.map Value.string) := by
    rw [Doc.value, compactItems_values, List.map_map]
    simp [Function.comp_def, stringDoc_value]
  rw [← hValue, ← envelopeDoc_value, hParams]
  refine isLine_of_doc _ ?_ (envelopeDoc_compact id method hCompact)
  simp [rpcEnvelope, envelopeDoc, Doc.text, compactMembers, Members.text, Members.tailText, quoted,
    idDoc, Scalar.text, stringDoc_text, escapeSpelling_text, hMethod, Space.none]
  rfl

/-- A JSON-RPC request whose parameters are named strings. -/
theorem jsonrpc_isLine (line : Bytes) (id : BitVec 64) (method : Bytes)
    (params : List (Bytes × Doc)) (hParams : ∀ m ∈ params, m.2.Compact)
    (hText : line = (jsonrpcDoc id method (.object (compactMembers params))).text ++ [newline]) :
    IsLine line
      (.object [(bytes "id", .number (decimal id.toNat)), (bytes "jsonrpc", .string (bytes "2.0")),
        (bytes "method", .string method),
        (bytes "params", .object (params.map fun m => (m.1, m.2.value)))]) := by
  rw [← compactMembers_values, ← Doc.value, ← jsonrpcDoc_value]
  exact isLine_of_doc _ hText (jsonrpcDoc_compact id method (compactMembers_compact params hParams))

theorem buildLoginMsg_isLine (c : StratumClient) :
    IsLine c.buildLoginMsg.1
      (.object [(bytes "id", .number (decimal c.requestId.toNat)),
        (bytes "jsonrpc", .string (bytes "2.0")), (bytes "method", .string (bytes "login")),
        (bytes "params", .object [(bytes "login", .string c.wallet),
          (bytes "pass", .string c.password), (bytes "agent", .string (bytes "armrx/1.0")),
          (bytes "rigid", .string []), (bytes "algo", .array [.string (bytes "rx/0")])])]) := by
  have h := jsonrpc_isLine c.buildLoginMsg.1 c.requestId (bytes "login")
    [(bytes "login", stringDoc c.wallet), (bytes "pass", stringDoc c.password),
      (bytes "agent", stringDoc (bytes "armrx/1.0")), (bytes "rigid", stringDoc []),
      (bytes "algo", .array (compactItems [stringDoc (bytes "rx/0")]))]
    (by simp [stringDoc, Doc.Compact, compactItems, Items.Compact, Space.none]) (by
      simp [StratumClient.buildLoginMsg, jsonrpcDoc, Doc.text, compactMembers, compactItems,
        Members.text, Members.tailText, Items.text, Items.tailText, quoted, idDoc, Scalar.text,
        stringDoc_text, escapeSpelling_text, Space.none]
      rfl)
  simpa [stringDoc_value, Doc.value, compactItems_values] using h

theorem buildAuthorizeMsg_isLine (c : StratumClient) :
    IsLine c.buildAuthorizeMsg.1
      (.object [(bytes "id", .number (decimal c.requestId.toNat)),
        (bytes "method", .string (bytes "mining.authorize")),
        (bytes "params", .array [.string c.wallet, .string c.password])]) :=
  rpcEnvelope_isLine c.requestId [c.wallet, c.password] rfl (by
    simp [Doc.text, compactItems, Items.text, Items.tailText, stringDoc_text, Space.none]
    rfl)

theorem buildSubmitMsg_isLine (c : StratumClient) (job : Job) (nonce : BitVec 64)
    (hash : Bytes32) :
    IsLine (c.buildSubmitMsg job nonce hash).1
      (if c.protocol = .cryptonote then
        .object [(bytes "id", .number (decimal c.requestId.toNat)),
          (bytes "jsonrpc", .string (bytes "2.0")), (bytes "method", .string (bytes "submit")),
          (bytes "params", .object [(bytes "id", .string c.sessionId),
            (bytes "job_id", .string job.jobId),
            (bytes "nonce", .string (lowerHex (bytesOfNat job.nonceSize nonce.toNat))),
            (bytes "result", .string (lowerHex hash.bytes))])]
      else
        .object [(bytes "id", .number (decimal c.requestId.toNat)),
          (bytes "method", .string (bytes "mining.submit")),
          (bytes "params", .array [.string c.wallet, .string job.jobId,
            .string (lowerHex (bytesOfNat job.nonceSize nonce.toNat))])]) := by
  -- hexadecimal strings are pasted without escaping; there is nothing to escape
  have hNonce : escape (nonceToHex nonce job.nonceSize) = nonceToHex nonce job.nonceSize := by
    rw [nonceToHex_eq, escape_lowerHex]
  have hResult : escape (bytesToHex hash.bytes) = bytesToHex hash.bytes := by
    rw [bytesToHex_eq, escape_lowerHex]
  by_cases hProtocol : c.protocol = .cryptonote
  · have h := jsonrpc_isLine (c.buildSubmitMsg job nonce hash).1 c.requestId (bytes "submit")
      [(bytes "id", stringDoc c.sessionId), (bytes "job_id", stringDoc job.jobId),
        (bytes "nonce", stringDoc (nonceToHex nonce job.nonceSize)),
        (bytes "result", stringDoc (bytesToHex hash.bytes))]
      (by simp [stringDoc, Doc.Compact]) (by
        simp [StratumClient.buildSubmitMsg, hProtocol, jsonrpcDoc, Doc.text, compactMembers,
          Members.text, Members.tailText, quoted, idDoc, Scalar.text, stringDoc_text,
          escapeSpelling_text, Space.none, hNonce, hResult]
        rfl)
    rw [if_pos hProtocol]
    simpa [stringDoc_value, nonceToHex_eq, bytesToHex_eq] using h
  · rw [if_neg hProtocol, StratumClient.buildSubmitMsg, if_neg hProtocol, ← nonceToHex_eq]
    exact rpcEnvelope_isLine c.requestId
      [c.wallet, job.jobId, nonceToHex nonce job.nonceSize] rfl (by
        simp [Doc.text, compactItems, Items.text, Items.tailText, stringDoc_text, Space.none,
          hNonce]
        rfl)

theorem buildKeepaliveMsg_isLine (c : StratumClient) :
    IsLine c.buildKeepaliveMsg.1
      (.object [(bytes "id", .number (decimal c.requestId.toNat)),
        (bytes "jsonrpc", .string (bytes "2.0")), (bytes "method", .string (bytes "keepalived")),
        (bytes "params", .object [(bytes "id", .string c.sessionId)])]) := by
  have h := jsonrpc_isLine c.buildKeepaliveMsg.1 c.requestId (bytes "keepalived")
    [(bytes "id", stringDoc c.sessionId)] (by simp [stringDoc, Doc.Compact]) (by
      simp [StratumClient.buildKeepaliveMsg, jsonrpcDoc, Doc.text, compactMembers, Members.text,
        Members.tailText, quoted, idDoc, Scalar.text, stringDoc_text, escapeSpelling_text,
        Space.none]
      rfl)
  simpa [stringDoc_value] using h

/-- **Whatever bytes the wallet, password, session and job id hold, every message
is one line that a JSON parser reads as the intended request.** -/
theorem messages_parse (c : StratumClient) (job : Job) (nonce : BitVec 64) (hash : Bytes32) :
    IsLine c.buildLoginMsg.1
      (.object [(bytes "id", .number (decimal c.requestId.toNat)),
        (bytes "jsonrpc", .string (bytes "2.0")), (bytes "method", .string (bytes "login")),
        (bytes "params", .object [(bytes "login", .string c.wallet),
          (bytes "pass", .string c.password), (bytes "agent", .string (bytes "armrx/1.0")),
          (bytes "rigid", .string []), (bytes "algo", .array [.string (bytes "rx/0")])])]) ∧
    IsLine c.buildAuthorizeMsg.1
      (.object [(bytes "id", .number (decimal c.requestId.toNat)),
        (bytes "method", .string (bytes "mining.authorize")),
        (bytes "params", .array [.string c.wallet, .string c.password])]) ∧
    IsLine (c.buildSubmitMsg job nonce hash).1
      (if c.protocol = .cryptonote then
        .object [(bytes "id", .number (decimal c.requestId.toNat)),
          (bytes "jsonrpc", .string (bytes "2.0")), (bytes "method", .string (bytes "submit")),
          (bytes "params", .object [(bytes "id", .string c.sessionId),
            (bytes "job_id", .string job.jobId),
            (bytes "nonce", .string (lowerHex (bytesOfNat job.nonceSize nonce.toNat))),
            (bytes "result", .string (lowerHex hash.bytes))])]
      else
        .object [(bytes "id", .number (decimal c.requestId.toNat)),
          (bytes "method", .string (bytes "mining.submit")),
          (bytes "params", .array [.string c.wallet, .string job.jobId,
            .string (lowerHex (bytesOfNat job.nonceSize nonce.toNat))])]) ∧
    IsLine c.buildKeepaliveMsg.1
      (.object [(bytes "id", .number (decimal c.requestId.toNat)),
        (bytes "jsonrpc", .string (bytes "2.0")), (bytes "method", .string (bytes "keepalived")),
        (bytes "params", .object [(bytes "id", .string c.sessionId)])]) :=
  ⟨buildLoginMsg_isLine c, buildAuthorizeMsg_isLine c, buildSubmitMsg_isLine c job nonce hash,
    buildKeepaliveMsg_isLine c⟩

end ArmRx.Pool
