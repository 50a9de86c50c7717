import ArmRx.Lib.Json.Text

/-!
# Reading lines from the pool

`StratumClient::read_line` (`src/stratum_client.cpp`) cuts the received bytes
into lines. What a call does not use stays in `read_buf_` for the next one. The
functions are stated over received bytes of any type `α`, so that a byte can
carry where it came from.

* `readLine_terminated`, `readLine_tail` — one call, on what is buffered and
  what is still to come.
* `readLines_eq` — the results of all calls depend on the stream only, not on
  how it was cut into receives.
-/

namespace ArmRx.Pool

open ArmRx.Lib.Json

section ReadLine

variable {α : Type} (byte : α → BitVec 8)

def isNewline (a : α) : Bool := byte a = 0x0a#8

/-- Strip an optional trailing `'\r'`. -/
def stripCr (out : List α) : List α :=
  match out.getLast? with
  | some a => if byte a = 0x0d#8 then out.dropLast else out
  | none => out

/-- The first line of the buffer and what is left of it. -/
def takeLine (buf : List α) : Option (List α × List α) :=
  (buf.findIdx? (isNewline byte)).map fun nl => (stripCr byte (buf.take nl), buf.drop (nl + 1))

def kMaxBuf : Nat := 1 <<< 20

/-- Append what one `recv` returned; a buffer over the cap is given up. -/
def receive (buf chunk : List α) : Option (List α) :=
  if buf.length + chunk.length > kMaxBuf then none else some (buf ++ chunk)

/-- What is returned at the end of the stream. -/
def atEof (buf : List α) : Option (List α) := if buf.isEmpty then none else some buf

/-- What a call leaves for the next one. -/
structure Stream (α : Type) where
  buf : List α
  chunks : List (List α)

/-- `read_line`, on the buffer and the receives still to come, after which the
stream has ended: the line, or `none` for `false`. -/
def readLine (buf : List α) (chunks : List (List α)) : Option (List α) × Stream α :=
  match takeLine byte buf with
  | some (line, rest) => (some line, ⟨rest, chunks⟩)
  | none =>
    match chunks with
    | [] => (atEof buf, ⟨[], []⟩)
    | chunk :: chunks =>
      match receive buf chunk with
      | none => (none, ⟨[], chunks⟩)
      | some buf => readLine buf chunks

/-- The results of the first `k` calls. -/
def readLines : Nat → Stream α → List (Option (List α))
  | 0, _ => []
  | k + 1, s => (readLine byte s.buf s.chunks).1 :: readLines k (readLine byte s.buf s.chunks).2

/-! ## One call -/

theorem takeLine_append {seg : List α} (hSeg : ∀ a ∈ seg, isNewline byte a = false) {nl : α}
    (hNl : isNewline byte nl = true) (rest : List α) :
    takeLine byte (seg ++ nl :: rest) = some (stripCr byte seg, rest) := by
  have hFind : (seg ++ nl :: rest).findIdx? (isNewline byte) = some seg.length := by
    rw [List.findIdx?_append, List.findIdx?_eq_none_iff.mpr hSeg]
    simp [List.findIdx?_cons, hNl]
  simp [takeLine, hFind]

theorem takeLine_eq_none {buf : List α} (hBuf : ∀ a ∈ buf, isNewline byte a = false) :
    takeLine byte buf = none := by
  rw [takeLine, List.findIdx?_eq_none_iff.mpr hBuf, Option.map_none]

/-- A list with a newline splits at its first one. -/
theorem exists_first_newline {buf : List α} (h : ¬ ∀ a ∈ buf, isNewline byte a = false) :
    ∃ seg nl rest, buf = seg ++ nl :: rest ∧ (∀ a ∈ seg, isNewline byte a = false) ∧
      isNewline byte nl = true := by
  induction buf with
  | nil => exact absurd (by simp) h
  | cons a buf ih =>
    by_cases ha : isNewline byte a = true
    · exact ⟨[], a, buf, rfl, by simp, ha⟩
    · obtain ⟨seg, nl, rest, rfl, hSeg, hNl⟩ := ih fun hBuf => h (by simp_all)
      exact ⟨a :: seg, nl, rest, rfl, by simp_all, hNl⟩

/-- The segment in front of the first newline is what the stream starts with up
to there. -/
theorem takeWhile_segment {seg : List α} (hSeg : ∀ a ∈ seg, isNewline byte a = false) {nl : α}
    (hNl : isNewline byte nl = true) (rest : List α) :
    (seg ++ nl :: rest).takeWhile (!isNewline byte ·) = seg := by
  rw [List.takeWhile_append_of_pos (by simpa using hSeg)]
  simp [hNl]

/-- The size of one receive. -/
def IsChunk (chunk : List α) : Prop := 1 ≤ chunk.length ∧ chunk.length ≤ 4096

/-- A buffer without a complete line holds part of one segment of the stream. -/
theorem receive_eq {buf chunk : List α} (hBuf : buf.length ≤ 2 ^ 20 - 4096)
    (hChunk : IsChunk chunk) : receive buf chunk = some (buf ++ chunk) := by
  have hMax : kMaxBuf = 2 ^ 20 := rfl
  rw [receive, if_neg]
  rw [hMax]
  have := hChunk.2
  omega

/-- A call on a stream with a newline still in it returns the segment in front
of the first one and consumes it with its newline. -/
theorem readLine_terminated (chunks : List (List α)) {buf seg rest : List α} {nl : α}
    (hStream : buf ++ chunks.flatten = seg ++ nl :: rest)
    (hSeg : ∀ a ∈ seg, isNewline byte a = false) (hNl : isNewline byte nl = true)
    (hLength : seg.length ≤ 2 ^ 20 - 4096) (hChunks : ∀ chunk ∈ chunks, IsChunk chunk) :
    ∃ s : Stream α, readLine byte buf chunks = (some (stripCr byte seg), s) ∧
      s.buf ++ s.chunks.flatten = rest ∧ ∀ chunk ∈ s.chunks, IsChunk chunk := by
  -- the induction is on the receives still to come; each one grows the buffer
  induction chunks generalizing buf with
  | nil =>
    simp only [List.flatten_nil, List.append_nil] at hStream
    refine ⟨⟨rest, []⟩, ?_, by simp, by simp⟩
    rw [readLine, hStream, takeLine_append byte hSeg hNl]
  | cons chunk chunks ih =>
    by_cases hBuf : ∀ a ∈ buf, isNewline byte a = false
    · -- no newline yet: the buffer is a part of the segment
      have hPrefix : buf.length ≤ seg.length := by
        have hTake := congrArg (List.takeWhile (!isNewline byte ·)) hStream
        rw [takeWhile_segment byte hSeg hNl, List.takeWhile_append_of_pos (by simpa using hBuf)]
          at hTake
        rw [← hTake, List.length_append]
        omega
      have hReceive : receive buf chunk = some (buf ++ chunk) :=
        receive_eq (hPrefix.trans hLength) (hChunks chunk List.mem_cons_self)
      rw [readLine, takeLine_eq_none byte hBuf]
      simp only [hReceive]
      refine ih ?_ fun c hc => hChunks c (List.mem_cons_of_mem _ hc)
      rw [← hStream, List.flatten_cons, List.append_assoc]
    · obtain ⟨seg', nl', rest', rfl, hSeg', hNl'⟩ := exists_first_newline byte hBuf
      rw [List.append_assoc, List.cons_append] at hStream
      have hSame : seg' = seg := by
        have hTake := congrArg (List.takeWhile (!isNewline byte ·)) hStream
        rwa [takeWhile_segment byte hSeg hNl, takeWhile_segment byte hSeg' hNl'] at hTake
      subst hSame
      have hRest := List.cons.inj (List.append_cancel_left hStream)
      refine ⟨⟨rest', chunk :: chunks⟩, ?_, hRest.2, hChunks⟩
      rw [readLine, takeLine_append byte hSeg' hNl']

/-- A call on a stream without a newline returns all of it, if there is any. -/
theorem readLine_tail (chunks : List (List α)) {buf : List α}
    (hStream : ∀ a ∈ buf ++ chunks.flatten, isNewline byte a = false)
    (hLength : (buf ++ chunks.flatten).length ≤ 2 ^ 20 - 4096)
    (hChunks : ∀ chunk ∈ chunks, IsChunk chunk) :
    readLine byte buf chunks = (atEof (buf ++ chunks.flatten), ⟨[], []⟩) := by
  induction chunks generalizing buf with
  | nil =>
    simp only [List.flatten_nil, List.append_nil] at hStream ⊢
    rw [readLine, takeLine_eq_none byte hStream]
  | cons chunk chunks ih =>
    have hBuf : ∀ a ∈ buf, isNewline byte a = false := fun a ha =>
      hStream a (List.mem_append_left _ ha)
    have hReceive : receive buf chunk = some (buf ++ chunk) := by
      refine receive_eq (le_trans ?_ hLength) (hChunks chunk List.mem_cons_self)
      simp
    have hAssoc : buf ++ (chunk :: chunks).flatten = buf ++ chunk ++ chunks.flatten := by simp
    rw [readLine, takeLine_eq_none byte hBuf]
    simp only [hReceive]
    rw [hAssoc] at hStream hLength ⊢
    exact ih hStream hLength fun c hc => hChunks c (List.mem_cons_of_mem _ hc)

/-! ## All calls -/

/-- The lines of a stream: its segments up to the last newline, each without an
optional `'\r'`, and its unterminated tail as it is, if there is one. -/
def streamLines (stream : List α) : List (List α) :=
  let segments := stream.splitOnP (isNewline byte)
  segments.dropLast.map (stripCr byte) ++ (segments.getLast?.bind atEof).toList

/-- The results of `k` calls that return the given lines and then fail. -/
def firstResults (k : Nat) (lines : List (List α)) : List (Option (List α)) :=
  (lines.take k).map some ++ List.replicate (k - lines.length) none

theorem streamLines_terminated {seg : List α} (hSeg : ∀ a ∈ seg, isNewline byte a = false)
    {nl : α} (hNl : isNewline byte nl = true) (rest : List α) :
    streamLines byte (seg ++ nl :: rest) = stripCr byte seg :: streamLines byte rest := by
  have hNe := List.splitOnP_ne_nil (isNewline byte) rest
  simp only [streamLines, List.splitOnP_append_cons_of_forall_mem hSeg nl hNl rest]
  rw [List.dropLast_cons_of_ne_nil hNe, List.getLast?_cons_of_ne_nil hNe]
  rfl

theorem streamLines_tail {tail : List α} (hTail : ∀ a ∈ tail, isNewline byte a = false) :
    streamLines byte tail = (atEof tail).toList := by
  simp [streamLines, List.splitOnP_eq_singleton hTail]

/-- Once the stream is used up every call fails. -/
theorem readLines_ended (k : Nat) : readLines byte k ⟨[], []⟩ = List.replicate k none := by
  induction k with
  | zero => rfl
  | succ k ih =>
    have hLine : readLine byte [] [] = (none, ⟨[], []⟩) := by
      simp [readLine, takeLine, atEof]
    rw [readLines, hLine, List.replicate_succ]
    exact congrArg _ ih

/-- The results of `k` calls are the lines of the stream and then failures. -/
theorem readLines_stream (k : Nat) (s : Stream α)
    (hLength : ∀ seg ∈ (s.buf ++ s.chunks.flatten).splitOnP (isNewline byte),
      seg.length ≤ 2 ^ 20 - 4096)
    (hChunks : ∀ chunk ∈ s.chunks, IsChunk chunk) :
    readLines byte k s = firstResults k (streamLines byte (s.buf ++ s.chunks.flatten)) := by
  induction k generalizing s with
  | zero => simp [readLines, firstResults]
  | succ k ih =>
    by_cases hTail : ∀ a ∈ s.buf ++ s.chunks.flatten, isNewline byte a = false
    · -- the last segment: the call returns it, and the stream has ended
      have hShort : (s.buf ++ s.chunks.flatten).length ≤ 2 ^ 20 - 4096 :=
        hLength _ (by simp [List.splitOnP_eq_singleton hTail])
      rw [readLines, readLine_tail byte s.chunks hTail hShort hChunks, readLines_ended,
        streamLines_tail byte hTail]
      cases atEof (s.buf ++ s.chunks.flatten) with
      | none => simp [firstResults, List.replicate_succ]
      | some tail => simp [firstResults]
    · obtain ⟨seg, nl, rest, hStream, hSeg, hNl⟩ := exists_first_newline byte hTail
      rw [hStream, List.splitOnP_append_cons_of_forall_mem hSeg nl hNl] at hLength
      obtain ⟨s', hLine, hRest, hChunks'⟩ := readLine_terminated byte s.chunks hStream hSeg hNl
        (hLength seg List.mem_cons_self) hChunks
      have hNext := ih s' (by
        intro seg' hSeg'
        rw [hRest] at hSeg'
        exact hLength seg' (List.mem_cons_of_mem _ hSeg')) hChunks'
      rw [readLines, hLine, hNext, hRest, hStream, streamLines_terminated byte hSeg hNl]
      simp [firstResults]

end ReadLine

/-- **Line framing does not depend on the chunking.** For every byte stream
whose segments between newlines are at most `2 ^ 20 - 4096` bytes long and every
way it is received in pieces of 1 to 4096 bytes, the successive results of
`read_line` are the lines of the stream and then failure. -/
theorem readLines_eq (stream : Bytes) (chunks : List Bytes) (k : Nat)
    (hStream : chunks.flatten = stream) (hChunks : ∀ chunk ∈ chunks, IsChunk chunk)
    (hLength : ∀ seg ∈ stream.splitOnP (· == 0x0a#8), seg.length ≤ 2 ^ 20 - 4096) :
    readLines id k ⟨[], chunks⟩ = firstResults k (streamLines id stream) := by
  subst hStream
  exact readLines_stream id k ⟨[], chunks⟩ hLength hChunks

/-- Two lines whose line ends are cut in two, and a tail. -/
theorem readLines_eq_two_lines :
    readLines id 4 ⟨[], [bytes "a\r", bytes "\nb", bytes "\nc"]⟩ =
        firstResults 4 (streamLines id (bytes "a\r\nb\nc")) ∧
      firstResults 4 (streamLines id (bytes "a\r\nb\nc")) =
        [some (bytes "a"), some (bytes "b"), some (bytes "c"), none] := by
  refine ⟨readLines_eq _ _ 4 rfl ?_ ?_, by decide⟩
  · simp only [IsChunk]
    decide
  · decide

end ArmRx.Pool
