import ArmRx.Pool.Json

/-!
# Key lookup by substring search

`find_key` looks for the quoted name and checks the character in front of it.
This module says for which JSON objects that finds the member a parser would
find. The search is followed over the grammar of JSON texts: `Scans` says what
it does on one piece of a text with the rest of the text present, and pieces are
put together by `Scans.append` and `Scans.bind`.

Besides the strings of a text the search can match what stands between two of
them: a closing quote, a separator that is spelled like the key, and the opening
quote of the next string. If it rejects such an occurrence it goes on inside that
string (`Cursor.inside`).

* `findKey_structural_iff` — the lookup is right exactly when the search passes
  everything in front of the member, reaches the member's opening quote, the name
  is spelled without escapes and only blanks stand between it and the comma or
  brace before it.
-/

namespace ArmRx.Pool

open ArmRx.Lib.Json

variable {key : Bytes}

/-! ## The loop -/

section Loop

variable {search before rest : Bytes}

theorem scanKey_skip_add (search before a rest : Bytes) (n : Nat) :
    scanKey search before (a ++ rest) (a.length + n) =
      scanKey search (a.reverse ++ before) rest n := by
  induction a generalizing before with
  | nil => simp
  | cons c a ih =>
    have hSkip : (c :: a).length + n = a.length + n + 1 := by
      rw [List.length_cons]
      omega
    rw [List.cons_append, hSkip, scanKey, ih, List.reverse_cons, List.append_assoc]
    rfl

theorem scanKey_skip (search before a rest : Bytes) :
    scanKey search before (a ++ rest) a.length = scanKey search (a.reverse ++ before) rest 0 :=
  scanKey_skip_add search before a rest 0

theorem scanKey_pass {c : BitVec 8} (hMiss : ¬ search <+: c :: rest) :
    scanKey search before (c :: rest) 0 = scanKey search (c :: before) rest 0 := by
  rw [scanKey, if_neg (by simpa using hMiss)]

/-- What the search takes is an occurrence that passes the scope check. -/
theorem scanKey_sound {skip p : Nat} (h : scanKey search before rest skip = some p) :
    ∃ pre post, rest = pre ++ post ∧ p = before.length + pre.length ∧ search <+: post ∧
      atObjectKey (pre.reverse ++ before) = true := by
  have hCons {before rest : Bytes} {c : BitVec 8}
      (h : ∃ pre post, rest = pre ++ post ∧ p = (c :: before).length + pre.length ∧
        search <+: post ∧ atObjectKey (pre.reverse ++ c :: before) = true) :
      ∃ pre post, c :: rest = pre ++ post ∧ p = before.length + pre.length ∧ search <+: post ∧
        atObjectKey (pre.reverse ++ before) = true := by
    obtain ⟨pre, post, rfl, hp, hMatch, hAt⟩ := h
    refine ⟨c :: pre, post, rfl, ?_, hMatch, by simpa using hAt⟩
    simp only [List.length_cons] at hp ⊢
    omega
  fun_induction scanKey search before rest skip with
  | case1 => cases h
  | case2 before c rest skip ih => exact hCons (ih h)
  | case3 before c rest hMatch hAt =>
    cases h
    exact ⟨[], c :: rest, rfl, rfl, List.isPrefixOf_iff_prefix.mp hMatch, hAt⟩
  | case4 before c rest hMatch hAt ih => exact hCons (ih h)
  | case5 before c rest hMatch ih => exact hCons (ih h)

theorem scanKey_ge {skip p : Nat} (h : scanKey search before rest skip = some p) :
    before.length ≤ p := by
  obtain ⟨pre, post, -, hp, -⟩ := scanKey_sound h
  omega

end Loop

/-- An occurrence of the quoted key begins with a quote. -/
theorem not_prefix_quoted {c : BitVec 8} {rest : Bytes} (hc : c ≠ quote) :
    ¬ quoted key <+: c :: rest := by
  intro h
  exact hc (List.cons_prefix_cons.mp h).1.symm

theorem quoted_prefix_iff {rest : Bytes} :
    quoted key <+: quote :: rest ↔ key ++ [quote] <+: rest := by
  rw [quoted, List.cons_prefix_cons]
  exact ⟨And.right, fun h => ⟨rfl, h⟩⟩

/-- Nothing is taken in a text without quotes. -/
theorem scanKey_noQuote {rest : Bytes} (hQuote : quote ∉ rest) (before : Bytes) (skip : Nat) :
    scanKey (quoted key) before rest skip = none := by
  cases hScan : scanKey (quoted key) before rest skip with
  | none => rfl
  | some p =>
    obtain ⟨pre, post, rfl, -, ⟨more, rfl⟩, -⟩ := scanKey_sound hScan
    exact absurd (by simp [quoted]) hQuote

/-! ## Behind the occurrence -/

/-- How far behind the name its value starts, if a colon follows. -/
def valueAfter (post : Bytes) : Option Nat :=
  match post.dropWhile isSpace with
  | [] => none
  | c :: more =>
    if c = colon then
      some ((post.takeWhile isSpace).length + 1 + (more.takeWhile isSpace).length)
    else none

theorem findKey_of_scan {json pre post : Bytes} (hJson : json = pre ++ (quoted key ++ post))
    (hScan : scanKey (quoted key) [] json 0 = some pre.length) :
    findKey json key =
      (valueAfter post).map (fun n => pre.length + (quoted key).length + n) := by
  have hDrop : json.drop (pre.length + (quoted key).length) = post := by
    rw [hJson, ← List.append_assoc, ← List.length_append, List.drop_left]
  have hRest (i : Nat) :
      json.drop (pre.length + (quoted key).length + i) = post.drop i := by
    rw [← List.drop_drop, hDrop]
  have hSplit : post.takeWhile isSpace ++ post.dropWhile isSpace = post :=
    List.takeWhile_append_dropWhile
  have hBehind : post.drop (post.takeWhile isSpace).length = post.dropWhile isSpace := by
    calc post.drop (post.takeWhile isSpace).length
        = (post.takeWhile isSpace ++ post.dropWhile isSpace).drop
            (post.takeWhile isSpace).length := by rw [hSplit]
      _ = post.dropWhile isSpace := List.drop_left
  -- the character that `find_key` compares with the colon
  have hColon : json[pre.length + (quoted key).length + (post.takeWhile isSpace).length]? =
      (post.dropWhile isSpace).head? := by
    rw [← List.head?_drop, hRest, hBehind]
  unfold findKey valueAfter
  rw [hScan]
  simp only [skipWs, hDrop, hColon]
  cases hHead : post.dropWhile isSpace with
  | nil => rfl
  | cons c more =>
    rw [hHead] at hBehind
    have hMore : json.drop (pre.length + (quoted key).length +
        (post.takeWhile isSpace).length + 1) = more := by
      rw [Nat.add_assoc, hRest, ← List.drop_drop, hBehind]
      rfl
    simp only [List.head?_cons, Option.some.injEq, hMore]
    split
    · rw [Option.map_some]
      congr 1
      omega
    · rfl

theorem findKey_of_scan_none {json : Bytes} (hScan : scanKey (quoted key) [] json 0 = none) :
    findKey json key = none := by
  unfold findKey
  rw [hScan]

theorem takeWhile_space (w : Space) {c : BitVec 8} (hc : isSpace c = false) (rest : Bytes) :
    (w.text ++ c :: rest).takeWhile isSpace = w.text := by
  rw [List.takeWhile_append_of_pos (List.all_eq_true.mp w.valid),
    List.takeWhile_cons_of_neg (by simp [hc]), List.append_nil]

theorem dropWhile_space (w : Space) {c : BitVec 8} (hc : isSpace c = false) (rest : Bytes) :
    (w.text ++ c :: rest).dropWhile isSpace = c :: rest := by
  rw [List.dropWhile_append_of_pos (List.all_eq_true.mp w.valid),
    List.dropWhile_cons_of_neg (by simp [hc])]

/-- A name is followed by its value, which starts behind the white space. -/
theorem valueAfter_text (afterName beforeValue : Space) {c : BitVec 8} (hc : isSpace c = false)
    (rest : Bytes) :
    valueAfter (afterName.text ++ colon :: (beforeValue.text ++ c :: rest)) =
      some (afterName.text.length + 1 + beforeValue.text.length) := by
  have hColon : isSpace colon = false := by decide
  unfold valueAfter
  rw [dropWhile_space _ hColon, takeWhile_space _ hColon]
  simp only [if_true]
  rw [takeWhile_space _ hc]

theorem valueAfter_name (afterName beforeValue : Space) (value : Doc) (rest : Bytes) :
    valueAfter (afterName.text ++ colon :: (beforeValue.text ++ (value.text ++ rest))) =
      some (afterName.text.length + 1 + beforeValue.text.length) := by
  obtain ⟨c, more, hText, hSpace, -⟩ := value.text_head
  rw [hText, List.cons_append]
  exact valueAfter_text afterName beforeValue hSpace (more ++ rest)

/-- What is followed by anything but a colon is no name. -/
theorem valueAfter_other (after : Space) {c : BitVec 8} (hSpace : isSpace c = false)
    (hColon : c ≠ colon) (rest : Bytes) : valueAfter (after.text ++ c :: rest) = none := by
  unfold valueAfter
  rw [dropWhile_space _ hSpace]
  simp only [if_neg hColon]

/-! ## In front of the occurrence -/

/-- The scope check sees the last token when only blanks follow it, and rejects
what stands on a new line. -/
theorem atObjectKey_space (w : Space) {c : BitVec 8} (hc : isBlank c = false) (before : Bytes) :
    atObjectKey (w.text.reverse ++ c :: before) =
      (w.text.all isBlank && (c = openBrace || c = comma)) := by
  have hNewline : ∀ x : BitVec 8, isSpace x = true → isBlank x = false →
      (decide (x = openBrace) || decide (x = comma)) = false :=
    forall_isSpace (by decide) (by decide) (by decide) (by decide)
  unfold atObjectKey
  rw [List.dropWhile_append]
  cases hDrop : w.text.reverse.dropWhile isBlank with
  | nil =>
    have hAll : w.text.all isBlank = true := by
      rw [List.all_eq_true]
      intro x hx
      exact List.dropWhile_eq_nil_iff.mp hDrop x (List.mem_reverse.mpr hx)
    rw [hAll]
    simp [hc]
  | cons x more =>
    -- the first character that is no blank is a line break
    have hMem : x ∈ w.text := by
      rw [← List.mem_reverse]
      exact (List.dropWhile_sublist isBlank).subset (by rw [hDrop]; exact List.mem_cons_self)
    have hx : isBlank x = false := by
      have := List.head?_dropWhile_not isBlank w.text.reverse
      rw [hDrop] at this
      simpa using this
    have hAll : w.text.all isBlank = false := by
      rw [List.all_eq_false]
      exact ⟨x, hMem, by simp [hx]⟩
    rw [hAll]
    exact hNewline x (List.all_eq_true.mp w.valid x hMem) hx

/-- A name passes the scope check when it follows its brace or comma with blanks
only. -/
theorem atObjectKey_name (lead : Space) {c : BitVec 8} (hc : c = openBrace ∨ c = comma)
    (before : Bytes) :
    atObjectKey (lead.text.reverse ++ c :: before) = lead.text.all isBlank := by
  rcases hc with rfl | rfl
  · rw [atObjectKey_space lead (by decide)]
    exact Bool.and_true _
  · rw [atObjectKey_space lead (by decide)]
    exact Bool.and_true _

/-- A value behind its colon never does. -/
theorem atObjectKey_value (beforeValue : Space) (before : Bytes) :
    atObjectKey (beforeValue.text.reverse ++ colon :: before) = false := by
  rw [atObjectKey_space beforeValue (by decide)]
  exact Bool.and_false _

/-! ## Passing a text -/

/-- Where the search stands between two strings: in front of the next one, or
inside it, behind its opening quote. -/
inductive Cursor where
  | free
  | inside
  deriving DecidableEq, Repr

/-- An occurrence that passes the scope check. -/
inductive Hit where
  /-- a colon follows, and what stands behind it is taken for the value -/
  | value
  /-- no colon follows, and the lookup fails -/
  | nothing
  deriving DecidableEq, Repr

/-- The string ends in an escaped quote and the key. The search takes the escaped
and the closing quote for the quotes around the key, and goes on behind them. -/
def endsQuoted (key : Bytes) : Spelling → Bool
  | [] => false
  | u :: s => (u.text = [backslash, quote] && Spelling.text s = key) || endsQuoted key s

/-- At the closing quote of a string, with `rest` behind it. `atKey` says that the
content of the string passes the scope check. -/
def passClosing (key : Bytes) (atKey : Bool) (s : Spelling) (rest : Bytes) : Except Hit Cursor :=
  if endsQuoted key s then .ok .free
  else if (key ++ [quote]).isPrefixOf rest then
    -- the separator is spelled like the key and another string follows
    if atKey then
      .error (if (valueAfter (rest.drop (key.length + 1))).isSome then .value else .nothing)
    else .ok .inside
  else .ok .free

/-- A string, with `rest` behind it. `taken` says what follows from taking it for
the member, if it passes the scope check. -/
def passString (key : Bytes) (taken : Option Hit) (s : Spelling) (rest : Bytes)
    (cursor : Cursor) : Except Hit Cursor :=
  if cursor = .free ∧ s.text = key then
    match taken with
    | some hit => .error hit
    | none => .ok .free
  else passClosing key (atObjectKey (s.text.reverse ++ [quote])) s rest

/-- The name of a member. -/
def passName (key : Bytes) (before : Space) (name : Spelling) (rest : Bytes) :
    Cursor → Except Hit Cursor :=
  passString key (if before.text.all isBlank then some .value else none) name rest

mutual

/-- A value. A string that stands behind a comma and blanks in an array passes
the scope check. -/
def passDoc (key : Bytes) (atKey : Bool) : Doc → Bytes → Cursor → Except Hit Cursor
  | .scalar _, _, cursor => .ok cursor
  | .string s, rest, cursor =>
    passString key (if atKey then some .nothing else none) s rest cursor
  | .array items, rest, cursor => passItems key false items (closeBracket :: rest) cursor
  | .object members, rest, cursor => passMembers key members (closeBrace :: rest) cursor

def passItems (key : Bytes) (behindComma : Bool) : Items → Bytes → Cursor → Except Hit Cursor
  | .nil _, _, cursor => .ok cursor
  | .cons before value after more, rest, cursor =>
    (passDoc key (behindComma && before.text.all isBlank) value
      (after.text ++ (more.tailText ++ rest)) cursor).bind (passItems key true more rest)

def passMembers (key : Bytes) : Members → Bytes → Cursor → Except Hit Cursor
  | .nil _, _, cursor => .ok cursor
  | .cons before name afterName beforeValue value after more, rest, cursor =>
    ((passName key before name (afterName.text ++ colon :: (beforeValue.text ++ (value.text ++
      (after.text ++ (more.tailText ++ rest))))) cursor).bind
        (passDoc key false value (after.text ++ (more.tailText ++ rest)))).bind
          (passMembers key more rest)

end

/-! ## Scanning a piece of a text -/

/-- The characters still to pass. -/
def Cursor.skip : Cursor → Bytes → Nat
  | .free, _ => 0
  | .inside, text => (text.takeWhile (· ≠ quote)).length + 1

/-- From `cursor` the search stops at an occurrence that begins in the first
`stop` characters of `text`. -/
def Stops (key before text : Bytes) (cursor : Cursor) (stop : Nat) (hit : Hit) : Prop :=
  ∃ pre post, text = pre ++ (quoted key ++ post) ∧
    scanKey (quoted key) before text (cursor.skip text) = some (before.length + pre.length) ∧
    pre.length < stop ∧ (hit = .value ↔ (valueAfter post).isSome = true)

/-- The search passes over `text`, or stops in it. -/
def Scans (key : Bytes) (cursor : Cursor) (before text rest : Bytes) : Except Hit Cursor → Prop
  | .ok cursor' =>
    scanKey (quoted key) before (text ++ rest) (cursor.skip (text ++ rest)) =
      scanKey (quoted key) (text.reverse ++ before) rest (cursor'.skip rest)
  | .error hit => Stops key before (text ++ rest) cursor text.length hit

theorem Cursor.inside_skip_append {a : Bytes} (hQuote : quote ∉ a) (rest : Bytes) :
    Cursor.inside.skip (a ++ rest) = a.length + Cursor.inside.skip rest := by
  have hAll : ∀ c ∈ a, decide (c ≠ quote) = true := fun c hc =>
    decide_eq_true fun h => hQuote (h ▸ hc)
  rw [Cursor.skip, Cursor.skip, List.takeWhile_append_of_pos hAll, List.length_append]
  omega

theorem Scans.append {cursor cursor' : Cursor} {before a b rest : Bytes} {r : Except Hit Cursor}
    (hFirst : Scans key cursor before a (b ++ rest) (.ok cursor'))
    (hSecond : Scans key cursor' (a.reverse ++ before) b rest r) :
    Scans key cursor before (a ++ b) rest r := by
  cases r with
  | ok cursor'' =>
    unfold Scans at *
    rw [List.append_assoc, hFirst, hSecond, List.reverse_append, List.append_assoc]
  | error hit =>
    obtain ⟨pre, post, hText, hScan, hLt, hHit⟩ := hSecond
    refine ⟨a ++ pre, post, by rw [List.append_assoc, hText, List.append_assoc], ?_, ?_, hHit⟩
    · unfold Scans at hFirst
      rw [List.append_assoc, hFirst, hScan, List.length_append, List.length_append,
        List.length_reverse]
      congr 1
      omega
    · rw [List.length_append, List.length_append]
      omega

/-- Two pieces one behind the other. -/
theorem Scans.bind {cursor : Cursor} {before a b rest : Bytes} {r : Except Hit Cursor}
    {f : Cursor → Except Hit Cursor} (hFirst : Scans key cursor before a (b ++ rest) r)
    (hSecond : ∀ cursor', Scans key cursor' (a.reverse ++ before) b rest (f cursor')) :
    Scans key cursor before (a ++ b) rest (r.bind f) := by
  cases r with
  | ok cursor' => exact hFirst.append (hSecond cursor')
  | error hit =>
    obtain ⟨pre, post, hText, hScan, hLt, hHit⟩ := hFirst
    refine ⟨pre, post, by rw [List.append_assoc, hText], by rw [List.append_assoc, hScan], ?_, hHit⟩
    rw [List.length_append]
    omega

theorem Scans.noQuote {a : Bytes} (hQuote : quote ∉ a) (cursor : Cursor) (before rest : Bytes) :
    Scans key cursor before a rest (.ok cursor) := by
  unfold Scans
  cases cursor with
  | free =>
    unfold Cursor.skip
    induction a generalizing before with
    | nil => rfl
    | cons c a ih =>
      have hc : c ≠ quote := fun h => hQuote (h ▸ List.mem_cons_self)
      rw [List.cons_append, scanKey_pass (not_prefix_quoted hc),
        ih (fun h => hQuote (List.mem_cons_of_mem _ h)), List.reverse_cons, List.append_assoc]
      rfl
  | inside =>
    rw [Cursor.inside_skip_append hQuote, scanKey_skip_add]

theorem Scans.space (w : Space) (cursor : Cursor) (before rest : Bytes) :
    Scans key cursor before w.text rest (.ok cursor) :=
  Scans.noQuote (quote_not_mem_space w) cursor before rest

theorem Scans.char {c : BitVec 8} (hc : c ≠ quote) (cursor : Cursor) (before rest : Bytes) :
    Scans key cursor before [c] rest (.ok cursor) :=
  Scans.noQuote (by simpa using hc.symm) cursor before rest

/-! ## String tokens -/

/-- The closing quote of a spelled string is the first quote a plain key can end
at. -/
theorem key_prefix_spelling (hPlain : ∀ b ∈ key, isPlain b = true) (s : Spelling) {rest : Bytes}
    (h : key ++ [quote] <+: s.text ++ quote :: rest) : s.text = key := by
  have hQuote : isPlain quote = false := by decide
  have hBackslash : isPlain backslash = false := by decide
  induction s generalizing key with
  | nil =>
    cases key with
    | nil => rfl
    | cons k key =>
      have hk : k = quote := (List.cons_prefix_cons.mp h).1
      have := hPlain k List.mem_cons_self
      simp [hk, hQuote] at this
  | cons u s ih =>
    have hText : Spelling.text (u :: s) = u.text ++ Spelling.text s := List.flatMap_cons
    rw [hText] at h ⊢
    cases u with
    | byte b valid =>
      cases key with
      | nil =>
        have hb : quote = b := (List.cons_prefix_cons.mp h).1
        rw [← hb, hQuote] at valid
        cases valid
      | cons k key =>
        obtain ⟨rfl, hMore⟩ := List.cons_prefix_cons.mp h
        exact congrArg (k :: ·) (ih (fun b hb => hPlain b (List.mem_cons_of_mem _ hb)) hMore)
    | short letter code valid => exact absurd h (not_prefix_backslash hPlain)
    | unicode a b c d valid => exact absurd h (not_prefix_backslash hPlain)
where
  not_prefix_backslash {key rest : Bytes} (hPlain : ∀ b ∈ key, isPlain b = true) :
      ¬ key ++ [quote] <+: backslash :: rest := by
    intro h
    cases key with
    | nil => exact absurd (List.cons_prefix_cons.mp h).1 (by decide)
    | cons k key =>
      have hk : k = backslash := (List.cons_prefix_cons.mp h).1
      have := hPlain k List.mem_cons_self
      rw [hk] at this
      exact absurd this (by decide)

theorem hexValue_ne_quote {b : BitVec 8} (h : (hexValue b).isSome = true) : b ≠ quote := by
  rintro rfl
  rw [hexValue_quote] at h
  cases h

/-- No quote stands in a `\u` escape. -/
theorem quote_not_mem_unicode {a b c d : BitVec 8} (valid : (hexValue a).isSome ∧
    (hexValue b).isSome ∧ (hexValue c).isSome ∧ (hexValue d).isSome) :
    quote ∉ (StringUnit.unicode a b c d valid).text := by
  obtain ⟨ha, hb, hc, hd⟩ := valid
  simp only [StringUnit.text, List.mem_cons, List.not_mem_nil, or_false]
  rintro (h | h | h | h | h | h)
  · exact absurd h (by decide)
  · exact absurd h (by decide)
  · exact hexValue_ne_quote ha h.symm
  · exact hexValue_ne_quote hb h.symm
  · exact hexValue_ne_quote hc h.symm
  · exact hexValue_ne_quote hd h.symm

theorem quote_not_mem_of_plain (hPlain : ∀ b ∈ key, isPlain b = true) : quote ∉ key := by
  intro hMem
  exact absurd (hPlain quote hMem) (by decide)

/-- The closing quote of a string without the key at its end. -/
theorem Scans.closing (hPlain : ∀ b ∈ key, isPlain b = true) (before rest : Bytes) :
    Scans key .free before [quote] rest (passClosing key (atObjectKey before) [] rest) := by
  unfold passClosing
  rw [endsQuoted, if_neg Bool.false_ne_true]
  split
  · -- the closing quote, a separator spelled like the key and the next opening quote
    rename_i hPrefix
    rw [List.isPrefixOf_iff_prefix] at hPrefix
    have hMatch : (quoted key).isPrefixOf (quote :: rest) = true := by
      rw [List.isPrefixOf_iff_prefix, quoted_prefix_iff]
      exact hPrefix
    obtain ⟨post, rfl⟩ := hPrefix
    have hDrop : (key ++ [quote] ++ post).drop (key.length + 1) = post :=
      List.drop_left' (by simp)
    cases hAt : atObjectKey before with
    | true =>
      rw [if_pos rfl, hDrop]
      refine ⟨[], post, by simp [quoted], ?_, by simp, by cases valueAfter post <;> simp⟩
      show scanKey (quoted key) before (quote :: (key ++ [quote] ++ post)) 0 = _
      rw [scanKey, if_pos hMatch, if_pos hAt]
      rfl
    | false =>
      -- rejected: the search goes on behind the quote it took for the closing one
      have hSkip : Cursor.inside.skip (key ++ [quote] ++ post) = (quoted key).length - 1 := by
        rw [List.append_assoc, Cursor.inside_skip_append (quote_not_mem_of_plain hPlain),
          List.singleton_append, Cursor.skip, List.takeWhile_cons_of_neg (by simp)]
        simp [quoted]
      rw [if_neg Bool.false_ne_true]
      show scanKey (quoted key) before (quote :: (key ++ [quote] ++ post)) 0 = _
      rw [scanKey, if_pos hMatch, hAt, if_neg Bool.false_ne_true, hSkip]
      rfl
  · rename_i hPrefix
    rw [List.isPrefixOf_iff_prefix] at hPrefix
    exact scanKey_pass (fun h => hPrefix (quoted_prefix_iff.mp h))

/-- An occurrence that fails the scope check is passed as a whole. -/
theorem Scans.rejected {before rest : Bytes} (hAt : atObjectKey before = false) :
    Scans key .free before (quoted key) rest (.ok .free) := by
  have hMatch : (quoted key).isPrefixOf (quote :: (key ++ [quote] ++ rest)) = true := by
    rw [List.isPrefixOf_iff_prefix, quoted_prefix_iff]
    exact List.prefix_append _ _
  have hLen : (quoted key).length - 1 = (key ++ [quote]).length := by
    rw [quoted, List.length_cons]
    rfl
  show scanKey (quoted key) before (quote :: (key ++ [quote] ++ rest)) 0 = _
  rw [scanKey, if_pos hMatch, hAt, if_neg Bool.false_ne_true, hLen, scanKey_skip]
  simp [quoted, Cursor.skip]

/-- The content of a string and its closing quote. Inside a string the search
stops at nothing: an escaped quote stands behind a backslash. -/
theorem Scans.spelling (hPlain : ∀ b ∈ key, isPlain b = true) (s : Spelling) (before rest : Bytes) :
    Scans key .free before (s.text ++ [quote]) rest
      (passClosing key (atObjectKey (s.text.reverse ++ before)) s rest) := by
  induction s generalizing before with
  | nil => exact Scans.closing hPlain before rest
  | cons u s ih =>
    have hText : Spelling.text (u :: s) = u.text ++ Spelling.text s := List.flatMap_cons
    have hBefore : (Spelling.text (u :: s)).reverse ++ before =
        (Spelling.text s).reverse ++ (u.text.reverse ++ before) := by
      rw [hText, List.reverse_append, List.append_assoc]
    -- a unit that is passed by itself leaves the rest of the string
    have hRest (hUnit : Scans key .free before u.text (Spelling.text s ++ [quote] ++ rest)
          (.ok .free)) (hEnds : endsQuoted key (u :: s) = endsQuoted key s) :
        Scans key .free before (Spelling.text (u :: s) ++ [quote]) rest
          (passClosing key (atObjectKey ((Spelling.text (u :: s)).reverse ++ before)) (u :: s)
            rest) := by
      have hTail := hUnit.append (ih (u.text.reverse ++ before))
      rw [hBefore, hText, List.append_assoc, passClosing, hEnds]
      exact hTail
    cases u with
    | byte b valid =>
      have hb : b ≠ quote := by
        rintro rfl
        exact absurd valid (by decide)
      exact hRest (Scans.char hb _ _ _) (by simp [endsQuoted, StringUnit.text])
    | unicode a b c d valid =>
      exact hRest (Scans.noQuote (quote_not_mem_unicode valid) _ _ _)
        (by simp [endsQuoted, StringUnit.text])
    | short letter code valid =>
      have hSlash (text : Bytes) : Scans key .free before [backslash] text (.ok .free) :=
        Scans.char (by decide) _ _ _
      by_cases hLetter : letter = quote
      · subst hLetter
        by_cases hKey : Spelling.text s = key
        · -- the escaped quote and the end of the string look like the key
          have hEnds : endsQuoted key (.short quote code valid :: s) = true := by
            simp [endsQuoted, StringUnit.text, hKey]
          have hToken : Spelling.text (.short quote code valid :: s) ++ [quote] =
              [backslash] ++ quoted key := by
            rw [hText, hKey]
            rfl
          rw [passClosing, hEnds, if_pos rfl, hToken]
          exact (hSlash _).append (Scans.rejected rfl)
        · have hEnds : endsQuoted key (.short quote code valid :: s) = endsQuoted key s := by
            simp [endsQuoted, hKey]
          have hMiss : ¬ quoted key <+: quote :: (Spelling.text s ++ [quote] ++ rest) := by
            rw [quoted_prefix_iff, List.append_assoc]
            exact fun h => hKey (key_prefix_spelling hPlain s h)
          have hOne : Scans key .free ([backslash].reverse ++ before) [quote]
              (Spelling.text s ++ [quote] ++ rest) (.ok .free) := scanKey_pass hMiss
          exact hRest ((hSlash _).append hOne) hEnds
      · have hEnds : endsQuoted key (.short letter code valid :: s) = endsQuoted key s := by
          simp [endsQuoted, StringUnit.text, hLetter]
        exact hRest ((hSlash _).append (Scans.char hLetter _ _ _)) hEnds

/-- The scope check looks no further than the opening quote. -/
theorem atObjectKey_string (text before : Bytes) :
    atObjectKey (text.reverse ++ quote :: before) = atObjectKey (text.reverse ++ [quote]) := by
  unfold atObjectKey
  rw [List.dropWhile_append, List.dropWhile_append]
  cases text.reverse.dropWhile isBlank with
  | nil =>
    have hQuote (rest : Bytes) : (quote :: rest).dropWhile isBlank = quote :: rest :=
      List.dropWhile_cons_of_neg (by decide)
    simp [hQuote]
  | cons c more => simp

/-- A string token that is the key and passes the scope check is taken. -/
theorem scanKey_token {before : Bytes} (rest : Bytes) (hAt : atObjectKey before = true) :
    scanKey (quoted key) before (quoted key ++ rest) 0 = some before.length := by
  have hMatch : (quoted key).isPrefixOf (quote :: (key ++ [quote] ++ rest)) = true := by
    rw [List.isPrefixOf_iff_prefix, quoted_prefix_iff]
    exact List.prefix_append _ _
  show scanKey (quoted key) before (quote :: (key ++ [quote] ++ rest)) 0 = _
  rw [scanKey, if_pos hMatch, if_pos hAt]

/-- A string token. `taken` has to say whether it passes the scope check and
whether a colon follows. -/
theorem Scans.token (hPlain : ∀ b ∈ key, isPlain b = true) (s : Spelling) (cursor : Cursor)
    {before rest : Bytes} {taken : Option Hit} (hAt : atObjectKey before = taken.isSome)
    (hTaken : ∀ hit, taken = some hit → (hit = .value ↔ (valueAfter rest).isSome = true)) :
    Scans key cursor before (quoted s.text) rest (passString key taken s rest cursor) := by
  have hContent := Scans.spelling hPlain s (quote :: before) rest
  rw [atObjectKey_string] at hContent
  unfold passString
  split
  · rename_i hFound
    obtain ⟨rfl, hKey⟩ := hFound
    rw [hKey]
    cases taken with
    | none => exact Scans.rejected hAt
    | some hit => exact ⟨[], rest, rfl, scanKey_token rest hAt, by simp [quoted], hTaken hit rfl⟩
  · rename_i hFound
    have hOpen : Scans key cursor before [quote] (s.text ++ [quote] ++ rest) (.ok .free) := by
      cases cursor with
      | inside => rfl
      | free =>
        refine scanKey_pass ?_
        rw [quoted_prefix_iff, List.append_assoc]
        exact fun h => hFound ⟨rfl, key_prefix_spelling hPlain s h⟩
    exact hOpen.append hContent

/-! ## Values -/

/-- No colon follows an element of an array. -/
theorem valueAfter_element (after : Space) (more : Items) (rest : Bytes) :
    valueAfter (after.text ++ (more.tailText ++ closeBracket :: rest)) = none := by
  cases more with
  | nil inner =>
    -- the white space of an element and of the end of the array is one
    have := valueAfter_other ⟨after.text ++ inner.text, by simp [after.valid, inner.valid]⟩
      (c := closeBracket) (by decide) (by decide) rest
    simpa [Items.tailText] using this
  | cons =>
    simp only [Items.tailText, List.cons_append]
    exact valueAfter_other after (by decide) (by decide) _

/-- The members behind a comma, given what happens behind their separator. -/
theorem Scans.membersTail {members : Members} {cursor : Cursor} {before rest : Bytes}
    {r : Except Hit Cursor} (hNil : ∀ inner, members = .nil inner → r = .ok cursor)
    (hText : Scans key cursor (comma :: before) (members.text ++ [closeBrace]) rest r) :
    Scans key cursor before (members.tailText ++ [closeBrace]) rest r := by
  cases members with
  | nil inner =>
    rw [hNil inner rfl]
    exact (Scans.space inner _ _ _).append (Scans.char (by decide) _ _ _)
  | cons =>
    have hComma (a : Bytes) : Scans key cursor before [comma] a (.ok cursor) :=
      Scans.char (by decide) _ _ _
    exact (hComma _).append hText

section Values

-- the hypothesis is handed on through the other theorems of the mutual block
set_option linter.unusedSectionVars false

variable (hPlain : ∀ b ∈ key, isPlain b = true)

include hPlain

/-- The name of a member behind its brace or comma. -/
theorem scans_name {c : BitVec 8} (hc : c = openBrace ∨ c = comma) (lead : Space) (name : Spelling)
    (cursor : Cursor) (before : Bytes) (afterName beforeValue : Space) (value : Doc) (rest : Bytes) :
    Scans key cursor (lead.text.reverse ++ c :: before) (quoted name.text)
      (afterName.text ++ colon :: (beforeValue.text ++ (value.text ++ rest)))
      (passName key lead name
        (afterName.text ++ colon :: (beforeValue.text ++ (value.text ++ rest))) cursor) := by
  refine Scans.token hPlain name cursor ?_ fun hit hHit => ?_
  · rw [atObjectKey_name lead hc]
    cases lead.text.all isBlank <;> rfl
  · rw [valueAfter_name]
    split at hHit
    · cases hHit
      simp
    · cases hHit

mutual

/-- The search passes over a value, or stops in it. -/
theorem scans_doc : (v : Doc) → (atKey : Bool) → (cursor : Cursor) → (before rest : Bytes) →
    (∀ s, v = .string s → atObjectKey before = atKey ∧ (atKey = true → valueAfter rest = none)) →
    Scans key cursor before v.text rest (passDoc key atKey v rest cursor)
  | .scalar s, _, cursor, before, rest, _ =>
    Scans.noQuote (fun h => absurd (s.bytes _ h) (by decide)) cursor before rest
  | .string s, atKey, cursor, before, rest, hAt => by
    obtain ⟨hScope, hNone⟩ := hAt s rfl
    refine Scans.token hPlain s cursor ?_ fun hit hHit => ?_
    · rw [hScope]
      cases atKey <;> rfl
    · split at hHit
      · rename_i hTrue
        cases hHit
        simp [hNone hTrue]
      · cases hHit
  | .array items, _, cursor, before, rest, _ => by
    have hOpen (a : Bytes) : Scans key cursor before [openBracket] a (.ok cursor) :=
      Scans.char (by decide) _ _ _
    exact (hOpen _).append (scans_items items cursor before rest)
  | .object members, _, cursor, before, rest, _ => by
    have hOpen (a : Bytes) : Scans key cursor before [openBrace] a (.ok cursor) :=
      Scans.char (by decide) _ _ _
    exact (hOpen _).append (scans_members members openBrace cursor before rest (.inl rfl))

theorem scans_items : (items : Items) → (cursor : Cursor) → (before rest : Bytes) →
    Scans key cursor (openBracket :: before) (items.text ++ [closeBracket]) rest
      (passItems key false items (closeBracket :: rest) cursor)
  | .nil inner, _, _, _ => (Scans.space inner _ _ _).append (Scans.char (by decide) _ _ _)
  | .cons lead value after more, cursor, before, rest => by
    have hText : (Items.cons lead value after more).text ++ [closeBracket] =
        lead.text ++ (value.text ++ (after.text ++ (more.tailText ++ [closeBracket]))) := by
      simp [Items.text]
    have hBehind : after.text ++ (more.tailText ++ [closeBracket]) ++ rest =
        after.text ++ (more.tailText ++ closeBracket :: rest) := by simp
    rw [hText, passItems, Bool.false_and]
    refine (Scans.space lead _ _ _).append (Scans.bind ?_ fun cursor' =>
      (Scans.space after _ _ _).append (scans_tail more cursor' _ rest))
    rw [hBehind]
    refine scans_doc value _ _ _ _ fun s _ => ⟨?_, fun h => absurd h Bool.false_ne_true⟩
    rw [atObjectKey_space lead (by decide)]
    exact Bool.and_false _

theorem scans_tail : (items : Items) → (cursor : Cursor) → (before rest : Bytes) →
    Scans key cursor before (items.tailText ++ [closeBracket]) rest
      (passItems key true items (closeBracket :: rest) cursor)
  | .nil inner, _, _, _ => (Scans.space inner _ _ _).append (Scans.char (by decide) _ _ _)
  | .cons lead value after more, cursor, before, rest => by
    have hText : (Items.cons lead value after more).tailText ++ [closeBracket] = [comma] ++
        (lead.text ++ (value.text ++ (after.text ++ (more.tailText ++ [closeBracket])))) := by
      simp [Items.tailText]
    have hBehind : after.text ++ (more.tailText ++ [closeBracket]) ++ rest =
        after.text ++ (more.tailText ++ closeBracket :: rest) := by simp
    rw [hText, passItems, Bool.true_and]
    refine (Scans.char (by decide) _ _ _).append ((Scans.space lead _ _ _).append
      (Scans.bind ?_ fun cursor' =>
        (Scans.space after _ _ _).append (scans_tail more cursor' _ rest)))
    rw [hBehind]
    exact scans_doc value _ _ _ _ fun s _ =>
      ⟨atObjectKey_name lead (.inr rfl) before, fun _ => valueAfter_element after more rest⟩

theorem scans_members : (members : Members) → (c : BitVec 8) → (cursor : Cursor) →
    (before rest : Bytes) → (c = openBrace ∨ c = comma) →
    Scans key cursor (c :: before) (members.text ++ [closeBrace]) rest
      (passMembers key members (closeBrace :: rest) cursor)
  | .nil inner, _, _, _, _, _ => (Scans.space inner _ _ _).append (Scans.char (by decide) _ _ _)
  | .cons lead name afterName beforeValue value after more, c, cursor, before, rest, hc => by
    have hText : (Members.cons lead name afterName beforeValue value after more).text ++
        [closeBrace] = lead.text ++ (quoted name.text ++ (afterName.text ++ ([colon] ++
          (beforeValue.text ++ value.text))) ++ (after.text ++ (more.tailText ++ [closeBrace]))) := by
      simp [Members.text]
    have hBehind : after.text ++ (more.tailText ++ [closeBrace]) ++ rest =
        after.text ++ (more.tailText ++ closeBrace :: rest) := by simp
    have hName : afterName.text ++ ([colon] ++ (beforeValue.text ++ value.text)) ++
        (after.text ++ (more.tailText ++ closeBrace :: rest)) =
          afterName.text ++ colon :: (beforeValue.text ++ (value.text ++
            (after.text ++ (more.tailText ++ closeBrace :: rest)))) := by simp
    rw [hText, passMembers]
    refine (Scans.space lead _ _ _).append (Scans.bind ?_ fun cursor' =>
      (Scans.space _ _ _ _).append (Scans.membersTail ?_
        (scans_members more comma cursor' _ rest (.inr rfl))))
    · -- the name, and with the cursor it leaves the colon and the value
      rw [hBehind]
      refine Scans.bind ?_ fun cursor' => (Scans.space _ _ _ _).append
        ((Scans.char (by decide) _ _ _).append ((Scans.space _ _ _ _).append
          (scans_doc value false cursor' _ _ fun _ _ =>
            ⟨atObjectKey_value beforeValue _, fun h => absurd h Bool.false_ne_true⟩)))
      rw [hName]
      exact scans_name hPlain hc lead name cursor before afterName beforeValue value _
    · rintro inner rfl
      rfl

end

end Values

/-! ## Where the lookup ends -/

/-- A successful lookup has stopped at an occurrence with a colon behind it. -/
theorem findKey_sound {json : Bytes} {q : Nat} (h : findKey json key = some q) :
    ∃ pre post n, json = pre ++ (quoted key ++ post) ∧
      scanKey (quoted key) [] json 0 = some pre.length ∧ atObjectKey pre.reverse = true ∧
      valueAfter post = some n ∧ q = pre.length + (quoted key).length + n := by
  cases hScan : scanKey (quoted key) [] json 0 with
  | none =>
    rw [findKey_of_scan_none hScan] at h
    cases h
  | some p =>
    obtain ⟨pre, text, hJson, hp, ⟨post, rfl⟩, hAt⟩ := scanKey_sound hScan
    rw [List.length_nil, Nat.zero_add] at hp
    subst hp
    rw [findKey_of_scan hJson hScan] at h
    obtain ⟨n, hValue, rfl⟩ := Option.map_eq_some_iff.mp h
    exact ⟨pre, post, n, hJson, rfl, by simpa using hAt, hValue, rfl⟩

theorem valueAfter_sound {post : Bytes} {n : Nat} (h : valueAfter post = some n) :
    ∃ (w₁ w₂ : Space) (more : Bytes), post = w₁.text ++ colon :: (w₂.text ++ more) ∧
      n = w₁.text.length + 1 + w₂.text.length := by
  have hAll (text : Bytes) : (text.takeWhile isSpace).all isSpace = true :=
    List.all_eq_true.mpr fun _ hx => List.mem_takeWhile_imp hx
  unfold valueAfter at h
  split at h
  · cases h
  · rename_i c more hDrop
    split at h
    · rename_i hColon
      cases h
      refine ⟨⟨_, hAll post⟩, ⟨_, hAll more⟩, more.dropWhile isSpace, ?_, rfl⟩
      calc post = post.takeWhile isSpace ++ post.dropWhile isSpace :=
            List.takeWhile_append_dropWhile.symm
        _ = post.takeWhile isSpace ++ colon :: (more.takeWhile isSpace ++ more.dropWhile isSpace) := by
            rw [hDrop, hColon, List.takeWhile_append_dropWhile]
    · cases h

/-- White space at the end of a text, and the character in front of it. -/
theorem space_suffix_inj {x y : Bytes} {c d : BitVec 8} (hc : isSpace c = false)
    (hd : isSpace d = false) {v w : Space} (h : x ++ c :: v.text = y ++ d :: w.text) :
    x = y ∧ c = d ∧ v.text = w.text := by
  have hSplit (x : Bytes) {c : BitVec 8} (hc : isSpace c = false) (v : Space) :
      (x ++ c :: v.text).reverse.takeWhile isSpace = v.text.reverse ∧
        (x ++ c :: v.text).reverse.dropWhile isSpace = c :: x.reverse := by
    have hAll : ∀ b ∈ v.text.reverse, isSpace b = true := fun b hb =>
      List.all_eq_true.mp v.valid b (List.mem_reverse.mp hb)
    have hReverse : (x ++ c :: v.text).reverse = v.text.reverse ++ c :: x.reverse := by simp
    rw [hReverse, List.takeWhile_append_of_pos hAll, List.dropWhile_append_of_pos hAll,
      List.takeWhile_cons_of_neg (by simp [hc]), List.dropWhile_cons_of_neg (by simp [hc])]
    exact ⟨List.append_nil _, rfl⟩
  obtain ⟨hTake, hDrop⟩ := hSplit x hc v
  obtain ⟨hTake', hDrop'⟩ := hSplit y hd w
  rw [h] at hTake hDrop
  obtain ⟨hChar, hText⟩ := List.cons.inj (hDrop.symm.trans hDrop')
  exact ⟨List.reverse_injective hText, hChar, List.reverse_injective (hTake.symm.trans hTake')⟩

/-- The last quote of a text. -/
theorem quote_suffix_inj {x y v w : Bytes} (hv : quote ∉ v) (hw : quote ∉ w)
    (h : x ++ quote :: v = y ++ quote :: w) : x = y ∧ v = w := by
  have hSplit (x : Bytes) {v : Bytes} (hv : quote ∉ v) :
      (x ++ quote :: v).reverse.takeWhile (· ≠ quote) = v.reverse ∧
        (x ++ quote :: v).reverse.dropWhile (· ≠ quote) = quote :: x.reverse := by
    have hAll : ∀ b ∈ v.reverse, decide (b ≠ quote) = true := fun b hb =>
      decide_eq_true fun h => hv (h ▸ List.mem_reverse.mp hb)
    have hReverse : (x ++ quote :: v).reverse = v.reverse ++ quote :: x.reverse := by simp
    rw [hReverse, List.takeWhile_append_of_pos hAll, List.dropWhile_append_of_pos hAll,
      List.takeWhile_cons_of_neg (by simp), List.dropWhile_cons_of_neg (by simp)]
    exact ⟨List.append_nil _, rfl⟩
  obtain ⟨hTake, hDrop⟩ := hSplit x hv
  obtain ⟨hTake', hDrop'⟩ := hSplit y hw
  rw [h] at hTake hDrop
  exact ⟨List.reverse_injective (List.cons.inj (hDrop.symm.trans hDrop')).2,
    List.reverse_injective (hTake.symm.trans hTake')⟩

/-- A quote inside a string stands behind a backslash. -/
theorem backslash_before_quote (s : Spelling) {u v : Bytes} (h : s.text = u ++ quote :: v) :
    ∃ u', u = u' ++ [backslash] := by
  induction s generalizing u with
  | nil =>
    have := congrArg List.length h
    simp [Spelling.text] at this
  | cons unit s ih =>
    have hText : Spelling.text (unit :: s) = unit.text ++ Spelling.text s := List.flatMap_cons
    rw [hText] at h
    -- the quote stands in the unit, or behind it
    obtain ⟨a, rfl, hRest⟩ | ⟨a, hUnit, hBehind⟩ := List.append_eq_append_iff.mp h
    · obtain ⟨u', rfl⟩ := ih hRest
      exact ⟨unit.text ++ u', (List.append_assoc _ _ _).symm⟩
    · cases a with
      | nil =>
        obtain ⟨u', hu⟩ := ih (u := []) hBehind.symm
        simp at hu
      | cons c a =>
        obtain ⟨rfl, -⟩ := List.cons.inj hBehind
        cases unit with
        | byte b valid =>
          have hMem : quote ∈ (StringUnit.byte b valid).text := by
            rw [hUnit]
            simp
          rw [← List.mem_singleton.mp hMem] at valid
          exact absurd valid (by decide)
        | unicode a b c d valid =>
          refine absurd ?_ (quote_not_mem_unicode valid)
          rw [hUnit]
          simp
        | short letter code valid =>
          cases u with
          | nil => exact absurd (List.cons.inj hUnit).1 (by decide)
          | cons b u =>
            obtain ⟨rfl, hRest⟩ := List.cons.inj hUnit
            cases u with
            | nil => exact ⟨[], rfl⟩
            | cons b' u => simp at hRest

/-- The lookup ends at the value of a member exactly when the search stops at the
name of that member. -/
theorem findKey_member_iff (hPlain : ∀ b ∈ key, isPlain b = true) (front : Bytes) (name : Spelling)
    (afterName beforeValue : Space) (value : Doc) (rest : Bytes) {json : Bytes}
    (hText : json = front ++ (quoted name.text ++ (afterName.text ++ colon :: (beforeValue.text ++
      (value.text ++ rest))))) :
    findKey json key = some (front.length + (quoted name.text).length +
        (afterName.text.length + 1 + beforeValue.text.length)) ↔
      scanKey (quoted key) [] json 0 = some front.length ∧ name.text = key := by
  constructor
  · intro hFind
    obtain ⟨pre, post, n, hJson, hScan, hAt, hValue, hPos⟩ := findKey_sound hFind
    obtain ⟨w₁, w₂, more, rfl, rfl⟩ := valueAfter_sound hValue
    -- both readings end at the same place, and there is one way to read back from it
    have hTake : pre ++ (quoted key ++ (w₁.text ++ colon :: w₂.text)) =
        front ++ (quoted name.text ++ (afterName.text ++ colon :: beforeValue.text)) := by
      have hSame : pre ++ (quoted key ++ (w₁.text ++ colon :: w₂.text)) ++ more =
          front ++ (quoted name.text ++ (afterName.text ++ colon :: beforeValue.text)) ++
            (value.text ++ rest) := by
        rw [hText] at hJson
        simpa using hJson.symm
      refine (List.append_inj hSame ?_).1
      simp only [List.length_append, List.length_cons]
      omega
    have hColon : pre ++ (quoted key ++ w₁.text) ++ colon :: w₂.text =
        front ++ (quoted name.text ++ afterName.text) ++ colon :: beforeValue.text := by
      simpa using hTake
    have hQuote : pre ++ quote :: key ++ quote :: w₁.text =
        front ++ quote :: name.text ++ quote :: afterName.text := by
      simpa [quoted] using (space_suffix_inj (by decide) (by decide) hColon).1
    have hName : pre ++ quote :: key = front ++ quote :: name.text :=
      (space_suffix_inj (by decide) (by decide) hQuote).1
    have hKey := quote_not_mem_of_plain hPlain
    by_cases hEscaped : quote ∈ name.text
    · -- the last quote of the name is escaped, and the scope check fails behind a backslash
      obtain ⟨v, u, hReverse, hv⟩ :=
        List.eq_append_cons_of_mem (List.mem_reverse.mpr hEscaped)
      have hLast : name.text = u.reverse ++ quote :: v.reverse := by
        rw [← List.reverse_reverse name.text, hReverse]
        simp
      obtain ⟨u', hu⟩ := backslash_before_quote name hLast
      have hPre : pre = front ++ quote :: (u' ++ [backslash]) := by
        refine (quote_suffix_inj hKey (fun h => hv (List.mem_reverse.mp h)) ?_).1
        rw [hName, hLast, hu]
        simp
      have hSlash : pre.reverse = backslash :: (front ++ quote :: u').reverse := by
        rw [hPre]
        simp
      rw [hSlash] at hAt
      cases hAt
    · obtain ⟨rfl, rfl⟩ := quote_suffix_inj hKey hEscaped hName
      exact ⟨hScan, rfl⟩
  · rintro ⟨hScan, hName⟩
    rw [hName] at hText ⊢
    rw [findKey_of_scan hText hScan, valueAfter_name, Option.map_some]

/-! ## The members of the object -/

/-- Where the value of the first member called `key` starts. The text of the
members starts at `pos`. -/
def valuePos (key : Bytes) : Nat → Members → Option Nat
  | _, .nil _ => none
  | pos, .cons before name afterName beforeValue value after more =>
    let start := pos + before.text.length + (quoted name.text).length +
      (afterName.text.length + 1 + beforeValue.text.length)
    if name.decode = key then some start
    else valuePos key (start + value.text.length + after.text.length + 1) more

/-- The lookup ends where a parser would. The members in front of the first one
called `key` are passed; that one is reached at its opening quote, is spelled
literally and follows its comma or brace with nothing but blanks between. A text
without such a member may also hold an occurrence with no colon behind it. -/
def looksUp (key : Bytes) : Members → Bytes → Cursor → Bool
  | .nil _, _, _ => true
  | .cons before name afterName beforeValue value after more, rest, cursor =>
    if name.decode = key then cursor = .free && name.text = key && before.text.all isBlank
    else
      match (passName key before name (afterName.text ++ colon :: (beforeValue.text ++
        (value.text ++ (after.text ++ (more.tailText ++ rest))))) cursor).bind
          (passDoc key false value (after.text ++ (more.tailText ++ rest))) with
      | .ok cursor => looksUp key more rest cursor
      | .error .value => false
      | .error .nothing => (more.lookup key).isNone

theorem valuePos_eq_none_iff : (members : Members) → (pos : Nat) →
    (valuePos key pos members = none ↔ members.lookup key = none)
  | .nil _, _ => by
    rw [valuePos, Members.lookup]
    simp
  | .cons _ name .., _ => by
    rw [valuePos, Members.lookup]
    split
    · simp
    · exact valuePos_eq_none_iff _ _

theorem tailText_of_lookup {members : Members} {value : Doc} (h : members.lookup key = some value) :
    members.tailText = comma :: members.text := by
  cases members with
  | nil => cases h
  | cons => rw [Members.tailText, Members.text]

/-- The member whose value stands at that position. -/
theorem valuePos_spec : {pos q : Nat} → (members : Members) → valuePos key pos members = some q →
    ∃ (front : Bytes) (name : Spelling) (afterName beforeValue : Space) (value : Doc) (rest : Bytes),
      members.lookup key = some value ∧
      members.text = front ++ (quoted name.text ++ (afterName.text ++ colon :: (beforeValue.text ++
        (value.text ++ rest)))) ∧
      q = pos + front.length + (quoted name.text).length +
        (afterName.text.length + 1 + beforeValue.text.length)
  | _, _, .nil _, h => by cases h
  | pos, q, .cons lead name afterName beforeValue value after more, h => by
    rw [valuePos] at h
    split at h
    · rename_i hName
      cases h
      exact ⟨lead.text, name, afterName, beforeValue, value, after.text ++ more.tailText,
        by rw [Members.lookup, if_pos hName], rfl, rfl⟩
    · rename_i hName
      obtain ⟨front, name', afterName', beforeValue', found, rest, hLookup, hText, rfl⟩ :=
        valuePos_spec more h
      have hTail := tailText_of_lookup hLookup
      refine ⟨lead.text ++ (quoted name.text ++ (afterName.text ++ ([colon] ++
        (beforeValue.text ++ (value.text ++ (after.text ++ ([comma] ++ front))))))), name', afterName',
        beforeValue', found, rest, by rw [Members.lookup, if_neg hName, hLookup],
        by simp [Members.text, hTail, hText], ?_⟩
      simp only [List.length_append, List.length_singleton]
      omega

theorem Stops.findKey_none {json : Bytes} {stop : Nat} (h : Stops key [] json .free stop .nothing) :
    findKey json key = none := by
  obtain ⟨pre, post, hText, hScan, -, hHit⟩ := h
  rw [List.length_nil, Nat.zero_add] at hScan
  have hAfter : valueAfter post = none := by simpa using hHit
  rw [findKey_of_scan hText hScan, hAfter]
  rfl

theorem Stops.findKey_some {json : Bytes} {stop : Nat} (h : Stops key [] json .free stop .value) :
    ∃ q, findKey json key = some q := by
  obtain ⟨pre, post, hText, hScan, -, hHit⟩ := h
  rw [List.length_nil, Nat.zero_add] at hScan
  obtain ⟨n, hAfter⟩ := Option.isSome_iff_exists.mp (hHit.mp rfl)
  exact ⟨_, by rw [findKey_of_scan hText hScan, hAfter]; rfl⟩

/-- A search that stops in front of the other members finds none of them. -/
theorem Stops.findKey_ne (hPlain : ∀ b ∈ key, isPlain b = true) {front gap rest : Bytes}
    {members : Members}
    (h : Stops key [] (front ++ (gap ++ (members.tailText ++ rest))) .free front.length .value) :
    findKey (front ++ (gap ++ (members.tailText ++ rest))) key ≠
      valuePos key (front.length + gap.length + 1) members := by
  intro hEq
  obtain ⟨q, hq⟩ := h.findKey_some
  rw [hq] at hEq
  obtain ⟨between, name, afterName, beforeValue, value, behind, hLookup, hText, rfl⟩ :=
    valuePos_spec members hEq.symm
  have hTail := tailText_of_lookup hLookup
  have hJson : front ++ (gap ++ (members.tailText ++ rest)) =
      (front ++ (gap ++ comma :: between)) ++ (quoted name.text ++ (afterName.text ++
        colon :: (beforeValue.text ++ (value.text ++ (behind ++ rest))))) := by
    simp [hTail, hText]
  have hIff := findKey_member_iff hPlain _ name afterName beforeValue value (behind ++ rest) hJson
  have hLen : (front ++ (gap ++ comma :: between)).length =
      front.length + gap.length + 1 + between.length := by
    simp only [List.length_append, List.length_cons]
    omega
  rw [hLen] at hIff
  obtain ⟨pre, post, -, hScan, hLt, -⟩ := h
  have hSame := Option.some.inj (hScan.symm.trans (hIff.mp hq).1)
  rw [List.length_nil] at hSame
  omega

/-- Nothing is found when the text ends without another quote. -/
theorem Scans.findKey_none {front text : Bytes} {cursor : Cursor}
    (hFront : Scans key .free [] front text (.ok cursor)) (hQuote : quote ∉ text) :
    findKey (front ++ text) key = none := by
  apply findKey_of_scan_none
  unfold Scans at hFront
  exact hFront.trans (scanKey_noQuote hQuote _ _)

theorem quote_not_mem_close {rest : Bytes} (hRest : quote ∉ rest) (inner : Space) :
    quote ∉ inner.text ++ closeBrace :: rest := by
  simp only [List.mem_append, List.mem_cons, not_or]
  exact ⟨quote_not_mem_space inner, by decide, hRest⟩

/-- A name is where the search stops when it is reached at its opening quote, is
the key and passes the scope check. -/
theorem Scans.stops_iff {front post : Bytes} {cursor : Cursor}
    (hFront : Scans key .free [] front (quoted key ++ post) (.ok cursor)) :
    scanKey (quoted key) [] (front ++ (quoted key ++ post)) 0 = some front.length ↔
      cursor = .free ∧ atObjectKey front.reverse = true := by
  have hScan : scanKey (quoted key) [] (front ++ (quoted key ++ post)) 0 = _ := hFront
  rw [List.append_nil] at hScan
  rw [hScan]
  cases cursor with
  | free =>
    cases hAt : atObjectKey front.reverse with
    | true =>
      have hToken : scanKey (quoted key) front.reverse (quoted key ++ post) 0 = _ :=
        scanKey_token post hAt
      rw [List.length_reverse] at hToken
      simpa [Cursor.skip] using hToken
    | false =>
      have hPass : scanKey (quoted key) front.reverse (quoted key ++ post) 0 =
          scanKey (quoted key) ((quoted key).reverse ++ front.reverse) post 0 :=
        Scans.rejected hAt
      -- a later occurrence has a larger position
      refine iff_of_false (fun h => ?_) (by simp)
      have hGe := scanKey_ge (hPass.symm.trans h)
      simp [quoted] at hGe
      omega
  | inside =>
    -- the search is already behind the opening quote
    have hPass : scanKey (quoted key) front.reverse (quoted key ++ post)
        (Cursor.inside.skip (quoted key ++ post)) =
          scanKey (quoted key) (quote :: front.reverse) (key ++ [quote] ++ post) 0 := rfl
    refine iff_of_false (fun h => ?_) (by simp)
    have hGe := scanKey_ge (hPass.symm.trans h)
    simp at hGe

/-- The search over the members of the object itself. -/
theorem findKey_members_iff (hPlain : ∀ b ∈ key, isPlain b = true) {rest : Bytes}
    (hRest : quote ∉ rest) : (members : Members) → (pre : Bytes) → (c : BitVec 8) →
    (cursor : Cursor) → (c = openBrace ∨ c = comma) →
    Scans key .free [] (pre ++ [c]) (members.text ++ closeBrace :: rest) (.ok cursor) →
    (findKey (pre ++ [c] ++ (members.text ++ closeBrace :: rest)) key =
      valuePos key (pre ++ [c]).length members ↔
        looksUp key members (closeBrace :: rest) cursor = true)
  | .nil inner, pre, c, cursor, _, hPass => by
    rw [hPass.findKey_none (quote_not_mem_close hRest inner)]
    exact ⟨fun _ => rfl, fun _ => rfl⟩
  | .cons lead name afterName beforeValue value after more, pre, c, cursor, hc, hPass => by
    set behind := after.text ++ (more.tailText ++ closeBrace :: rest) with hBehind
    set post := afterName.text ++ colon :: (beforeValue.text ++ (value.text ++ behind)) with hPost
    have hText : (Members.cons lead name afterName beforeValue value after more).text ++
        closeBrace :: rest = lead.text ++ (quoted name.text ++ post) := by
      simp [Members.text, hPost, hBehind]
    have hAt : atObjectKey (pre ++ [c] ++ lead.text).reverse = lead.text.all isBlank := by
      rw [List.reverse_append, List.reverse_append]
      exact atObjectKey_name lead hc pre.reverse
    rw [hText] at hPass ⊢
    replace hPass := hPass.append (Scans.space lead _ _ _)
    rw [← List.append_assoc, valuePos, looksUp, ← hBehind, ← hPost]
    by_cases hDecode : name.decode = key
    · -- the member itself
      rw [if_pos hDecode, if_pos hDecode, ← List.length_append, findKey_member_iff hPlain _ name
        afterName beforeValue value behind rfl]
      by_cases hKey : name.text = key
      · rw [hKey] at hPass ⊢
        rw [hPass.stops_iff, hAt]
        simp
      · simp [hKey]
    · rw [if_neg hDecode, if_neg hDecode]
      -- its name and its value are passed, or the search stops in them
      have hName : Scans key cursor ((pre ++ [c] ++ lead.text).reverse ++ []) (quoted name.text) post
          (passName key lead name post cursor) := by
        have := scans_name hPlain hc lead name cursor pre.reverse afterName beforeValue value behind
        simpa using this
      have hValue (cursor' : Cursor) : Scans key cursor'
          ((quoted name.text).reverse ++ ((pre ++ [c] ++ lead.text).reverse ++ []))
          (afterName.text ++ ([colon] ++ (beforeValue.text ++ value.text))) behind
          (passDoc key false value behind cursor') :=
        (Scans.space _ _ _ _).append ((Scans.char (by decide) _ _ _).append
          ((Scans.space _ _ _ _).append (scans_doc hPlain value false cursor' _ _ fun _ _ =>
            ⟨atObjectKey_value beforeValue _, fun h => absurd h Bool.false_ne_true⟩)))
      have hSplit : post =
          afterName.text ++ ([colon] ++ (beforeValue.text ++ value.text)) ++ behind := by
        simp [hPost]
      set front := pre ++ [c] ++ lead.text ++ (quoted name.text ++ (afterName.text ++ ([colon] ++
        (beforeValue.text ++ value.text)))) with hFront
      have hJson : pre ++ [c] ++ lead.text ++ (quoted name.text ++ post) = front ++ behind := by
        simp [hFront, hSplit]
      have hLen : (pre ++ [c]).length + lead.text.length + (quoted name.text).length +
          (afterName.text.length + 1 + beforeValue.text.length) + value.text.length =
            front.length := by
        rw [hFront]
        simp only [List.length_append, List.length_singleton]
        omega
      have hMember : Scans key .free [] front behind
          ((passName key lead name post cursor).bind (passDoc key false value behind)) := by
        rw [hSplit] at hName hPass ⊢
        rw [← List.append_assoc] at hPass
        exact hPass.append (hName.bind hValue)
      rw [hJson, hLen]
      cases hResult : (passName key lead name post cursor).bind (passDoc key false value behind) with
      | error hit =>
        rw [hResult] at hMember
        cases hit with
        | value => exact iff_of_false (Stops.findKey_ne hPlain hMember) Bool.false_ne_true
        | nothing =>
          rw [Stops.findKey_none hMember, eq_comm, valuePos_eq_none_iff,
            ← Option.isNone_iff_eq_none]
      | ok cursor' =>
        rw [hResult] at hMember
        replace hMember := hMember.append (Scans.space after _ _ _)
        rw [hBehind, ← List.append_assoc front]
        cases more with
        | nil inner =>
          rw [hMember.findKey_none (quote_not_mem_close hRest inner)]
          exact ⟨fun _ => rfl, fun _ => rfl⟩
        | cons lead' name' afterName' beforeValue' value' after' more' =>
          have hNext := findKey_members_iff hPlain hRest
            (.cons lead' name' afterName' beforeValue' value' after' more') (front ++ after.text)
            comma cursor' (.inr rfl)
            (Scans.append (b := [comma]) hMember (Scans.char (by decide) _ _ _))
          have hNextLen : front.length + after.text.length + 1 =
              (front ++ after.text ++ [comma]).length := by
            simp only [List.length_append, List.length_singleton]
          rw [hNextLen]
          rw [List.append_assoc] at hNext
          exact hNext

/-! ## The lookup -/

/-- **`find_key` agrees with a parser exactly on the objects `looksUp`
describes.** -/
theorem findKey_structural_iff (lead trail : Space) (members : Members) (key : Bytes)
    (hPlain : ∀ b ∈ key, isPlain b = true) :
    findKey (lead.text ++ ((Doc.object members).text ++ trail.text)) key =
        valuePos key (lead.text.length + 1) members ↔
      looksUp key members (closeBrace :: trail.text) .free = true := by
  have hJson : lead.text ++ ((Doc.object members).text ++ trail.text) =
      lead.text ++ [openBrace] ++ (members.text ++ closeBrace :: trail.text) := by
    simp [Doc.text]
  have hLead : Scans key .free [] (lead.text ++ [openBrace])
      (members.text ++ closeBrace :: trail.text) (.ok .free) :=
    (Scans.space lead _ _ _).append (Scans.char (by decide) _ _ _)
  have hLen : lead.text.length + 1 = (lead.text ++ [openBrace]).length := by
    rw [List.length_append, List.length_singleton]
  rw [hJson, hLen]
  exact findKey_members_iff hPlain (quote_not_mem_space trail) members lead.text openBrace .free
    (.inl rfl) hLead

/-- `{"a":{"b":1},"k":2}`. -/
def flatMembers : Members :=
  .cons .none [.byte (ch 'a') (by decide)] .none .none
    (.object (.cons .none [.byte (ch 'b') (by decide)] .none .none
      (.scalar (.number ⟨bytes "1", by decide⟩)) .none (.nil .none))) .none
    (.cons .none [.byte (ch 'k') (by decide)] .none .none
      (.scalar (.number ⟨bytes "2", by decide⟩)) .none (.nil .none))

/-- `{"a":{"k":1},"k":2}`. -/
def shadowedMembers : Members :=
  .cons .none [.byte (ch 'a') (by decide)] .none .none
    (.object (.cons .none [.byte (ch 'k') (by decide)] .none .none
      (.scalar (.number ⟨bytes "1", by decide⟩)) .none (.nil .none))) .none
    (.cons .none [.byte (ch 'k') (by decide)] .none .none
      (.scalar (.number ⟨bytes "2", by decide⟩)) .none (.nil .none))

theorem findKey_structural_flat :
    (∀ b ∈ bytes "k", isPlain b = true) ∧
      (findKey (Space.none.text ++ ((Doc.object flatMembers).text ++ Space.none.text)) (bytes "k") =
        valuePos (bytes "k") (Space.none.text.length + 1) flatMembers) :=
  ⟨by decide, (findKey_structural_iff .none .none flatMembers (bytes "k") (by decide)).mpr
    (by decide +kernel)⟩

/-- The nested `k` is found instead of the member. -/
theorem findKey_finds_nested :
    (Doc.object shadowedMembers).text = bytes "\x7b\"a\":\x7b\"k\":1\x7d,\"k\":2\x7d" ∧
      findKey (Doc.object shadowedMembers).text (bytes "k") = some 10 ∧
      valuePos (bytes "k") 1 shadowedMembers = some 17 := by
  decide +kernel

end ArmRx.Pool
