import ArmRx.Lib.Json.Text

/-!
# The JSON utilities

Embeds `src/json.cpp`: escaping for output, and the extractors that look a key
up in a text by searching for its quoted name. A `std::string` is a list of
bytes and a position in it a natural number.

* `getString_escape_iff` — which strings survive escaping and extraction.
-/

namespace ArmRx.Pool

open ArmRx.Lib.Json

/-! ## Escaping -/

/-- `"0123456789abcdef"[n]`. -/
def hexDigit (n : BitVec 8) : BitVec 8 := (bytes "0123456789abcdef").getD n.toNat 0

/-- What `escape` writes for one character. -/
def escapeByte (c : BitVec 8) : Bytes :=
  if c = backslash then [backslash, backslash]
  else if c = quote then [backslash, quote]
  else if c = 0x0a#8 then [backslash, ch 'n']
  else if c = 0x0d#8 then [backslash, ch 'r']
  else if c = 0x09#8 then [backslash, ch 't']
  else if c < 0x20#8 then
    [backslash, ch 'u', ch '0', ch '0', hexDigit (c >>> 4 &&& 0xf), hexDigit (c &&& 0xf)]
  else [c]

/-- `escape`. -/
def escape (s : Bytes) : Bytes := s.flatMap escapeByte

/-! ## Key lookup -/

/-- The characters `find_key` skips backwards. -/
def isBlank (b : BitVec 8) : Bool := b = 0x20#8 || b = 0x09#8

theorem isSpace_of_isBlank {b : BitVec 8} (h : isBlank b = true) : isSpace b = true := by
  simp only [isBlank, Bool.or_eq_true, decide_eq_true_eq] at h
  rcases h with rfl | rfl <;> rfl

theorem isBlank_of_not_isSpace {b : BitVec 8} (h : isSpace b = false) : isBlank b = false :=
  Bool.eq_false_iff.mpr fun hb => Bool.eq_false_iff.mp h (isSpace_of_isBlank hb)

/-- The scope check of `find_key`, on the text in front of an occurrence, read
backwards. -/
def atObjectKey (before : Bytes) : Bool :=
  match before.dropWhile isBlank with
  | [] => true
  | c :: _ => c = openBrace || c = comma

/-- The loop of `find_key`: the position of the first occurrence of `search`
that passes the scope check. `before` is the text already passed, backwards,
and `skip` the number of characters still to pass behind a rejected
occurrence. -/
def scanKey (search : Bytes) : Bytes → Bytes → Nat → Option Nat
  | _, [], _ => none
  | before, c :: rest, skip + 1 => scanKey search (c :: before) rest skip
  | before, c :: rest, 0 =>
    if search.isPrefixOf (c :: rest) then
      if atObjectKey before then some before.length
      else scanKey search (c :: before) rest (search.length - 1)
    else scanKey search (c :: before) rest 0

/-- `skip_ws`. -/
def skipWs (json : Bytes) (pos : Nat) : Nat := pos + ((json.drop pos).takeWhile isSpace).length

/-- `find_key`: `value_pos` on success. -/
def findKey (json key : Bytes) : Option Nat :=
  match scanKey (quoted key) [] json 0 with
  | none => none
  | some pos =>
    let pos := skipWs json (pos + (quoted key).length)
    if json[pos]? = some colon then some (skipWs json (pos + 1)) else none

/-! ## Extractors -/

/-- The characters up to the closing quote, a backslash giving way to the
character behind it. -/
def readString : Bytes → Bytes
  | [] => []
  | c :: rest =>
    if c = quote then []
    else if c = backslash then
      match rest with
      | [] => []
      | e :: rest => e :: readString rest
    else c :: readString rest

/-- `get_string`. -/
def getString (json key : Bytes) : Bytes :=
  match findKey json key with
  | none => []
  | some pos =>
    match json.drop pos with
    | [] => []
    | c :: rest => if c = quote then readString rest else []

/-- Drops trailing blanks. -/
def trimRight (s : Bytes) : Bytes := (s.reverse.dropWhile isBlank).reverse

/-- `get_raw`. -/
def getRaw (json key : Bytes) : Bytes :=
  match findKey json key with
  | none => []
  | some pos =>
    trimRight ((json.drop pos).takeWhile fun c =>
      c ≠ comma && c ≠ closeBrace && c ≠ closeBracket && c ≠ 0x0a#8)

/-- A number or literal in an array: up to a comma, bracket or blank. -/
def isElementByte (c : BitVec 8) : Bool := c ≠ comma && c ≠ closeBracket && !isBlank c

theorem isElementByte_iff {c : BitVec 8} :
    isElementByte c = true ↔ c ≠ comma ∧ c ≠ closeBracket ∧ isBlank c = false := by
  simp [isElementByte, and_assoc]

/-- The text up to the closing quote, escapes untouched. -/
def rawString : Bytes → Bytes
  | [] => []
  | c :: rest =>
    if c = quote then []
    else if c = backslash then
      match rest with
      | [] => [c]
      | e :: rest => c :: e :: rawString rest
    else c :: rawString rest

/-- `get_array_first`. -/
def getArrayFirst (json key : Bytes) : Bytes :=
  match findKey json key with
  | none => []
  | some pos =>
    match (json.drop pos).dropWhile isSpace with
    | [] => []
    | c :: rest =>
      if c = openBracket then
        match rest.dropWhile isSpace with
        | [] => []
        | c :: rest =>
          if c = quote then rawString rest
          else trimRight ((c :: rest).takeWhile isElementByte)
      else []

/-- `skip_string` behind the opening quote: the text behind the closing one. -/
def skipString : Bytes → Option Bytes
  | [] => none
  | c :: rest =>
    if c = quote then some rest
    else if c = backslash then
      match rest with
      | [] => none
      | _ :: rest => skipString rest
    else skipString rest

/-- The loop of `get_array_element` behind the opening bracket. Every round
passes a character, so the length of the text is enough fuel. -/
def arrayElement (index : Nat) : Nat → Nat → Bytes → Bytes
  | 0, _, _ => []
  | fuel + 1, cur, text =>
    match text.dropWhile isSpace with
    | [] => []
    | c :: rest =>
      if c = closeBracket then []
      else if c = comma then arrayElement index fuel cur rest
      else if cur = index then
        if c = quote then readString rest
        else trimRight ((c :: rest).takeWhile isElementByte)
      else if c = quote then
        match skipString rest with
        | none => []
        | some rest => arrayElement index fuel (cur + 1) rest
      else arrayElement index fuel (cur + 1) ((c :: rest).dropWhile isElementByte)

/-- `get_array_element`. -/
def getArrayElement (json key : Bytes) (index : Nat) : Bytes :=
  match findKey json key with
  | none => []
  | some pos =>
    match (json.drop pos).dropWhile isSpace with
    | [] => []
    | c :: rest => if c = openBracket then arrayElement index (rest.length + 1) 0 rest else []

/-- The loop of `get_str_array` behind the opening bracket, with the fuel of
`arrayElement`. An unterminated string is the last element. -/
def strArray : Nat → Bytes → List Bytes
  | 0, _ => []
  | fuel + 1, text =>
    match text.dropWhile isSpace with
    | [] => []
    | c :: rest =>
      if c = closeBracket then []
      else if c = comma then strArray fuel rest
      else if c = quote then readString rest :: strArray fuel ((skipString rest).getD [])
      else strArray fuel ((c :: rest).dropWhile isElementByte)

/-- `get_str_array`. -/
def getStrArray (json key : Bytes) : List Bytes :=
  match findKey json key with
  | none => []
  | some pos =>
    match (json.drop pos).dropWhile isSpace with
    | [] => []
    | c :: rest => if c = openBracket then strArray (rest.length + 1) rest else []

/-- The loop of `get_object`: the text up to the bracket that closes `depth`
levels. `escaped` says that an odd number of backslashes stands in front. -/
def objectText (opening closing : BitVec 8) : Nat → Bool → Bool → Bytes → Bytes
  | _, _, _, [] => []
  | 0, _, _, _ => []
  | depth + 1, inString, escaped, c :: rest =>
    let escaped' := c = backslash && !escaped
    if c = quote && !escaped then
      c :: objectText opening closing (depth + 1) (!inString) escaped' rest
    else if inString then c :: objectText opening closing (depth + 1) inString escaped' rest
    else if c = opening then c :: objectText opening closing (depth + 2) inString escaped' rest
    else if c = closing then c :: objectText opening closing depth inString escaped' rest
    else c :: objectText opening closing (depth + 1) inString escaped' rest

/-- `get_object`: the text of an object or array. -/
def getObject (json key : Bytes) : Bytes :=
  match findKey json key with
  | none => []
  | some pos =>
    match json.drop pos with
    | [] => []
    | c :: rest =>
      if c = openBrace then c :: objectText openBrace closeBrace 1 false false rest
      else if c = openBracket then c :: objectText openBracket closeBracket 1 false false rest
      else []

/-! ## Escaping and extracting -/

/-- What `get_string` reads back for one escaped character. -/
def readBack (c : BitVec 8) : Bytes :=
  if c = 0x0a#8 then [ch 'n']
  else if c = 0x0d#8 then [ch 'r']
  else if c = 0x09#8 then [ch 't']
  else if c < 0x20#8 then
    [ch 'u', ch '0', ch '0', hexDigit (c >>> 4 &&& 0xf), hexDigit (c &&& 0xf)]
  else [c]

theorem readString_plain {c : BitVec 8} (hQuote : c ≠ quote) (hBackslash : c ≠ backslash)
    (rest : Bytes) : readString (c :: rest) = c :: readString rest := by
  rw [readString.eq_def]
  simp only [if_neg hQuote, if_neg hBackslash]

theorem readString_backslash (e : BitVec 8) (rest : Bytes) :
    readString (backslash :: e :: rest) = e :: readString rest := by
  rw [readString.eq_def]
  simp only [show ¬ backslash = quote by decide, if_false, if_true]

theorem readString_close (rest : Bytes) : readString (quote :: rest) = [] := by
  rw [readString.eq_def]
  rfl

theorem skipString_plain {c : BitVec 8} (hQuote : c ≠ quote) (hBackslash : c ≠ backslash)
    (rest : Bytes) : skipString (c :: rest) = skipString rest := by
  rw [skipString.eq_def]
  simp only [if_neg hQuote, if_neg hBackslash]

theorem skipString_backslash (e : BitVec 8) (rest : Bytes) :
    skipString (backslash :: e :: rest) = skipString rest := by
  rw [skipString.eq_def]
  simp only [show ¬ backslash = quote by decide, if_false, if_true]

theorem skipString_close (rest : Bytes) : skipString (quote :: rest) = some rest := by
  rw [skipString.eq_def]
  rfl

theorem rawString_plain {c : BitVec 8} (hQuote : c ≠ quote) (hBackslash : c ≠ backslash)
    (rest : Bytes) : rawString (c :: rest) = c :: rawString rest := by
  rw [rawString.eq_def]
  simp only [if_neg hQuote, if_neg hBackslash]

theorem rawString_backslash (e : BitVec 8) (rest : Bytes) :
    rawString (backslash :: e :: rest) = backslash :: e :: rawString rest := by
  rw [rawString.eq_def]
  simp only [show ¬ backslash = quote by decide, if_false, if_true]

theorem rawString_close (rest : Bytes) : rawString (quote :: rest) = [] := by
  rw [rawString.eq_def]
  rfl

/-- Behind the closing bracket nothing is taken. -/
@[simp] theorem objectText_zero (opening closing : BitVec 8) (inString escaped : Bool)
    (rest : Bytes) : objectText opening closing 0 inString escaped rest = [] := by
  cases rest <;> rfl

@[simp] theorem objectText_nil (opening closing : BitVec 8) (depth : Nat)
    (inString escaped : Bool) : objectText opening closing depth inString escaped [] = [] := by
  cases depth <;> rfl

theorem hexDigit_ne : ∀ n : BitVec 8, hexDigit n ≠ quote ∧ hexDigit n ≠ backslash := by
  decide +kernel

theorem readString_escapeByte (c : BitVec 8) (rest : Bytes) :
    readString (escapeByte c ++ rest) = readBack c ++ readString rest := by
  obtain ⟨hq₁, hb₁⟩ := hexDigit_ne (c >>> 4 &&& 0xf)
  obtain ⟨hq₂, hb₂⟩ := hexDigit_ne (c &&& 0xf)
  unfold escapeByte readBack
  by_cases hBackslash : c = backslash
  · subst hBackslash
    exact readString_backslash _ _
  by_cases hQuote : c = quote
  · subst hQuote
    exact readString_backslash _ _
  rw [if_neg hBackslash, if_neg hQuote]
  -- what is left is the same case distinction on both sides
  split
  · exact readString_backslash _ _
  split
  · exact readString_backslash _ _
  split
  · exact readString_backslash _ _
  split
  · simp only [List.cons_append, List.nil_append]
    rw [readString_backslash, readString_plain (by decide) (by decide),
      readString_plain (by decide) (by decide), readString_plain hq₁ hb₁,
      readString_plain hq₂ hb₂]
  · exact readString_plain hQuote hBackslash rest

theorem readString_escape (s rest : Bytes) :
    readString (escape s ++ quote :: rest) = s.flatMap readBack := by
  induction s with
  | nil =>
    show readString (quote :: rest) = []
    rw [readString.eq_def]
    rfl
  | cons c s ih =>
    rw [escape, List.flatMap_cons, List.append_assoc, readString_escapeByte, List.flatMap_cons]
    exact congrArg _ ih

/-- The value of `{"k":…}` starts at position five. -/
theorem findKey_k (text : Bytes) :
    findKey (bytes "\x7b\"k\":" ++ quote :: text) (bytes "k") = some 5 := rfl

theorem readBack_eq_singleton_iff (c : BitVec 8) : readBack c = [c] ↔ 0x20#8 ≤ c := by
  revert c
  decide +kernel

theorem readBack_length_pos (c : BitVec 8) : 1 ≤ (readBack c).length := by
  revert c
  decide +kernel

/-- A string of pieces that spells the string itself consists of its
characters. -/
theorem flatMap_eq_self_iff {α : Type} {f : α → List α} (hPos : ∀ x, 1 ≤ (f x).length)
    (s : List α) : s.flatMap f = s ↔ ∀ x ∈ s, f x = [x] := by
  have hLen (l : List α) : l.length ≤ (l.flatMap f).length := by
    induction l with
    | nil => simp
    | cons x l ih =>
      have := hPos x
      rw [List.flatMap_cons, List.length_append, List.length_cons]
      omega
  induction s with
  | nil => simp
  | cons x s ih =>
    simp only [List.forall_mem_cons, List.flatMap_cons, ← ih]
    constructor
    · intro h
      -- neither part can be longer than what it stands for
      have hCount := congrArg List.length h
      rw [List.length_append, List.length_cons] at hCount
      have hOne : (f x).length = 1 := by
        have := hPos x
        have := hLen s
        omega
      obtain ⟨y, hy⟩ := List.length_eq_one_iff.mp hOne
      rw [hy, List.singleton_append] at h
      obtain ⟨rfl, hRest⟩ := List.cons.inj h
      exact ⟨hy, hRest⟩
    · rintro ⟨hx, hs⟩
      rw [hx, hs]
      rfl

/-- **A string survives escaping and `get_string` exactly when it has no control
characters.** -/
theorem getString_escape_iff (s : Bytes) :
    getString (bytes "\x7b\"k\":\"" ++ escape s ++ bytes "\"\x7d") (bytes "k") = s ↔
      ∀ c ∈ s, 0x20#8 ≤ c := by
  have hText : bytes "\x7b\"k\":\"" ++ escape s ++ bytes "\"\x7d" =
      bytes "\x7b\"k\":" ++ quote :: (escape s ++ quote :: [closeBrace]) := by
    rw [List.append_assoc]
    rfl
  have hDrop : (bytes "\x7b\"k\":" ++ quote :: (escape s ++ quote :: [closeBrace])).drop 5 =
      quote :: (escape s ++ quote :: [closeBrace]) := rfl
  have hRead : getString (bytes "\x7b\"k\":\"" ++ escape s ++ bytes "\"\x7d") (bytes "k") =
      s.flatMap readBack := by
    rw [hText, getString, findKey_k]
    simp only [hDrop, if_true, readString_escape]
  rw [hRead, flatMap_eq_self_iff readBack_length_pos]
  simp only [readBack_eq_singleton_iff]

/-- A newline comes back as the letter `n`. -/
theorem getString_escape_newline :
    getString (bytes "\x7b\"k\":\"" ++ escape [0x0a#8] ++ bytes "\"\x7d") (bytes "k") ≠
      [0x0a#8] := by
  decide +kernel

end ArmRx.Pool
