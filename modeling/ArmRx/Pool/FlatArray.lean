import ArmRx.Pool.GetObject

/-!
# Access to flat arrays

Three scanners of `src/json.cpp` read the elements of an array, each with a
loop of its own: `get_array_element`, `get_str_array` and `get_array_first`. On
an array of strings and tokens they agree with the list of its elements.

* `flatArray_access` — the three scanners against the list.
-/

namespace ArmRx.Pool

open ArmRx.Lib.Json

/-! ## Flat arrays and their texts -/

/-- Spaces and tabs. -/
structure Blanks where
  text : Bytes
  valid : text.all isBlank = true

/-- An element: a string of any bytes, or a number, `true`, `false` or `null`. -/
inductive Element where
  | string (s : Bytes)
  | token (t : Scalar)

/-- A string with its quotes and backslashes escaped and nothing else. -/
def escapeQuotes (s : Bytes) : Bytes :=
  s.flatMap fun c => if c = quote || c = backslash then [backslash, c] else [c]

def Element.text : Element → Bytes
  | .string s => quote :: (escapeQuotes s ++ [quote])
  | .token t => t.text

/-- What the extractors return for an element: the string, or the exact token. -/
def Element.value : Element → Bytes
  | .string s => s
  | .token t => t.text

def Element.string? : Element → Option Bytes
  | .string s => some s
  | .token _ => none

/-- The element is spelled without escapes. -/
def Element.isPlain : Element → Bool
  | .string s => s.all fun c => c ≠ quote && c ≠ backslash
  | .token _ => true

/-- An element with the blanks around it. -/
structure Placed where
  before : Blanks
  element : Element
  after : Blanks

def Placed.text (e : Placed) : Bytes := e.before.text ++ (e.element.text ++ e.after.text)

/-- The elements behind the first one. -/
def tailText (es : List Placed) : Bytes := es.flatMap fun e => comma :: e.text

theorem tailText_cons (e : Placed) (es : List Placed) :
    tailText (e :: es) = comma :: (e.text ++ tailText es) := List.flatMap_cons

/-- An array; `inner` is what an empty one has between its brackets. -/
structure FlatArray where
  elements : List Placed
  inner : Blanks

/-- The text between the brackets. -/
def FlatArray.body (a : FlatArray) : Bytes :=
  match a.elements with
  | [] => a.inner.text
  | e :: es => e.text ++ tailText es

def FlatArray.text (a : FlatArray) : Bytes := openBracket :: (a.body ++ [closeBracket])

def FlatArray.values (a : FlatArray) : List Element := a.elements.map Placed.element

/-! ## Elements under the scanners -/

/-- Both loops over a string stop at its own closing quote. -/
theorem scan_escapeQuotes (s rest : Bytes) :
    readString (escapeQuotes s ++ quote :: rest) = s ∧
      skipString (escapeQuotes s ++ quote :: rest) = some rest := by
  induction s with
  | nil => exact ⟨readString_close rest, skipString_close rest⟩
  | cons c s ih =>
    rw [escapeQuotes, List.flatMap_cons, List.append_assoc]
    by_cases hEscape : c = quote ∨ c = backslash
    · rw [if_pos (by simpa using hEscape), List.cons_append, List.singleton_append,
        readString_backslash, skipString_backslash]
      exact ⟨congrArg _ ih.1, ih.2⟩
    · obtain ⟨hQuote, hBackslash⟩ := not_or.mp hEscape
      rw [if_neg (by simpa using hEscape), List.singleton_append,
        readString_plain hQuote hBackslash, skipString_plain hQuote hBackslash]
      exact ⟨congrArg _ ih.1, ih.2⟩

theorem rawString_plain_append (s rest : Bytes) (hPlain : ∀ c ∈ s, c ≠ quote ∧ c ≠ backslash) :
    rawString (s ++ quote :: rest) = s := by
  induction s with
  | nil => exact rawString_close rest
  | cons c s ih =>
    obtain ⟨hQuote, hBackslash⟩ := hPlain c List.mem_cons_self
    rw [List.cons_append, rawString_plain hQuote hBackslash,
      ih fun b hb => hPlain b (List.mem_cons_of_mem _ hb)]

/-- What stands behind an element. -/
def Ends (rest : Bytes) : Prop := ∃ c more, rest = c :: more ∧ isElementByte c = false

theorem Blanks.ends (b : Blanks) {rest : Bytes} (h : Ends rest) : Ends (b.text ++ rest) := by
  have hBlank (c : BitVec 8) (hc : isBlank c = true) : isElementByte c = false := by
    simp [isElementByte, hc]
  cases hText : b.text with
  | nil => exact h
  | cons c more =>
    refine ⟨c, more ++ rest, rfl, hBlank c (List.all_eq_true.mp b.valid c ?_)⟩
    rw [hText]
    exact List.mem_cons_self

theorem ends_tail (es : List Placed) (rest : Bytes) :
    Ends (tailText es ++ closeBracket :: rest) := by
  cases es with
  | nil => exact ⟨closeBracket, rest, rfl, by decide⟩
  | cons e es => exact ⟨comma, _, by rw [tailText_cons, List.cons_append], by decide⟩

theorem token_elementByte (t : Scalar) : ∀ c ∈ t.text, isElementByte c = true := by
  intro c hc
  have hToken := t.tokenBytes c hc
  exact isElementByte_iff.mpr
    ⟨hToken.notComma, hToken.notCloseBracket, isBlank_of_not_isSpace hToken.notSpace⟩

/-- The loops over a token stop behind it, and there is nothing to trim. -/
theorem scan_token (t : Scalar) {rest : Bytes} (h : Ends rest) :
    trimRight ((t.text ++ rest).takeWhile isElementByte) = t.text ∧
      (t.text ++ rest).dropWhile isElementByte = rest := by
  obtain ⟨c, more, rfl, hc⟩ := h
  have hAll := token_elementByte t
  have hTake : (t.text ++ c :: more).takeWhile isElementByte = t.text := by
    rw [List.takeWhile_append_of_pos hAll, List.takeWhile_cons_of_neg (by simp [hc]),
      List.append_nil]
  refine ⟨?_, ?_⟩
  · rw [hTake, trimRight]
    cases hRev : t.text.reverse with
    | nil => simpa using hRev
    | cons b bs =>
      have hMem : b ∈ t.text := List.mem_reverse.mp (hRev ▸ List.mem_cons_self)
      have hBlank := (isElementByte_iff.mp (hAll b hMem)).2.2
      rw [List.dropWhile_cons_of_neg (by simp [hBlank]), ← hRev, List.reverse_reverse]
  · rw [List.dropWhile_append_of_pos hAll, List.dropWhile_cons_of_neg (by simp [hc])]

/-- An element starts with a byte that is neither white space nor a comma nor
the closing bracket, and with a quote exactly if it is a string. -/
theorem Element.text_head (e : Element) : ∃ c more, e.text = c :: more ∧ isSpace c = false ∧
    c ≠ closeBracket ∧ c ≠ comma ∧ (c = quote → ∃ s, e = .string s) := by
  cases e with
  | string s => exact ⟨quote, _, rfl, by decide, by decide, by decide, fun _ => ⟨s, rfl⟩⟩
  | token t =>
    obtain ⟨c, more, hText, hToken⟩ := t.text_head
    exact ⟨c, more, hText, hToken.notSpace, hToken.notCloseBracket, hToken.notComma,
      fun h => absurd h hToken.notQuote⟩

theorem Blanks.dropWhile (b : Blanks) (rest : Bytes) :
    (b.text ++ rest).dropWhile isSpace = rest.dropWhile isSpace :=
  List.dropWhile_append_of_pos fun c hc =>
    isSpace_of_isBlank (List.all_eq_true.mp b.valid c hc)

/-! ## get_array_element -/

section ArrayElement

variable (index fuel cur : Nat)

theorem arrayElement_blanks (b : Blanks) (rest : Bytes) :
    arrayElement index fuel cur (b.text ++ rest) = arrayElement index fuel cur rest := by
  cases fuel with
  | zero => rfl
  | succ fuel => rw [arrayElement, arrayElement, b.dropWhile]

theorem arrayElement_comma (rest : Bytes) :
    arrayElement index (fuel + 1) cur (comma :: rest) = arrayElement index fuel cur rest := by
  rw [arrayElement, List.dropWhile_cons_of_neg (by decide)]
  simp only [show ¬ comma = closeBracket by decide, if_false, if_true]

theorem arrayElement_close (rest : Bytes) :
    arrayElement index (fuel + 1) cur (closeBracket :: rest) = [] := by
  rw [arrayElement, List.dropWhile_cons_of_neg (by decide)]
  simp only [if_true]

theorem arrayElement_element (e : Element) {rest : Bytes} (hEnds : Ends rest) :
    arrayElement index (fuel + 1) cur (e.text ++ rest) =
      if cur = index then e.value else arrayElement index fuel (cur + 1) rest := by
  obtain ⟨c, more, hText, hSpace, hClose, hComma, hString⟩ := e.text_head
  rw [arrayElement, hText, List.cons_append, List.dropWhile_cons_of_neg (by simp [hSpace])]
  simp only [if_neg hClose, if_neg hComma]
  cases e with
  | string s =>
    obtain ⟨rfl, rfl⟩ := List.cons.inj hText
    obtain ⟨hRead, hSkip⟩ := scan_escapeQuotes s rest
    rw [List.append_assoc, List.singleton_append]
    simp only [if_true, hRead, hSkip, Element.value]
  | token t =>
    have hQuote : ¬ c = quote := fun h => by
      obtain ⟨s, hs⟩ := hString h
      cases hs
    obtain ⟨hTake, hDrop⟩ := scan_token t hEnds
    rw [show c :: (more ++ rest) = t.text ++ rest by rw [← List.cons_append, ← hText]; rfl]
    simp only [if_neg hQuote, hTake, hDrop, Element.value]

/-- The element at a place of a list, empty behind its end. -/
def valueAt (es : List Placed) (i : Nat) : Bytes :=
  ((es[i]?).map fun e => e.element.value).getD []

/-- One element and what follows it. -/
theorem arrayElement_placed (e : Placed) {rest : Bytes} (hEnds : Ends rest) :
    arrayElement index (fuel + 1) cur (e.text ++ rest) =
      if cur = index then e.element.value else arrayElement index fuel (cur + 1) rest := by
  rw [Placed.text, List.append_assoc, arrayElement_blanks, List.append_assoc,
    arrayElement_element _ _ _ _ (e.after.ends hEnds), arrayElement_blanks]

/-- The elements behind a comma; two rounds are enough for each. -/
theorem arrayElement_tail (es : List Placed) (rest : Bytes) (k : Nat)
    (hFuel : 2 * es.length < fuel) :
    arrayElement (cur + k) fuel cur (tailText es ++ closeBracket :: rest) = valueAt es k := by
  induction es generalizing fuel cur k with
  | nil =>
    obtain ⟨fuel, rfl⟩ : ∃ n, fuel = n + 1 := ⟨fuel - 1, by omega⟩
    exact arrayElement_close _ _ _ rest
  | cons e es ih =>
    obtain ⟨fuel, rfl⟩ : ∃ n, fuel = n + 2 := ⟨fuel - 2, by simp at hFuel; omega⟩
    rw [tailText_cons, List.cons_append, List.append_assoc, arrayElement_comma,
      arrayElement_placed _ _ _ _ (ends_tail es rest)]
    cases k with
    | zero => simp [valueAt]
    | succ k =>
      rw [if_neg (by omega), show cur + (k + 1) = cur + 1 + k by omega]
      refine (ih fuel (cur + 1) k (by simp at hFuel; omega)).trans ?_
      simp [valueAt]

end ArrayElement

/-! ## get_str_array -/

section StrArray

variable (fuel : Nat)

theorem strArray_blanks (b : Blanks) (rest : Bytes) :
    strArray fuel (b.text ++ rest) = strArray fuel rest := by
  cases fuel with
  | zero => rfl
  | succ fuel => rw [strArray, strArray, b.dropWhile]

theorem strArray_comma (rest : Bytes) :
    strArray (fuel + 1) (comma :: rest) = strArray fuel rest := by
  rw [strArray, List.dropWhile_cons_of_neg (by decide)]
  simp only [show ¬ comma = closeBracket by decide, if_false, if_true]

theorem strArray_close (rest : Bytes) : strArray (fuel + 1) (closeBracket :: rest) = [] := by
  rw [strArray, List.dropWhile_cons_of_neg (by decide)]
  simp only [if_true]

theorem strArray_element (e : Element) {rest : Bytes} (hEnds : Ends rest) :
    strArray (fuel + 1) (e.text ++ rest) = e.string?.toList ++ strArray fuel rest := by
  obtain ⟨c, more, hText, hSpace, hClose, hComma, hString⟩ := e.text_head
  rw [strArray, hText, List.cons_append, List.dropWhile_cons_of_neg (by simp [hSpace])]
  simp only [if_neg hClose, if_neg hComma]
  cases e with
  | string s =>
    obtain ⟨rfl, rfl⟩ := List.cons.inj hText
    obtain ⟨hRead, hSkip⟩ := scan_escapeQuotes s rest
    rw [List.append_assoc, List.singleton_append]
    simp only [if_true, hRead, hSkip, Option.getD_some]
    rfl
  | token t =>
    have hQuote : ¬ c = quote := fun h => by
      obtain ⟨s, hs⟩ := hString h
      cases hs
    rw [show c :: (more ++ rest) = t.text ++ rest by rw [← List.cons_append, ← hText]; rfl]
    simp only [if_neg hQuote, (scan_token t hEnds).2]
    rfl

/-- The strings of a list of elements. -/
def strings (es : List Placed) : List Bytes := es.filterMap fun e => e.element.string?

theorem strArray_placed (e : Placed) {rest : Bytes} (hEnds : Ends rest) :
    strArray (fuel + 1) (e.text ++ rest) = e.element.string?.toList ++ strArray fuel rest := by
  rw [Placed.text, List.append_assoc, strArray_blanks, List.append_assoc,
    strArray_element _ _ (e.after.ends hEnds), strArray_blanks]

theorem strings_cons (e : Placed) (es : List Placed) :
    strings (e :: es) = e.element.string?.toList ++ strings es := by
  rw [strings, List.filterMap_cons]
  cases e.element.string? <;> rfl

theorem strArray_tail (es : List Placed) (rest : Bytes) (hFuel : 2 * es.length < fuel) :
    strArray fuel (tailText es ++ closeBracket :: rest) = strings es := by
  induction es generalizing fuel with
  | nil =>
    obtain ⟨fuel, rfl⟩ : ∃ n, fuel = n + 1 := ⟨fuel - 1, by omega⟩
    exact strArray_close _ rest
  | cons e es ih =>
    obtain ⟨fuel, rfl⟩ : ∃ n, fuel = n + 2 := ⟨fuel - 2, by simp at hFuel; omega⟩
    rw [tailText_cons, List.cons_append, List.append_assoc, strArray_comma,
      strArray_placed _ _ (ends_tail es rest), strings_cons]
    exact congrArg _ (ih fuel (by simp at hFuel; omega))

end StrArray

/-! ## Whole arrays -/

theorem two_mul_length_le (es : List Placed) : 2 * es.length ≤ (tailText es).length := by
  induction es with
  | nil => simp
  | cons e es ih =>
    obtain ⟨c, more, hText, -⟩ := e.element.text_head
    simp only [tailText_cons, List.length_cons, Placed.text, List.length_append, hText]
    omega

theorem arrayElement_body (a : FlatArray) (rest : Bytes) (i fuel : Nat)
    (hFuel : a.body.length < fuel) :
    arrayElement i fuel 0 (a.body ++ closeBracket :: rest) = valueAt a.elements i := by
  obtain ⟨fuel, rfl⟩ : ∃ n, fuel = n + 1 := ⟨fuel - 1, by omega⟩
  obtain ⟨elements, inner⟩ := a
  cases elements with
  | nil =>
    rw [FlatArray.body, arrayElement_blanks, arrayElement_close]
    rfl
  | cons e es =>
    rw [FlatArray.body] at hFuel ⊢
    rw [List.append_assoc, arrayElement_placed _ _ _ _ (ends_tail es rest)]
    cases i with
    | zero => rfl
    | succ i =>
      have hLength := two_mul_length_le es
      obtain ⟨c, more, hText, -⟩ := e.element.text_head
      have hMore : 2 * es.length < fuel := by
        simp only [Placed.text, List.length_append, hText, List.length_cons] at hFuel
        omega
      rw [if_neg (by omega), Nat.add_comm i 1]
      exact (arrayElement_tail fuel 1 es rest i hMore).trans (by simp [valueAt, Nat.add_comm 1 i])

theorem strArray_body (a : FlatArray) (rest : Bytes) (fuel : Nat)
    (hFuel : a.body.length < fuel) :
    strArray fuel (a.body ++ closeBracket :: rest) = strings a.elements := by
  obtain ⟨fuel, rfl⟩ : ∃ n, fuel = n + 1 := ⟨fuel - 1, by omega⟩
  obtain ⟨elements, inner⟩ := a
  cases elements with
  | nil =>
    rw [FlatArray.body, strArray_blanks, strArray_close]
    rfl
  | cons e es =>
    have hLength := two_mul_length_le es
    obtain ⟨c, more, hText, -⟩ := e.element.text_head
    have hMore : 2 * es.length < fuel := by
      simp only [FlatArray.body, Placed.text, List.length_append, hText, List.length_cons] at hFuel
      omega
    rw [FlatArray.body, List.append_assoc, strArray_placed _ _ (ends_tail es rest), strings_cons,
      strArray_tail fuel es rest hMore]

/-- What `get_array_first` reads of an element without escapes. -/
theorem arrayFirst_element (e : Element) (hPlain : e.isPlain = true) {rest : Bytes}
    (hEnds : Ends rest) :
    (match e.text ++ rest with
      | [] => []
      | c :: rest =>
        if c = quote then rawString rest else trimRight ((c :: rest).takeWhile isElementByte)) =
      e.value := by
  cases e with
  | string s =>
    have hBytes : ∀ c ∈ s, c ≠ quote ∧ c ≠ backslash := by simpa [Element.isPlain] using hPlain
    have hEscape : escapeQuotes s = s := by
      rw [escapeQuotes, List.flatMap_congr (g := fun c => [c]) fun c hc => ?_]
      · simp
      · simp [hBytes c hc]
    simp only [Element.text, List.cons_append, if_true, hEscape, List.append_assoc,
      List.nil_append]
    exact rawString_plain_append s rest hBytes
  | token t =>
    obtain ⟨c, more, hText, -, -, -, hString⟩ := (Element.token t).text_head
    have hQuote : ¬ c = quote := fun h => by
      obtain ⟨s, hs⟩ := hString h
      cases hs
    have hTake := (scan_token t hEnds).1
    rw [show t.text = c :: more from hText, List.cons_append] at hTake
    simp only [Element.text, show t.text = c :: more from hText, List.cons_append, if_neg hQuote]
    rw [hTake]
    exact hText.symm

/-- **Access to flat arrays.** For every array of strings of any bytes and of
tokens, with any blanks around its elements, as the value of the first member:
`get_array_element` returns the element at every index and nothing behind the
end, `get_str_array` the strings in order, and `get_array_first` the first
element if it is spelled without escapes. -/
theorem flatArray_access (key : Bytes) (beforeValue : Space) (a : FlatArray) (suffix : Bytes) :
    (∀ i, getArrayElement (firstMember key beforeValue (a.text ++ suffix)) key i =
        ((a.values[i]?).map Element.value).getD []) ∧
      getStrArray (firstMember key beforeValue (a.text ++ suffix)) key =
        a.values.filterMap Element.string? ∧
      ∀ e, a.values[0]? = some e → e.isPlain = true →
        getArrayFirst (firstMember key beforeValue (a.text ++ suffix)) key = e.value := by
  obtain ⟨pos, hFind, hDrop⟩ := findKey_first key beforeValue (c := openBracket) (by decide)
    (a.body ++ closeBracket :: suffix)
  have hText : a.text ++ suffix = openBracket :: (a.body ++ closeBracket :: suffix) := by
    simp [FlatArray.text]
  rw [hText]
  have hValue : ((firstMember key beforeValue (openBracket ::
      (a.body ++ closeBracket :: suffix))).drop pos).dropWhile isSpace =
        openBracket :: (a.body ++ closeBracket :: suffix) := by
    rw [hDrop, List.dropWhile_cons_of_neg (by decide)]
  have hFuel : a.body.length < (a.body ++ closeBracket :: suffix).length + 1 := by
    simp
  refine ⟨fun i => ?_, ?_, fun e hFirst hPlain => ?_⟩
  · rw [getArrayElement, hFind]
    simp only [hValue, if_true]
    rw [arrayElement_body a suffix i _ hFuel, valueAt, FlatArray.values, List.getElem?_map,
      Option.map_map]
    rfl
  · rw [getStrArray, hFind]
    simp only [hValue, if_true]
    rw [strArray_body a suffix _ hFuel, strings, FlatArray.values, List.filterMap_map]
    rfl
  · rw [getArrayFirst, hFind]
    simp only [hValue, if_true]
    obtain ⟨elements, inner⟩ := a
    cases elements with
    | nil => cases hFirst
    | cons p es =>
      obtain rfl : p.element = e := Option.some.inj hFirst
      have hEnds := p.after.ends (ends_tail es suffix)
      obtain ⟨c, more, hHead, hSpace, -⟩ := p.element.text_head
      have hRest : (FlatArray.body ⟨p :: es, inner⟩ ++ closeBracket :: suffix).dropWhile isSpace =
          p.element.text ++ (p.after.text ++ (tailText es ++ closeBracket :: suffix)) := by
        simp only [FlatArray.body, Placed.text, List.append_assoc]
        rw [p.before.dropWhile, hHead, List.cons_append,
          List.dropWhile_cons_of_neg (by simp [hSpace])]
      rw [hRest]
      exact arrayFirst_element p.element hPlain hEnds

/-- `[ "a,]" ,"\\"",5]`. -/
def sampleArray : FlatArray where
  elements :=
    [⟨⟨bytes " ", rfl⟩, .string (bytes "a,]"), ⟨bytes " ", rfl⟩⟩,
      ⟨⟨[], rfl⟩, .string [quote], ⟨[], rfl⟩⟩,
      ⟨⟨[], rfl⟩, .token (.number (.ofNat 5)), ⟨[], rfl⟩⟩]
  inner := ⟨[], rfl⟩

theorem flatArray_access_sample :
    getArrayElement (firstMember (bytes "k") .none (sampleArray.text ++ [closeBrace])) (bytes "k")
        2 = bytes "5" ∧
      getStrArray (firstMember (bytes "k") .none (sampleArray.text ++ [closeBrace])) (bytes "k") =
        [bytes "a,]", [quote]] ∧
      getArrayFirst (firstMember (bytes "k") .none (sampleArray.text ++ [closeBrace]))
        (bytes "k") = bytes "a,]" := by
  obtain ⟨hElement, hStrings, hFirst⟩ :=
    flatArray_access (bytes "k") .none sampleArray [closeBrace]
  exact ⟨hElement 2, hStrings, hFirst (.string (bytes "a,]")) rfl (by decide)⟩

end ArmRx.Pool
