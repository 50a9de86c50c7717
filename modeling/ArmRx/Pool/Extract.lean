import ArmRx.Pool.FlatArray
import ArmRx.Pool.Handlers

/-!
# Extractors on JSON texts

What the extractors of `src/json.cpp` return for a member of an object, given
that `find_key` finds it (`looksUp`). Strings, objects and arrays come back
whole whatever their layout; a number or an element of an array only when the
white space behind it is of the right kind.

* `Lookup.getString_eq`, `Lookup.getObject_eq`, `Lookup.getArrayElement_eq`,
  `Lookup.getArrayFirst_eq`, `Lookup.getRaw_eq_decimal_iff` — the extractors on
  the text of an object.
* `getString_in`, `getObject_in` — and on the text of a value that has been
  extracted.
-/

namespace ArmRx.Pool

open ArmRx.Lib.Json

/-! ## What the value says -/

/-- The text of a string value, as `get_string` gives it. -/
def stringOf : Option Doc → Bytes
  | some (.string s) => readString (s.text ++ [quote])
  | _ => []

/-- The element of an array with that index, if it is no array or object. -/
def itemAt : Items → Nat → Bytes
  | .nil _, _ => []
  | .cons _ (.scalar s) _ _, 0 => s.text
  | .cons _ (.string s) _ _, 0 => readString (s.text ++ [quote])
  | .cons _ _ _ _, 0 => []
  | .cons _ _ _ more, index + 1 => itemAt more index

def elementOf (index : Nat) : Option Doc → Bytes
  | some (.array items) => itemAt items index
  | _ => []

/-- The first element of an array, a string with its escapes. -/
def firstOf : Option Doc → Bytes
  | some (.array (.cons _ (.scalar s) _ _)) => s.text
  | some (.array (.cons _ (.string s) _ _)) => s.text
  | _ => []

/-- A member of an object. -/
def memberOf (key : Bytes) : Option Doc → Option Doc
  | some (.object members) => members.lookup key
  | _ => none

def numberOf : Option Doc → Bytes
  | some (.scalar (.number n)) => n.text
  | _ => []

/-- The text of an object or array. -/
def containerOf : Option Doc → Bytes
  | some v => containerText v
  | none => []

/-- The value is an object or array. -/
def isStructure : Option Doc → Bool
  | some (.array _) | some (.object _) => true
  | _ => false

theorem isEmpty_containerOf (v : Option Doc) : (!(containerOf v).isEmpty) = isStructure v := by
  cases v with
  | none => rfl
  | some v => cases v <;> rfl

/-! ## Strings under the scanners -/

/-- A unit of a string is read, skipped and copied on its own. -/
theorem scan_unit (u : StringUnit) :
    (∃ t, ∀ rest, readString (u.text ++ rest) = t ++ readString rest) ∧
      (∀ rest, skipString (u.text ++ rest) = skipString rest) ∧
      ∀ rest, rawString (u.text ++ rest) = u.text ++ rawString rest := by
  cases u with
  | byte b valid =>
    have hb : b ≠ quote ∧ b ≠ backslash := (isPlain_iff.mp valid).2
    exact ⟨⟨[b], fun rest => readString_plain hb.1 hb.2 rest⟩,
      fun rest => skipString_plain hb.1 hb.2 rest, fun rest => rawString_plain hb.1 hb.2 rest⟩
  | short letter code valid =>
    exact ⟨⟨[letter], fun rest => readString_backslash letter rest⟩,
      fun rest => skipString_backslash letter rest, fun rest => rawString_backslash letter rest⟩
  | unicode a b c d valid =>
    have hHex {x : BitVec 8} (hx : (hexValue x).isSome = true) : x ≠ quote ∧ x ≠ backslash :=
      (isPlain_iff.mp (isPlain_of_hexValue x hx)).2
    obtain ⟨ha, hb, hc, hd⟩ := valid
    obtain ⟨ha₁, ha₂⟩ := hHex ha
    obtain ⟨hb₁, hb₂⟩ := hHex hb
    obtain ⟨hc₁, hc₂⟩ := hHex hc
    obtain ⟨hd₁, hd₂⟩ := hHex hd
    refine ⟨⟨[ch 'u', a, b, c, d], fun rest => ?_⟩, fun rest => ?_, fun rest => ?_⟩
    · simp only [StringUnit.text, List.cons_append, List.nil_append]
      rw [readString_backslash, readString_plain ha₁ ha₂, readString_plain hb₁ hb₂,
        readString_plain hc₁ hc₂, readString_plain hd₁ hd₂]
    · simp only [StringUnit.text, List.cons_append, List.nil_append]
      rw [skipString_backslash, skipString_plain ha₁ ha₂, skipString_plain hb₁ hb₂,
        skipString_plain hc₁ hc₂, skipString_plain hd₁ hd₂]
    · simp only [StringUnit.text, List.cons_append, List.nil_append]
      rw [rawString_backslash, rawString_plain ha₁ ha₂, rawString_plain hb₁ hb₂,
        rawString_plain hc₁ hc₂, rawString_plain hd₁ hd₂]

/-- The scanners stop at the closing quote of a string. -/
theorem scan_spelling (s : Spelling) :
    (∃ t, ∀ rest, readString (s.text ++ rest) = t ++ readString rest) ∧
      (∀ rest, skipString (s.text ++ rest) = skipString rest) ∧
      ∀ rest, rawString (s.text ++ rest) = s.text ++ rawString rest := by
  induction s with
  | nil => exact ⟨⟨[], fun _ => rfl⟩, fun _ => rfl, fun _ => rfl⟩
  | cons u s ih =>
    have hText : Spelling.text (u :: s) = u.text ++ Spelling.text s := List.flatMap_cons
    obtain ⟨⟨t, ht⟩, hSkip, hRaw⟩ := scan_unit u
    obtain ⟨⟨t', ht'⟩, hSkip', hRaw'⟩ := ih
    rw [hText]
    refine ⟨⟨t ++ t', fun rest => ?_⟩, fun rest => ?_, fun rest => ?_⟩
    · rw [List.append_assoc, ht, ht', List.append_assoc]
    · rw [List.append_assoc, hSkip, hSkip']
    · rw [List.append_assoc, hRaw, hRaw', List.append_assoc]

theorem readString_text (s : Spelling) (rest : Bytes) :
    readString (s.text ++ quote :: rest) = readString (s.text ++ [quote]) := by
  obtain ⟨⟨t, ht⟩, -⟩ := scan_spelling s
  rw [ht, ht, readString_close, readString_close]

theorem skipString_text (s : Spelling) (rest : Bytes) :
    skipString (s.text ++ quote :: rest) = some rest := by
  rw [(scan_spelling s).2.1, skipString_close]

theorem rawString_text (s : Spelling) (rest : Bytes) :
    rawString (s.text ++ quote :: rest) = s.text := by
  rw [(scan_spelling s).2.2, rawString_close, List.append_nil]

/-! ## The value that is found -/

/-- The white space in front of the closing brace, if no member follows. -/
def closingSpace : Members → Bytes
  | .nil inner => inner.text
  | .cons .. => []

/-- The white space between the value of the first member called `key` and the
comma or brace behind it. -/
def gapBehind (key : Bytes) : Members → Bytes
  | .nil _ => []
  | .cons _ name _ _ _ after more =>
    if name.decode = key then after.text ++ closingSpace more else gapBehind key more

theorem gapBehind_space (key : Bytes) (m : Members) : (gapBehind key m).all isSpace = true := by
  fun_induction gapBehind key m with
  | case1 => rfl
  | case2 _ _ _ _ _ after more =>
    cases more with
    | nil inner =>
      simp only [closingSpace, List.all_append, after.valid, inner.valid, Bool.and_self]
    | cons => simp only [closingSpace, List.append_nil, after.valid]
  | case3 _ _ _ _ _ _ _ _ ih => exact ih

/-- The text from a value on. -/
structure ValueAt (key : Bytes) (m : Members) (text : Bytes) (value : Doc) : Prop where
  lookup : m.lookup key = some value
  split : ∃ c more, text = value.text ++ (gapBehind key m ++ c :: more) ∧
    (c = comma ∨ c = closeBrace)

theorem valuePos_drop {key : Bytes} (rest : Bytes) : {pos q : Nat} → (m : Members) →
    valuePos key pos m = some q →
    ∃ front text value, m.text ++ closeBrace :: rest = front ++ text ∧ q = pos + front.length ∧
      ValueAt key m text value
  | _, _, .nil _, h => by cases h
  | pos, q, .cons lead name afterName beforeValue value after more, h => by
    rw [valuePos] at h
    split at h
    · -- this member: the position counts its name, the colon and the white space
      rename_i hName
      cases h
      refine ⟨lead.text ++ (quoted name.text ++ (afterName.text ++ ([colon] ++ beforeValue.text))),
        value.text ++ (after.text ++ (more.tailText ++ closeBrace :: rest)), value,
        by simp [Members.text], ?_, by rw [Members.lookup, if_pos hName], ?_⟩
      · simp only [List.length_append, List.length_singleton]
        omega
      · rw [gapBehind, if_pos hName]
        cases more with
        | nil inner =>
          exact ⟨closeBrace, rest, by simp [Members.tailText, closingSpace], .inr rfl⟩
        | cons =>
          exact ⟨comma, _, by rw [closingSpace, List.append_nil, Members.tailText,
            List.cons_append], .inl rfl⟩
    · rename_i hName
      obtain ⟨front, text, found, hText, rfl, hAt⟩ := valuePos_drop rest more h
      have hTail := tailText_of_lookup hAt.lookup
      refine ⟨lead.text ++ (quoted name.text ++ (afterName.text ++ ([colon] ++ (beforeValue.text ++
        (value.text ++ (after.text ++ ([comma] ++ front))))))), text, found, ?_, ?_,
        by rw [Members.lookup, if_neg hName, hAt.lookup], ?_⟩
      · simp [Members.text, hTail, hText]
      · simp only [List.length_append, List.length_singleton]
        omega
      · rw [gapBehind, if_neg hName]
        exact hAt.split

/-- The lookup of a key in an object that `find_key` reads right. -/
inductive Lookup (json key : Bytes) (m : Members) : Prop
  | absent (find : findKey json key = none) (lookup : m.lookup key = none)
  | found {pos : Nat} {value : Doc} (find : findKey json key = some pos)
    (at' : ValueAt key m (json.drop pos) value)

theorem lookup_of_looksUp {key : Bytes} (hPlain : ∀ b ∈ key, isPlain b = true)
    (lead trail : Space) {m : Members} (h : looksUp key m (closeBrace :: trail.text) .free = true) :
    Lookup (lead.text ++ ((Doc.object m).text ++ trail.text)) key m := by
  have hFind := (findKey_structural_iff lead trail m key hPlain).mpr h
  cases hPos : valuePos key (lead.text.length + 1) m with
  | none => exact .absent (hFind.trans hPos) ((valuePos_eq_none_iff m _).mp hPos)
  | some q =>
    obtain ⟨front, text, value, hText, rfl, hAt⟩ := valuePos_drop trail.text m hPos
    refine .found (hFind.trans hPos) (?_ : ValueAt key m _ value)
    have hLine : lead.text ++ ((Doc.object m).text ++ trail.text) =
        (lead.text ++ openBrace :: front) ++ text := by
      simp [Doc.text, hText]
    rw [hLine, List.drop_left' (by simp; omega)]
    exact hAt

/-! ## Extractors on an object -/

section Extractors

variable {json key : Bytes} {m : Members}

theorem Lookup.getString_eq (h : Lookup json key m) :
    getString json key = stringOf (m.lookup key) := by
  cases h with
  | absent hFind hLookup =>
    rw [getString, hFind, hLookup]
    rfl
  | found hFind hAt =>
    rename_i pos value
    obtain ⟨c, more, hText, -⟩ := hAt.split
    rw [getString, hFind, hAt.lookup]
    simp only [hText]
    cases value with
    | string s =>
      simp only [Doc.text, quoted, List.cons_append, if_true, stringOf, List.append_assoc,
        List.nil_append]
      exact readString_text s _
    | scalar s =>
      obtain ⟨b, rest, hScalar⟩ := List.exists_cons_of_ne_nil s.text_ne_nil
      have hb : b ≠ quote := by
        rintro rfl
        exact absurd (s.bytes quote (by simp [hScalar])) (by decide)
      simp only [Doc.text, hScalar, List.cons_append, if_neg hb, stringOf]
    | array items => rfl
    | object members => rfl

theorem Lookup.getObject_eq (h : Lookup json key m) :
    getObject json key = containerOf (m.lookup key) := by
  cases h with
  | absent hFind hLookup =>
    rw [getObject, hFind, hLookup]
    rfl
  | found hFind hAt =>
    obtain ⟨c, more, hText, -⟩ := hAt.split
    rw [getObject_at hFind hText, hAt.lookup, containerOf]

end Extractors

/-! ## Elements of an array -/

/-- What stands behind a token ends it: not a line break. -/
def tokenEnds : Bytes → Bool
  | [] => true
  | c :: _ => !isElementByte c

/-- The loop over an array reads its element right: it is a string, or a token
with a comma, bracket or blank behind it, and no array or object stands in front
of it. -/
def itemReadable : Items → Nat → Bool
  | .nil _, _ => true
  | .cons _ value after more, 0 =>
    match value with
    | .string _ => true
    | .scalar _ => tokenEnds (after.text ++ more.tailText)
    | .array _ | .object _ => false
  | .cons _ value _ more, index + 1 => !isContainer value && itemReadable more index

theorem ends_of_tokenEnds {text : Bytes} (h : tokenEnds text = true) (rest : Bytes) :
    Ends (text ++ closeBracket :: rest) := by
  cases text with
  | nil => exact ⟨closeBracket, rest, rfl, by decide⟩
  | cons c more => exact ⟨c, more ++ closeBracket :: rest, rfl, by simpa [tokenEnds] using h⟩

theorem arrayElement_space (index fuel cur : Nat) (w : Space) (rest : Bytes) :
    arrayElement index fuel cur (w.text ++ rest) = arrayElement index fuel cur rest := by
  cases fuel with
  | zero => rfl
  | succ fuel =>
    rw [arrayElement, arrayElement, List.dropWhile_append_of_pos (List.all_eq_true.mp w.valid)]

/-- White space is left when a token has been skipped. -/
theorem dropWhile_elementByte (w : Space) {c : BitVec 8} (hc : isElementByte c = false)
    (rest : Bytes) :
    ∃ w' : Space, (w.text ++ c :: rest).dropWhile isElementByte = w'.text ++ c :: rest := by
  have hSub : ∀ b ∈ w.text.dropWhile isElementByte, isSpace b = true := fun b hb =>
    List.all_eq_true.mp w.valid b ((List.dropWhile_sublist _).subset hb)
  refine ⟨⟨w.text.dropWhile isElementByte, List.all_eq_true.mpr hSub⟩, ?_⟩
  rw [List.dropWhile_append, List.dropWhile_cons_of_neg (by simp [hc])]
  split
  · rename_i hNil
    have hEmpty := List.isEmpty_iff.mp hNil
    simp only [hEmpty, List.nil_append]
  · rfl

/-- The loop passes an element that is no array or object. -/
theorem arrayElement_skip {index cur : Nat} (fuel : Nat) (hCur : cur ≠ index) {value : Doc}
    (hFlat : isContainer value = false) (w : Space) {c : BitVec 8} (hc : isElementByte c = false)
    (rest : Bytes) :
    arrayElement index (fuel + 1) cur (value.text ++ (w.text ++ c :: rest)) =
      arrayElement index fuel (cur + 1) (c :: rest) := by
  cases value with
  | array => cases hFlat
  | object => cases hFlat
  | string s =>
    have hText : (Doc.string s).text ++ (w.text ++ c :: rest) =
        quote :: (s.text ++ quote :: (w.text ++ c :: rest)) := by simp [Doc.text, quoted]
    rw [hText, arrayElement, List.dropWhile_cons_of_neg (by decide)]
    simp only [skipString_text, if_neg hCur, if_true, show ¬ quote = closeBracket by decide,
      show ¬ quote = comma by decide, if_false]
    exact arrayElement_space _ _ _ w _
  | scalar s =>
    obtain ⟨b, more, hScalar, hToken⟩ := s.text_head
    obtain ⟨w', hDrop⟩ := dropWhile_elementByte w hc rest
    have hRest : (b :: (more ++ (w.text ++ c :: rest))).dropWhile isElementByte =
        w'.text ++ c :: rest := by
      have hAll : (s.text ++ (w.text ++ c :: rest)).dropWhile isElementByte = _ :=
        List.dropWhile_append_of_pos (token_elementByte s)
      rw [hScalar] at hAll
      exact hAll.trans hDrop
    rw [Doc.text, hScalar, List.cons_append, arrayElement,
      List.dropWhile_cons_of_neg (by simp [hToken.notSpace])]
    simp only [if_neg hToken.notCloseBracket, if_neg hToken.notComma, if_neg hCur,
      if_neg hToken.notQuote, hRest]
    exact arrayElement_space _ _ _ w' _

/-- The loop reads the element it has counted to. -/
theorem arrayElement_read (fuel cur : Nat) (lead after : Space) (value : Doc) (more : Items)
    (rest : Bytes) (h : itemReadable (.cons lead value after more) 0 = true) :
    arrayElement cur (fuel + 1) cur
        (value.text ++ (after.text ++ (more.tailText ++ closeBracket :: rest))) =
      itemAt (.cons lead value after more) 0 := by
  cases value with
  | array => cases h
  | object => cases h
  | string s =>
    have hText : (Doc.string s).text ++ (after.text ++ (more.tailText ++ closeBracket :: rest)) =
        quote :: (s.text ++ quote :: (after.text ++ (more.tailText ++ closeBracket :: rest))) := by
      simp [Doc.text, quoted]
    rw [hText, arrayElement, List.dropWhile_cons_of_neg (by decide)]
    simp only [if_true, show ¬ quote = closeBracket by decide, show ¬ quote = comma by decide,
      if_false, readString_text]
    rfl
  | scalar s =>
    obtain ⟨b, text, hScalar, hToken⟩ := s.text_head
    have hRead := (scan_token s (ends_of_tokenEnds h rest)).1
    rw [List.append_assoc, hScalar, List.cons_append] at hRead
    rw [Doc.text, hScalar, List.cons_append, arrayElement,
      List.dropWhile_cons_of_neg (by simp [hToken.notSpace])]
    simp only [if_neg hToken.notCloseBracket, if_neg hToken.notComma, if_true,
      if_neg hToken.notQuote, hRead, itemAt, hScalar]

/-- What stands behind an element, up to the next comma or the bracket. -/
theorem behind_element (after : Space) (more : Items) (rest : Bytes) :
    ∃ (w : Space) (c : BitVec 8) (rest' : Bytes),
      after.text ++ (more.tailText ++ closeBracket :: rest) = w.text ++ c :: rest' ∧
      isElementByte c = false ∧ ∀ index fuel cur, arrayElement index fuel cur (c :: rest') =
        arrayElement index fuel cur (more.tailText ++ closeBracket :: rest) := by
  cases more with
  | nil inner =>
    refine ⟨⟨after.text ++ inner.text, by simp [after.valid, inner.valid]⟩, closeBracket, rest,
      by simp [Items.tailText], by decide, fun index fuel cur => ?_⟩
    exact (arrayElement_space index fuel cur inner _).symm
  | cons => exact ⟨after, comma, _, rfl, by decide, fun _ _ _ => rfl⟩

theorem tailText_length (lead value after : _) (more : Items) :
    more.tailText.length + 2 ≤ (Items.cons lead value after more).tailText.length := by
  obtain ⟨c, text, hText, -⟩ := Doc.text_head value
  rw [Items.tailText, hText]
  simp only [List.length_cons, List.length_append]
  omega

theorem itemAt_succ (lead after : Space) (value : Doc) (more : Items) (k : Nat) :
    itemAt (.cons lead value after more) (k + 1) = itemAt more k := by
  cases value <;> rfl

/-- One element, given what the loop does behind it. -/
theorem arrayElement_cons (lead after : Space) (value : Doc) (more : Items) (rest : Bytes)
    (hMore : ∀ k cur fuel, itemReadable more k = true → more.tailText.length < fuel →
      arrayElement (cur + k) fuel cur (more.tailText ++ closeBracket :: rest) = itemAt more k)
    (cur : Nat) {k fuel : Nat} (h : itemReadable (.cons lead value after more) k = true)
    (hFuel : more.tailText.length < fuel) :
    arrayElement (cur + k) (fuel + 1) cur (lead.text ++ (value.text ++ (after.text ++
        (more.tailText ++ closeBracket :: rest)))) =
      itemAt (.cons lead value after more) k := by
  rw [arrayElement_space]
  cases k with
  | zero => exact arrayElement_read fuel cur lead after value more rest h
  | succ k =>
    simp only [itemReadable, Bool.and_eq_true, Bool.not_eq_true'] at h
    obtain ⟨w, c, rest', hBehind, hc, hSame⟩ := behind_element after more rest
    rw [hBehind, arrayElement_skip fuel (by omega) h.1 w hc, hSame, itemAt_succ,
      show cur + (k + 1) = cur + 1 + k by omega]
    exact hMore k (cur + 1) fuel h.2 hFuel

/-- The loop in front of a comma, or of the closing bracket. -/
theorem arrayElement_itemsTail (rest : Bytes) : (items : Items) → (k cur fuel : Nat) →
    itemReadable items k = true → items.tailText.length < fuel →
    arrayElement (cur + k) fuel cur (items.tailText ++ closeBracket :: rest) = itemAt items k
  | .nil inner, k, cur, fuel, _, hFuel => by
    obtain ⟨fuel, rfl⟩ : ∃ n, fuel = n + 1 := ⟨fuel - 1, by omega⟩
    rw [Items.tailText, arrayElement_space, arrayElement_close]
    rfl
  | .cons lead value after more, k, cur, fuel, h, hFuel => by
    have hLength := tailText_length lead value after more
    obtain ⟨fuel, rfl⟩ : ∃ n, fuel = n + 2 := ⟨fuel - 2, by omega⟩
    have hText : (Items.cons lead value after more).tailText ++ closeBracket :: rest =
        comma :: (lead.text ++ (value.text ++ (after.text ++
          (more.tailText ++ closeBracket :: rest)))) := by
      simp [Items.tailText]
    rw [hText, arrayElement_comma]
    exact arrayElement_cons lead after value more rest (arrayElement_itemsTail rest more) _ h
      (by omega)

/-- The loop behind the opening bracket. -/
theorem arrayElement_items (items : Items) (rest : Bytes) {k : Nat}
    (h : itemReadable items k = true) :
    arrayElement k ((items.text ++ closeBracket :: rest).length + 1) 0
      (items.text ++ closeBracket :: rest) = itemAt items k := by
  cases items with
  | nil inner =>
    rw [Items.text, arrayElement_space, arrayElement_close]
    rfl
  | cons lead value after more =>
    have hText : (Items.cons lead value after more).text ++ closeBracket :: rest =
        lead.text ++ (value.text ++ (after.text ++ (more.tailText ++ closeBracket :: rest))) := by
      simp [Items.text]
    have hFuel : more.tailText.length <
        ((Items.cons lead value after more).text ++ closeBracket :: rest).length := by
      rw [hText]
      simp only [List.length_append, List.length_cons]
      omega
    have hRead := arrayElement_cons lead after value more rest (arrayElement_itemsTail rest more)
      0 h hFuel
    rw [Nat.zero_add, ← hText] at hRead
    exact hRead

/-- The first element behind the opening bracket. -/
theorem arrayFirst_items (items : Items) (rest : Bytes) (h : itemReadable items 0 = true) :
    (match (items.text ++ closeBracket :: rest).dropWhile isSpace with
      | [] => []
      | c :: rest =>
        if c = quote then rawString rest else trimRight ((c :: rest).takeWhile isElementByte)) =
      firstOf (some (.array items)) := by
  cases items with
  | nil inner =>
    rw [Items.text, dropWhile_space inner (by decide)]
    rfl
  | cons lead value after more =>
    have hText : (Items.cons lead value after more).text ++ closeBracket :: rest =
        lead.text ++ (value.text ++ (after.text ++ (more.tailText ++ closeBracket :: rest))) := by
      simp [Items.text]
    rw [hText]
    cases value with
    | array => cases h
    | object => cases h
    | string s =>
      have hString : (Doc.string s).text ++ (after.text ++ (more.tailText ++ closeBracket :: rest)) =
          quote :: (s.text ++
            quote :: (after.text ++ (more.tailText ++ closeBracket :: rest))) := by
        simp [Doc.text, quoted]
      rw [hString, dropWhile_space lead (by decide)]
      exact rawString_text s _
    | scalar s =>
      obtain ⟨b, text, hScalar, hToken⟩ := s.text_head
      have hRead := (scan_token s (ends_of_tokenEnds h rest)).1
      rw [List.append_assoc, hScalar, List.cons_append] at hRead
      rw [Doc.text, hScalar, List.cons_append, dropWhile_space lead hToken.notSpace]
      simp only [if_neg hToken.notQuote, hRead, firstOf, hScalar]

/-- The elements of an array, or of anything else. -/
def elementReadable (index : Nat) : Option Doc → Bool
  | some (.array items) => itemReadable items index
  | _ => true

/-- Only an array starts with a bracket. -/
theorem text_head_bracket (value : Doc) (rest : Bytes) :
    (∃ items, value = .array items) ∨
      ∃ c more, value.text ++ rest = c :: more ∧ isSpace c = false ∧ c ≠ openBracket := by
  cases value with
  | array items => exact .inl ⟨items, rfl⟩
  | object members => exact .inr ⟨openBrace, _, rfl, by decide, by decide⟩
  | string s => exact .inr ⟨quote, _, rfl, by decide, by decide⟩
  | scalar s =>
    obtain ⟨b, more, hText, hToken⟩ := s.text_head
    exact .inr ⟨b, more ++ rest, by rw [Doc.text, hText, List.cons_append], hToken.notSpace,
      hToken.notOpenBracket⟩

section Arrays

variable {json key : Bytes} {m : Members}

theorem Lookup.getArrayElement_eq (h : Lookup json key m) {index : Nat}
    (hRead : elementReadable index (m.lookup key) = true) :
    getArrayElement json key index = elementOf index (m.lookup key) := by
  cases h with
  | absent hFind hLookup =>
    rw [getArrayElement, hFind, hLookup]
    rfl
  | found hFind hAt =>
    rename_i pos value
    obtain ⟨c, more, hText, -⟩ := hAt.split
    rw [hAt.lookup] at hRead ⊢
    rw [getArrayElement, hFind]
    simp only [hText]
    obtain ⟨items, rfl⟩ | ⟨b, text, hHead, hSpace, hb⟩ :=
      text_head_bracket value (gapBehind key m ++ c :: more)
    · have hArray : (Doc.array items).text ++ (gapBehind key m ++ c :: more) =
          openBracket :: (items.text ++ closeBracket :: (gapBehind key m ++ c :: more)) := by
        simp [Doc.text]
      rw [hArray, List.dropWhile_cons_of_neg (by decide)]
      simp only [if_true]
      exact arrayElement_items items _ hRead
    · rw [hHead, List.dropWhile_cons_of_neg (by simp [hSpace])]
      simp only [if_neg hb]
      cases value with
      | array items => exact absurd (List.cons.inj hHead).1.symm hb
      | scalar | string | object => rfl

theorem Lookup.getArrayFirst_eq (h : Lookup json key m)
    (hRead : elementReadable 0 (m.lookup key) = true) :
    getArrayFirst json key = firstOf (m.lookup key) := by
  cases h with
  | absent hFind hLookup =>
    rw [getArrayFirst, hFind, hLookup]
    rfl
  | found hFind hAt =>
    rename_i pos value
    obtain ⟨c, more, hText, -⟩ := hAt.split
    rw [hAt.lookup] at hRead ⊢
    rw [getArrayFirst, hFind]
    simp only [hText]
    obtain ⟨items, rfl⟩ | ⟨b, text, hHead, hSpace, hb⟩ :=
      text_head_bracket value (gapBehind key m ++ c :: more)
    · have hArray : (Doc.array items).text ++ (gapBehind key m ++ c :: more) =
          openBracket :: (items.text ++ closeBracket :: (gapBehind key m ++ c :: more)) := by
        simp [Doc.text]
      rw [hArray, List.dropWhile_cons_of_neg (by decide)]
      simp only [if_true]
      exact arrayFirst_items items _ hRead
    · rw [hHead, List.dropWhile_cons_of_neg (by simp [hSpace])]
      simp only [if_neg hb]
      cases value with
      | array items => exact absurd (List.cons.inj hHead).1.symm hb
      | scalar | string | object => rfl

end Arrays

/-! ## Numbers -/

/-- The characters `get_raw` takes. -/
def isRawByte (c : BitVec 8) : Bool :=
  c ≠ comma && c ≠ closeBrace && c ≠ closeBracket && c ≠ 0x0a#8

theorem isRawByte_of_tokenByte {b : BitVec 8} (h : TokenByte b) : isRawByte b = true := by
  have hLine : b ≠ 0x0a#8 := by
    rintro rfl
    cases h.notSpace
  simp [isRawByte, hLine, h.notComma, h.notCloseBrace, h.notCloseBracket]

/-- Up to a line break only blanks stand in the white space, which are trimmed. -/
def rawEnds (gap : Bytes) : Bool := (gap.takeWhile isRawByte).all isBlank

theorem trimRight_append {t : Bytes} {b : BitVec 8} (hb : isBlank b = false) (g : Bytes) :
    trimRight (t ++ b :: g) = t ++ b :: trimRight g := by
  unfold trimRight
  have hReverse : (t ++ b :: g).reverse = g.reverse ++ b :: t.reverse := by simp
  rw [hReverse, List.dropWhile_append]
  split
  · rename_i hNil
    rw [List.isEmpty_iff.mp hNil, List.dropWhile_cons_of_neg (by simp [hb])]
    simp
  · simp

theorem trimRight_blanks {g : Bytes} (h : g.all isBlank = true) : trimRight g = [] := by
  unfold trimRight
  rw [List.dropWhile_eq_nil_iff.mpr fun x hx =>
    List.all_eq_true.mp h x (List.mem_reverse.mp hx)]
  rfl

theorem trimRight_subset (g : Bytes) : ∀ x ∈ trimRight g, x ∈ g := by
  intro x hx
  unfold trimRight at hx
  exact List.mem_reverse.mp ((List.dropWhile_sublist _).subset (List.mem_reverse.mp hx))

theorem decimal_digits (n : Nat) : ∀ b ∈ decimal n, isDigit b = true := by
  intro b hb
  unfold decimal at hb
  split at hb
  · rw [List.mem_singleton] at hb
    subst hb
    decide
  · obtain ⟨d, hd, rfl⟩ := List.mem_map.mp hb
    have hLt : d < 10 := Nat.digits_lt_base (by decide) (List.mem_reverse.mp hd)
    interval_cases d <;> rfl

theorem decimal_ne_nil (n : Nat) : decimal n ≠ [] := by
  unfold decimal
  split
  · simp
  · rename_i hn
    simpa [Nat.digits_eq_nil_iff_eq_zero] using hn

theorem raw_takeWhile {value gap more : Bytes} {c : BitVec 8}
    (hValue : ∀ b ∈ value, isRawByte b = true) (hc : c = comma ∨ c = closeBrace) :
    (value ++ (gap ++ c :: more)).takeWhile isRawByte = value ++ gap.takeWhile isRawByte := by
  have hStop : (c :: more).takeWhile isRawByte = [] := by
    rw [List.takeWhile_cons_of_neg]
    rcases hc with rfl | rfl <;> decide
  rw [List.takeWhile_append_of_pos hValue, List.takeWhile_append, hStop, List.append_nil]
  split
  · rename_i hLength
    rw [( List.takeWhile_prefix _).eq_of_length hLength]
  · rfl

/-- The raw text of a number, with the white space that is not trimmed. -/
theorem raw_number {n : Nat} (number : NumberText) {gap : Bytes} (hGap : gap.all isSpace = true)
    (hEnds : number.text = decimal n → rawEnds gap = true) :
    trimRight (number.text ++ gap.takeWhile isRawByte) = decimal n ↔ number.text = decimal n := by
  have hDigit : ∀ b : BitVec 8, isSpace b = true → isDigit b = false :=
    forall_isSpace (by decide) (by decide) (by decide) (by decide)
  -- the last character of the number is no blank
  have hTrim : trimRight (number.text ++ gap.takeWhile isRawByte) =
      number.text ++ trimRight (gap.takeWhile isRawByte) := by
    have hSplit := List.dropLast_append_getLast number.text_ne_nil
    have hLast := Scalar.tokenBytes (.number number) _ (List.getLast_mem number.text_ne_nil)
    rw [← hSplit, List.append_assoc, List.singleton_append,
      trimRight_append (isBlank_of_not_isSpace hLast.notSpace)]
    simp
  rw [hTrim]
  constructor
  · intro hEq
    have hNil : trimRight (gap.takeWhile isRawByte) = [] := by
      rw [List.eq_nil_iff_forall_not_mem]
      intro x hx
      have hSpace : isSpace x = true :=
        List.all_eq_true.mp hGap x (( List.takeWhile_prefix _).subset (trimRight_subset _ x hx))
      have hDecimal := decimal_digits n x (hEq ▸ List.mem_append_right _ hx)
      rw [hDigit x hSpace] at hDecimal
      cases hDecimal
    rwa [hNil, List.append_nil] at hEq
  · intro hEq
    rw [trimRight_blanks (hEnds hEq), List.append_nil, hEq]

/-- Any other value starts with a character that is no digit. -/
theorem raw_other (value : Doc) (hValue : numberOf (some value) = []) :
    ∃ b more, value.text = b :: more ∧ isRawByte b = true ∧ isBlank b = false ∧
      isDigit b = false := by
  cases value with
  | string s => exact ⟨quote, _, rfl, by decide, by decide, by decide⟩
  | array items => exact ⟨openBracket, _, rfl, by decide, by decide, by decide⟩
  | object members => exact ⟨openBrace, _, rfl, by decide, by decide, by decide⟩
  | scalar s =>
    cases s with
    | null => exact ⟨ch 'n', _, rfl, by decide, by decide, by decide⟩
    | bool b =>
      cases b with
      | true => exact ⟨ch 't', _, rfl, by decide, by decide, by decide⟩
      | false => exact ⟨ch 'f', _, rfl, by decide, by decide, by decide⟩
    | number n => exact absurd hValue n.text_ne_nil

/-- **`get_raw` and a number.** The extracted text is the decimal spelling of a
number exactly when the member is that number, if the white space behind it is
trimmed. -/
theorem Lookup.getRaw_eq_decimal_iff {json key : Bytes} {m : Members} (h : Lookup json key m)
    {n : Nat} (hEnds : numberOf (m.lookup key) = decimal n → rawEnds (gapBehind key m) = true) :
    getRaw json key = decimal n ↔ numberOf (m.lookup key) = decimal n := by
  cases h with
  | absent hFind hLookup =>
    rw [getRaw, hFind, hLookup]
    rfl
  | found hFind hAt =>
    rename_i pos value
    obtain ⟨c, more, hText, hc⟩ := hAt.split
    rw [hAt.lookup] at hEnds ⊢
    have hRaw : getRaw json key =
        trimRight ((value.text ++ (gapBehind key m ++ c :: more)).takeWhile isRawByte) := by
      rw [getRaw, hFind]
      simp only [hText]
      rfl
    rw [hRaw]
    by_cases hOther : numberOf (some value) = []
    · -- no decimal text: its first character would have to be a digit
      obtain ⟨b, rest, hValue, hRawByte, hBlank, hDigit⟩ := raw_other value hOther
      rw [hValue, List.cons_append, List.takeWhile_cons_of_pos hRawByte, ← List.nil_append (b :: _),
        trimRight_append hBlank, hOther]
      refine iff_of_false (fun hEq => ?_) (decimal_ne_nil n).symm
      have hMem : b ∈ decimal n := hEq ▸ List.mem_append_right _ List.mem_cons_self
      rw [decimal_digits n b hMem] at hDigit
      cases hDigit
    · cases value with
      | scalar s =>
        cases s with
        | number number =>
          have hBytes : ∀ b ∈ number.text, isRawByte b = true := fun b hb =>
            isRawByte_of_tokenByte (Scalar.tokenBytes (.number number) b hb)
          rw [Doc.text, Scalar.text, raw_takeWhile hBytes hc]
          exact raw_number number (gapBehind_space key m) hEnds
        | null | bool => exact absurd rfl hOther
      | string | array | object => exact absurd rfl hOther

/-! ## Extractors on an extracted value -/

/-- Nothing is taken for a value. -/
def findsNothing : Except Hit Cursor → Bool
  | .ok _ | .error .nothing => true
  | .error .value => false

/-- The lookup of a key in the text of an extracted value is right. In an array
there is nothing to be found. -/
def looksUpIn (key : Bytes) : Option Doc → Bool
  | some (.object members) => looksUp key members [closeBrace] .free
  | some (.array items) => findsNothing (passItems key false items [closeBracket] .free)
  | _ => true

theorem findKey_nil (key : Bytes) : findKey [] key = none := by
  rw [findKey, scanKey_noQuote (by simp)]

/-- The search in the text of an array. -/
theorem findKey_array {key : Bytes} (hPlain : ∀ b ∈ key, isPlain b = true) {items : Items}
    (h : looksUpIn key (some (.array items)) = true) :
    findKey (Doc.array items).text key = none := by
  have hScans := scans_doc hPlain (.array items) false .free [] [] (fun s hs => by cases hs)
  rw [passDoc] at hScans
  rw [looksUpIn] at h
  cases hResult : passItems key false items [closeBracket] .free with
  | ok cursor =>
    rw [hResult] at hScans
    have hNone := hScans.findKey_none (by simp)
    rwa [List.append_nil] at hNone
  | error hit =>
    rw [hResult] at hScans h
    cases hit with
    | value => cases h
    | nothing =>
      have hNone := Stops.findKey_none hScans
      rwa [List.append_nil] at hNone

/-- The lookup in an extracted object. -/
theorem lookup_in_object {key : Bytes} (hPlain : ∀ b ∈ key, isPlain b = true) {members : Members}
    (h : looksUpIn key (some (.object members)) = true) :
    Lookup (Doc.object members).text key members := by
  have hLookup := lookup_of_looksUp hPlain .none .none h
  simpa [Space.none] using hLookup

section Nested

variable {key : Bytes} (hPlain : ∀ b ∈ key, isPlain b = true)

include hPlain

theorem getString_in {v : Option Doc} (h : looksUpIn key v = true) :
    getString (containerOf v) key = stringOf (memberOf key v) := by
  cases v with
  | none =>
    rw [containerOf, getString, findKey_nil]
    rfl
  | some v =>
    cases v with
    | scalar | string =>
      rw [containerOf, containerText, getString, findKey_nil]
      rfl
    | array items =>
      rw [containerOf, containerText, getString, findKey_array hPlain h]
      rfl
    | object members => exact (lookup_in_object hPlain h).getString_eq

theorem getObject_in {v : Option Doc} (h : looksUpIn key v = true) :
    getObject (containerOf v) key = containerOf (memberOf key v) := by
  cases v with
  | none =>
    rw [containerOf, getObject, findKey_nil]
    rfl
  | some v =>
    cases v with
    | scalar | string =>
      rw [containerOf, containerText, getObject, findKey_nil]
      rfl
    | array items =>
      rw [containerOf, containerText, getObject, findKey_array hPlain h]
      rfl
    | object members => exact (lookup_in_object hPlain h).getObject_eq

end Nested

end ArmRx.Pool
