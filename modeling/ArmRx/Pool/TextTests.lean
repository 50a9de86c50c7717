import ArmRx.Lib.Json.Same
import ArmRx.Pool.FindKey
import ArmRx.Pool.Handlers

/-!
# Substring tests on JSON texts

`handle_line` and `handle_reply` decide several things by `line.find`: whether a
quoted word occurs, or a name directly followed by a certain value. On the text
of a document such a test asks for a string or a member anywhere in it, with a
certain spelling and layout. `Finds` says where the first occurrence in one piece
of a text is, with the rest of the text present.

* `hasText_quoted` — the test for a quoted word asks for a string that mentions it.
* `hasText_pair` — the test for a name and its value asks for a member, at any
  depth, with no white space around its colon.
* `hasText_keepalived` — a word of letters occurs inside one string.
-/

namespace ArmRx.Pool

open ArmRx.Lib.Json

/-! ## Searching piece by piece -/

/-- The first occurrence of `sub` begins in `text` if `found` holds, and is the
first one of `rest` otherwise. -/
def Finds (sub text rest : Bytes) (found : Bool) : Prop :=
  ∃ r : Option Bytes, r.isSome = found ∧ findText sub (text ++ rest) = r.or (findText sub rest)

theorem Finds.append {sub a b rest : Bytes} {x y : Bool} (hFirst : Finds sub a (b ++ rest) x)
    (hSecond : Finds sub b rest y) : Finds sub (a ++ b) rest (x || y) := by
  obtain ⟨r, rfl, hr⟩ := hFirst
  obtain ⟨t, rfl, ht⟩ := hSecond
  refine ⟨r.or t, by cases r <;> simp, ?_⟩
  rw [List.append_assoc, hr, ht, Option.or_assoc]

theorem Finds.hasText_eq {sub text rest : Bytes} {found : Bool} (h : Finds sub text rest found) :
    hasText sub (text ++ rest) = (found || hasText sub rest) := by
  obtain ⟨r, rfl, hr⟩ := h
  rw [hasText, hasText, hr]
  cases r <;> simp

/-- What is not found in `text` is looked for behind it. -/
theorem Finds.findText_eq {sub text rest : Bytes} (h : Finds sub text rest false) :
    findText sub (text ++ rest) = findText sub rest := by
  obtain ⟨r, hr, hFind⟩ := h
  rw [hFind, Option.isSome_eq_false_iff.mp hr |> Option.isNone_iff_eq_none.mp, Option.none_or]

theorem findText_cons_of_not {sub rest : Bytes} {c : BitVec 8} (h : ¬ sub <+: c :: rest) :
    findText sub (c :: rest) = findText sub rest := by
  rw [findText, if_neg (by simpa using h)]

theorem findText_eq_self {sub text : Bytes} (hSub : sub ≠ []) (h : sub <+: text) :
    findText sub text = some text := by
  cases text with
  | nil => exact absurd (List.prefix_nil.mp h) hSub
  | cons c rest => rw [findText, if_pos (by simpa using h)]

/-- No occurrence begins where the first character does not occur. -/
theorem Finds.skip {k : BitVec 8} {sub text : Bytes} (hk : k ∉ text) (rest : Bytes) :
    Finds (k :: sub) text rest false := by
  refine ⟨none, rfl, ?_⟩
  rw [Option.none_or]
  induction text with
  | nil => rfl
  | cons c text ih =>
    have hc : ¬ k :: sub <+: c :: (text ++ rest) := fun h =>
      hk ((List.cons_prefix_cons.mp h).1 ▸ List.mem_cons_self)
    rw [List.cons_append, findText_cons_of_not hc, ih fun h => hk (List.mem_cons_of_mem _ h)]

/-! ## Walking through a document -/

/-- Of the characters that end a token or open a string, the first is no
quote. -/
def separated (rest : Bytes) : Bool :=
  rest.find? (fun b => b = comma || b = colon || b = quote) != some quote

theorem separated_append {a rest : Bytes} (h : ∀ b ∈ a, b ≠ comma ∧ b ≠ colon ∧ b ≠ quote) :
    separated (a ++ rest) = separated rest := by
  have hNone : a.find? (fun b => b = comma || b = colon || b = quote) = none := by
    rw [List.find?_eq_none]
    intro b hb
    obtain ⟨h₁, h₂, h₃⟩ := h b hb
    simp [h₁, h₂, h₃]
  unfold separated
  rw [List.find?_append, hNone]
  rfl

theorem separated_space (w : Space) (rest : Bytes) :
    separated (w.text ++ rest) = separated rest := by
  have hSpace : ∀ b : BitVec 8, isSpace b = true → b ≠ comma ∧ b ≠ colon ∧ b ≠ quote :=
    forall_isSpace (by decide) (by decide) (by decide) (by decide)
  exact separated_append fun b hb => hSpace b (List.all_eq_true.mp w.valid b hb)

/-- What can stand behind a value. -/
def Behind (rest : Bytes) : Prop := separated rest = true ∧ rest.head? ≠ some colon

theorem Behind.space (w : Space) {rest : Bytes} (h : Behind rest) : Behind (w.text ++ rest) := by
  refine ⟨(separated_space w rest).trans h.1, ?_⟩
  cases hText : w.text with
  | nil => exact h.2
  | cons c more =>
    intro hColon
    have hc : isSpace c = true := List.all_eq_true.mp w.valid c (by simp [hText])
    rw [List.cons_append, List.head?_cons, Option.some.injEq] at hColon
    rw [hColon] at hc
    exact absurd hc (by decide)

theorem Behind.close {c : BitVec 8} (hc : c = closeBracket ∨ c = closeBrace) {rest : Bytes}
    (h : Behind rest) : Behind (c :: rest) := by
  rcases hc with rfl | rfl
  · exact ⟨(separated_append (a := [closeBracket]) (by decide)).trans h.1, fun h => by cases h⟩
  · exact ⟨(separated_append (a := [closeBrace]) (by decide)).trans h.1, fun h => by cases h⟩

theorem Behind.comma (rest : Bytes) : Behind (comma :: rest) :=
  ⟨rfl, fun h => by cases h⟩

theorem Behind.items {rest : Bytes} (h : Behind rest) (items : Items) :
    Behind (items.tailText ++ rest) := by
  cases items with
  | nil inner => exact h.space inner
  | cons => exact Behind.comma _

theorem Behind.members {rest : Bytes} (h : Behind rest) (members : Members) :
    Behind (members.tailText ++ rest) := by
  cases members with
  | nil inner => exact h.space inner
  | cons => exact Behind.comma _

theorem Behind.nil : Behind [] := ⟨rfl, by simp⟩

/-- A search that can only succeed at a string of a document: `str` says at which
values, and `mem` at the names of which members. -/
structure Pattern (k : BitVec 8) (sub : Bytes) (str : Spelling → Bool)
    (mem : Spelling → Space → Space → Doc → Bool) : Prop where
  space : ∀ w : Space, k ∉ w.text
  scalar : ∀ s : Scalar, k ∉ s.text
  mark : k ∉ [comma, colon, openBrace, closeBrace, openBracket, closeBracket]
  string : ∀ s rest, Behind rest → Finds (k :: sub) (quoted s.text) rest (str s)
  member : ∀ name (afterName beforeValue : Space) (value : Doc) rest, Behind rest →
    Finds (k :: sub) (quoted name.text)
      (afterName.text ++ colon :: (beforeValue.text ++ (value.text ++ rest)))
      (mem name afterName beforeValue value)

section Walk

variable {k : BitVec 8} {sub : Bytes} {str : Spelling → Bool}
  {mem : Spelling → Space → Space → Doc → Bool}

theorem Pattern.finds_mark (p : Pattern k sub str mem) {c : BitVec 8}
    (hc : c ∈ [comma, colon, openBrace, closeBrace, openBracket, closeBracket]) (rest : Bytes) :
    Finds (k :: sub) [c] rest false := by
  refine Finds.skip (fun h => p.mark ?_) rest
  rw [List.mem_singleton.mp h]
  exact hc

theorem Pattern.finds_space (p : Pattern k sub str mem) (w : Space) (rest : Bytes) :
    Finds (k :: sub) w.text rest false := Finds.skip (p.space w) rest

/-- Brackets around a text. -/
theorem Pattern.finds_enclosed (p : Pattern k sub str mem) {o c : BitVec 8}
    (ho : o ∈ [comma, colon, openBrace, closeBrace, openBracket, closeBracket])
    (hc : c ∈ [comma, colon, openBrace, closeBrace, openBracket, closeBracket]) {text rest : Bytes}
    {found : Bool} (h : Finds (k :: sub) text (c :: rest) found) :
    Finds (k :: sub) (o :: (text ++ [c])) rest found := by
  have hOpen := p.finds_mark ho (text ++ [c] ++ rest)
  have hClose := p.finds_mark hc rest
  have hBody : Finds (k :: sub) (text ++ [c]) rest (found || false) := Finds.append h hClose
  simpa using hOpen.append hBody

theorem Pattern.finds_itemsTail (p : Pattern k sub str mem) {items : Items} {rest : Bytes}
    {found : Bool} (h : Finds (k :: sub) items.text rest found) :
    Finds (k :: sub) items.tailText rest found := by
  cases items with
  | nil inner => exact h
  | cons =>
    have hTail := (p.finds_mark (c := comma) (by simp) _).append h
    rwa [Bool.false_or] at hTail

theorem Pattern.finds_membersTail (p : Pattern k sub str mem) {members : Members} {rest : Bytes}
    {found : Bool} (h : Finds (k :: sub) members.text rest found) :
    Finds (k :: sub) members.tailText rest found := by
  cases members with
  | nil inner => exact h
  | cons =>
    have hTail := (p.finds_mark (c := comma) (by simp) _).append h
    rwa [Bool.false_or] at hTail

mutual

/-- The search asks every part of a document. -/
theorem Pattern.finds_doc (p : Pattern k sub str mem) : (v : Doc) → {rest : Bytes} → Behind rest →
    Finds (k :: sub) v.text rest (v.anyPart str mem)
  | .scalar s, rest, _ => Finds.skip (p.scalar s) rest
  | .string s, rest, h => p.string s rest h
  | .array items, _, h =>
    p.finds_enclosed (by simp) (by simp) (p.finds_items items (h.close (.inl rfl)))
  | .object members, _, h =>
    p.finds_enclosed (by simp) (by simp) (p.finds_members members (h.close (.inr rfl)))

theorem Pattern.finds_items (p : Pattern k sub str mem) : (items : Items) → {rest : Bytes} →
    Behind rest → Finds (k :: sub) items.text rest (items.anyPart str mem)
  | .nil inner, rest, _ => p.finds_space inner rest
  | .cons before value after more, rest, h => by
    have hValue := p.finds_doc value ((h.items more).space after)
    rw [← List.append_assoc] at hValue
    have hMore := (p.finds_space after _).append (p.finds_itemsTail (p.finds_items more h))
    simpa [Items.text, Items.anyPart] using
      (p.finds_space before _).append (hValue.append hMore)

theorem Pattern.finds_members (p : Pattern k sub str mem) : (members : Members) → {rest : Bytes} →
    Behind rest → Finds (k :: sub) members.text rest (members.anyPart str mem)
  | .nil inner, rest, _ => p.finds_space inner rest
  | .cons before name afterName beforeValue value after more, rest, h => by
    have hBehind := (h.members more).space after
    have hName := p.member name afterName beforeValue value _ hBehind
    have hValue := p.finds_doc value hBehind
    rw [← List.append_assoc after.text] at hName hValue
    have hMore := (p.finds_space after _).append (p.finds_membersTail (p.finds_members more h))
    have hRest := (p.finds_space afterName _).append ((p.finds_mark (c := colon) (by simp) _).append
      ((p.finds_space beforeValue _).append (hValue.append hMore)))
    have hText : afterName.text ++ colon :: (beforeValue.text ++ (value.text ++
        (after.text ++ more.tailText ++ rest))) = afterName.text ++ ([colon] ++ (beforeValue.text ++
          (value.text ++ (after.text ++ more.tailText)))) ++ rest := by simp
    rw [hText] at hName
    simpa [Members.text, Members.anyPart, Bool.or_assoc] using
      (p.finds_space before _).append (hName.append hRest)

end

end Walk

/-! ## Strings that mention a word -/

/-- The string is spelled like the word, or ends in an escaped quote and the
word. -/
def mentions (key : Bytes) (s : Spelling) : Bool := s.text = key || endsQuoted key s

section Mentions

variable {key : Bytes} (pat : Bytes) (hPlain : ∀ b ∈ key, isPlain b = true)

include hPlain

/-- A quoted word at the opening quote of a string. -/
theorem quoted_prefix_spelling_iff (s : Spelling) (rest : Bytes) :
    quoted key ++ pat <+: quote :: (s.text ++ quote :: rest) ↔ s.text = key ∧ pat <+: rest := by
  have hText : quoted key ++ pat = quote :: (key ++ quote :: pat) := by simp [quoted]
  rw [hText, List.cons_prefix_cons]
  constructor
  · rintro ⟨-, h⟩
    have hPrefix : key ++ [quote] <+: s.text ++ quote :: rest :=
      List.IsPrefix.trans ⟨pat, by simp⟩ h
    have hKey := key_prefix_spelling hPlain s hPrefix
    rw [hKey, List.prefix_append_right_inj, List.cons_prefix_cons] at h
    exact ⟨hKey, h.2⟩
  · rintro ⟨hKey, h⟩
    rw [hKey, List.prefix_append_right_inj, List.cons_prefix_cons]
    exact ⟨rfl, rfl, h⟩

/-- A quoted word inside a string, its closing quote included. The escaped quote
and the closing quote can be those around the word. -/
theorem findText_spelling (s : Spelling) {rest : Bytes} (hGap : ¬ key ++ quote :: pat <+: rest) :
    findText (quoted key ++ pat) (s.text ++ quote :: rest) =
      if endsQuoted key s && pat.isPrefixOf rest then some (quoted key ++ rest)
      else findText (quoted key ++ pat) rest := by
  have hSkip {text : Bytes} (hText : quote ∉ text) (rest : Bytes) :
      findText (quoted key ++ pat) (text ++ rest) = findText (quoted key ++ pat) rest :=
    (Finds.skip hText rest).findText_eq
  -- only a quote can start an occurrence, and inside a string quotes are escaped
  induction s with
  | nil =>
    refine findText_cons_of_not fun h => hGap ?_
    simpa [quoted] using h
  | cons u s ih =>
    have hText : Spelling.text (u :: s) = u.text ++ Spelling.text s := List.flatMap_cons
    rw [hText, List.append_assoc]
    cases u with
    | byte b valid =>
      have hb : quote ∉ (StringUnit.byte b valid).text := by
        rw [StringUnit.text, List.mem_singleton]
        rintro rfl
        exact absurd valid (by decide)
      rw [hSkip hb, ih]
      simp [endsQuoted, StringUnit.text]
    | unicode a b c d valid =>
      rw [hSkip (quote_not_mem_unicode valid), ih]
      simp [endsQuoted, StringUnit.text]
    | short letter code valid =>
      have hUnit : (StringUnit.short letter code valid).text ++ (Spelling.text s ++ quote :: rest) =
          [backslash] ++ letter :: (Spelling.text s ++ quote :: rest) := rfl
      rw [hUnit, hSkip (by decide)]
      by_cases hLetter : letter = quote
      · subst hLetter
        -- an escaped quote opens the word, the closing quote of the string ends it
        by_cases hFound : Spelling.text s = key ∧ pat <+: rest
        · have hMatch := (quoted_prefix_spelling_iff pat hPlain s rest).mpr hFound
          rw [findText_eq_self (by simp [quoted]) hMatch]
          simp [endsQuoted, StringUnit.text, hFound.1, hFound.2, quoted]
        · have hMiss := mt (quoted_prefix_spelling_iff pat hPlain s rest).mp hFound
          rw [findText_cons_of_not hMiss, ih]
          refine if_congr ?_ rfl rfl
          simp only [endsQuoted, StringUnit.text, Bool.and_eq_true, Bool.or_eq_true,
            decide_eq_true_eq, List.isPrefixOf_iff_prefix, true_and]
          tauto
      · have hChar : quote ∉ [letter] := by simpa using Ne.symm hLetter
        have hCons : letter :: (Spelling.text s ++ quote :: rest) =
            [letter] ++ (Spelling.text s ++ quote :: rest) := rfl
        rw [hCons, hSkip hChar, ih]
        simp [endsQuoted, StringUnit.text, hLetter]

/-- A quoted word at a string, with `pat` behind it. -/
theorem finds_mention (s : Spelling) {rest : Bytes} (hGap : ¬ key ++ quote :: pat <+: rest) :
    Finds (quoted key ++ pat) (quoted s.text) rest (mentions key s && pat.isPrefixOf rest) := by
  have hToken : quoted s.text ++ rest = quote :: (s.text ++ quote :: rest) := by simp [quoted]
  refine ⟨if mentions key s && pat.isPrefixOf rest then some (quoted key ++ rest) else none,
    by cases mentions key s && pat.isPrefixOf rest <;> rfl, ?_⟩
  rw [hToken]
  by_cases hFound : s.text = key ∧ pat <+: rest
  · have hMatch := (quoted_prefix_spelling_iff pat hPlain s rest).mpr hFound
    rw [findText_eq_self (by simp [quoted]) hMatch]
    simp [mentions, hFound.1, hFound.2, quoted]
  · have hMiss := mt (quoted_prefix_spelling_iff pat hPlain s rest).mp hFound
    have hSame : (mentions key s && pat.isPrefixOf rest) =
        (endsQuoted key s && pat.isPrefixOf rest) := by
      rw [Bool.eq_iff_iff]
      simp only [mentions, Bool.and_eq_true, Bool.or_eq_true, decide_eq_true_eq,
        List.isPrefixOf_iff_prefix]
      tauto
    rw [findText_cons_of_not hMiss, findText_spelling pat hPlain s hGap, hSame]
    split <;> simp

end Mentions

/-- A word that can only be found between the quotes of one string. -/
structure Word (key : Bytes) : Prop where
  plain : ∀ b ∈ key, isPlain b = true
  comma : comma ∉ key
  colon : colon ∉ key

/-- The text between two strings holds a comma or a colon, so a word is never
taken for it. -/
theorem Word.not_starts {key pat rest : Bytes} (h : Word key) (hRest : separated rest = true) :
    ¬ key ++ quote :: pat <+: rest := by
  rintro ⟨more, rfl⟩
  have hKey : key.find? (fun b => b = Lib.Json.comma || b = Lib.Json.colon || b = quote) =
      none := by
    rw [List.find?_eq_none]
    intro b hb hSep
    simp only [Bool.or_eq_true, decide_eq_true_eq] at hSep
    rcases hSep with (rfl | rfl) | rfl
    · exact h.comma hb
    · exact h.colon hb
    · exact quote_not_mem_of_plain h.plain hb
  unfold separated at hRest
  rw [List.append_assoc, List.find?_append, hKey] at hRest
  cases hRest

theorem quote_not_mem_scalar (s : Scalar) : quote ∉ s.text := fun h =>
  absurd (s.bytes _ h) (by decide)

theorem separated_name (afterName : Space) (rest : Bytes) :
    separated (afterName.text ++ colon :: rest) = true := (separated_space afterName _).trans rfl

/-- Searching for a quoted word. -/
theorem pattern_quoted {key : Bytes} (h : Word key) :
    Pattern quote (key ++ [quote]) (mentions key) (fun name _ _ _ => mentions key name) where
  space := quote_not_mem_space
  scalar := quote_not_mem_scalar
  mark := by decide
  string s rest hRest := by
    have := finds_mention [] h.plain s (h.not_starts hRest.1)
    simpa [quoted] using this
  member name afterName beforeValue value rest _ := by
    have := finds_mention [] h.plain name (h.not_starts (separated_name afterName
      (beforeValue.text ++ (value.text ++ rest))))
    simpa [quoted] using this

/-- A whole line. -/
theorem Pattern.hasText_line {k : BitVec 8} {sub : Bytes} {str : Spelling → Bool}
    {mem : Spelling → Space → Space → Doc → Bool} (p : Pattern k sub str mem) (lead trail : Space)
    (m : Members) : hasText (k :: sub) (lead.text ++ ((Doc.object m).text ++ trail.text)) =
      m.anyPart str mem := by
  have hTrail : Behind trail.text := by simpa using Behind.nil.space trail
  have hEnd : hasText (k :: sub) trail.text = false := by
    simpa [hasText, findText] using (p.finds_space trail []).hasText_eq
  have hDoc : Finds (k :: sub) (Doc.object m).text trail.text (m.anyPart str mem) :=
    p.finds_doc (.object m) hTrail
  rw [(p.finds_space lead _).hasText_eq, hDoc.hasText_eq, hEnd, Bool.false_or, Bool.or_false]

/-- **The test for a quoted word.** Some string of the object, a name or a value,
mentions it. -/
theorem hasText_quoted {key : Bytes} (h : Word key) (lead trail : Space) (m : Members) :
    hasText (quoted key) (lead.text ++ ((Doc.object m).text ++ trail.text)) =
      m.anyString (mentions key) :=
  ((pattern_quoted h).hasText_line lead trail m).trans (Members.anyPart_string _ m)

/-! ## Members in one piece -/

/-- The text of a value that no other value begins with. -/
structure Spelled (w : Bytes) : Prop where
  value : ∀ (v : Doc) rest, w <+: v.text ++ rest ↔ v.text = w
  space : ∀ c rest, isSpace c = true → ¬ w <+: c :: rest

theorem spelled_string {word : Bytes} (hPlain : ∀ b ∈ word, isPlain b = true) :
    Spelled (quoted word) where
  value v rest := by
    cases v with
    | string s =>
      have hText : quoted s.text ++ rest = quote :: (s.text ++ quote :: rest) := by simp [quoted]
      have hIff := quoted_prefix_spelling_iff [] hPlain s rest
      rw [List.append_nil] at hIff
      rw [Doc.text, hText, hIff]
      simp [quoted]
    | scalar s =>
      obtain ⟨c, more, hText⟩ := List.exists_cons_of_ne_nil s.text_ne_nil
      have hc : c ≠ quote := fun h => quote_not_mem_scalar s (by simp [hText, h])
      rw [Doc.text, hText]
      refine iff_of_false (not_prefix_quoted hc) fun h => hc ?_
      exact (List.cons.inj h).1
    | array items =>
      refine iff_of_false (not_prefix_quoted (by decide)) fun h => ?_
      exact absurd (List.cons.inj h).1 (by decide)
    | object members =>
      refine iff_of_false (not_prefix_quoted (by decide)) fun h => ?_
      exact absurd (List.cons.inj h).1 (by decide)
  space c rest hc := by
    refine not_prefix_quoted ?_
    rintro rfl
    exact absurd hc (by decide)

theorem spelled_true : Spelled (bytes "true") where
  value v rest := by
    have hHead {c : BitVec 8} {more : Bytes} (hText : v.text = c :: more) (hc : ch 't' ≠ c) :
        bytes "true" <+: v.text ++ rest ↔ v.text = bytes "true" := by
      rw [hText]
      exact iff_of_false (fun h => hc (List.cons_prefix_cons.mp h).1)
        fun h => hc (List.cons.inj h).1.symm
    cases v with
    | string s => exact hHead rfl (by decide)
    | array items => exact hHead rfl (by decide)
    | object members => exact hHead rfl (by decide)
    | scalar s =>
      cases s with
      | null => exact hHead rfl (by decide)
      | bool b =>
        cases b with
        | false => exact hHead rfl (by decide)
        | true => exact iff_of_true (List.prefix_append _ _) rfl
      | number n =>
        obtain ⟨c, more, hText⟩ := List.exists_cons_of_ne_nil n.text_ne_nil
        refine hHead hText ?_
        rintro rfl
        exact absurd (NumberText.text_head hText) (by decide)
  space c rest hc := by
    intro h
    rw [← (List.cons_prefix_cons.mp h).1] at hc
    exact absurd hc (by decide)

/-- The name mentions `key`, the value is spelled `w`, and there is no white
space between them. -/
def compactMember (key w : Bytes) (name : Spelling) (afterName beforeValue : Space) (value : Doc) :
    Bool :=
  mentions key name && afterName.text = [] && beforeValue.text = [] && value.text = w

/-- A colon and the value directly behind a name. -/
theorem pair_prefix_iff {w : Bytes} (hw : Spelled w) (afterName beforeValue : Space) (value : Doc)
    (rest : Bytes) :
    colon :: w <+: afterName.text ++ colon :: (beforeValue.text ++ (value.text ++ rest)) ↔
      afterName.text = [] ∧ beforeValue.text = [] ∧ value.text = w := by
  cases hAfter : afterName.text with
  | cons c more =>
    have hc : isSpace c = true := List.all_eq_true.mp afterName.valid c (by simp [hAfter])
    refine iff_of_false (fun h => ?_) (by simp)
    rw [← (List.cons_prefix_cons.mp h).1] at hc
    exact absurd hc (by decide)
  | nil =>
    rw [List.nil_append, List.cons_prefix_cons]
    cases hBefore : beforeValue.text with
    | cons c more =>
      have hc : isSpace c = true := List.all_eq_true.mp beforeValue.valid c (by simp [hBefore])
      exact iff_of_false (fun h => hw.space c _ hc h.2) (by simp)
    | nil =>
      rw [List.nil_append, hw.value]
      simp

/-- Searching for a name with its value. -/
theorem pattern_pair {key w : Bytes} (h : Word key) (hw : Spelled w) :
    Pattern quote (key ++ quote :: colon :: w) (fun _ => false) (compactMember key w) where
  space := quote_not_mem_space
  scalar := quote_not_mem_scalar
  mark := by decide
  string s rest hRest := by
    have hFinds := finds_mention (colon :: w) h.plain s (h.not_starts hRest.1)
    have hMiss : (colon :: w).isPrefixOf rest = false := by
      rw [Bool.eq_false_iff, ne_eq, List.isPrefixOf_iff_prefix]
      rintro ⟨more, rfl⟩
      exact hRest.2 rfl
    rw [hMiss, Bool.and_false] at hFinds
    simpa [quoted] using hFinds
  member name afterName beforeValue value rest _ := by
    have hFinds := finds_mention (colon :: w) h.plain name (h.not_starts (separated_name
      afterName (beforeValue.text ++ (value.text ++ rest))))
    have hSame : (mentions key name && (colon :: w).isPrefixOf (afterName.text ++ colon ::
        (beforeValue.text ++ (value.text ++ rest)))) =
          compactMember key w name afterName beforeValue value := by
      rw [Bool.eq_iff_iff, Bool.and_eq_true, List.isPrefixOf_iff_prefix,
        pair_prefix_iff hw afterName beforeValue value rest]
      simp [compactMember, and_assoc]
    rw [hSame] at hFinds
    simpa [quoted] using hFinds

/-- Some member of the object, at any depth, is compact. -/
def anyCompact (key w : Bytes) (m : Members) : Bool :=
  m.anyPart (fun _ => false) (compactMember key w)

/-- **The test for a name with its value.** -/
theorem hasText_pair {key w : Bytes} (h : Word key) (hw : Spelled w) (lead trail : Space)
    (m : Members) :
    hasText (quoted key ++ colon :: w) (lead.text ++ ((Doc.object m).text ++ trail.text)) =
      anyCompact key w m := by
  have hText : quoted key ++ colon :: w = quote :: (key ++ quote :: colon :: w) := by simp [quoted]
  rw [hText]
  exact (pattern_pair h hw).hasText_line lead trail m

/-! ## Words of letters -/

theorem prefix_before_quote {sub a : Bytes} (rest : Bytes) (hQuote : quote ∉ sub) :
    sub <+: a ++ quote :: rest ↔ sub <+: a := by
  induction a generalizing sub with
  | nil =>
    cases sub with
    | nil => simp
    | cons c sub =>
      have hc : c ≠ quote := fun h => hQuote (h ▸ List.mem_cons_self)
      simp [List.cons_prefix_cons, hc]
  | cons b a ih =>
    cases sub with
    | nil => simp
    | cons c sub =>
      rw [List.cons_append, List.cons_prefix_cons, List.cons_prefix_cons,
        ih fun h => hQuote (List.mem_cons_of_mem _ h)]

/-- A text without quotes occurs in front of a quote or behind it. -/
theorem Finds.beforeQuote {sub : Bytes} (hSub : sub ≠ []) (hQuote : quote ∉ sub) (a rest : Bytes) :
    Finds sub a (quote :: rest) (hasText sub a) := by
  induction a with
  | nil =>
    refine ⟨none, ?_, rfl⟩
    simp [hasText, findText, hSub]
  | cons c a ih =>
    by_cases hMatch : sub <+: c :: a
    · have hLong := (prefix_before_quote rest hQuote).mpr hMatch
      refine ⟨some (c :: a ++ quote :: rest), ?_, ?_⟩
      · rw [hasText, findText_eq_self hSub hMatch]
        rfl
      · rw [findText_eq_self hSub hLong]
        rfl
    · have hLong := mt (prefix_before_quote rest hQuote).mp hMatch
      obtain ⟨r, hr, hFind⟩ := ih
      refine ⟨r, ?_, ?_⟩
      · rw [hr, hasText, hasText, findText_cons_of_not hMatch]
      · rw [← hFind]
        exact findText_cons_of_not hLong

/-- A word that begins with a letter no scalar holds, and without quotes, occurs
inside one string. -/
theorem pattern_word (k : BitVec 8) (sub : Bytes) (hSpace : isSpace k = false)
    (hMark : k ∉ [comma, colon, openBrace, closeBrace, openBracket, closeBracket])
    (hScalar : ∀ s : Scalar, k ∉ s.text) (hQuote : quote ∉ k :: sub) :
    Pattern k sub (fun s => hasText (k :: sub) s.text)
      (fun name _ _ _ => hasText (k :: sub) name.text) := by
  have hString (s : Spelling) (rest : Bytes) :
      Finds (k :: sub) (quoted s.text) rest (hasText (k :: sub) s.text) := by
    have hSkip (rest : Bytes) : Finds (k :: sub) [quote] rest false :=
      Finds.skip (fun h => hQuote (by simp [List.mem_singleton.mp h])) rest
    have hInner := (Finds.beforeQuote (by simp) hQuote s.text rest).append (hSkip rest)
    rw [Bool.or_false] at hInner
    exact (hSkip _).append hInner
  refine ⟨fun w hMem => ?_, hScalar, hMark, fun s rest _ => hString s rest,
    fun name _ _ _ rest _ => hString name _⟩
  rw [List.all_eq_true.mp w.valid k hMem] at hSpace
  cases hSpace

/-- No number holds a letter other than `e`. -/
theorem not_mem_scalar {k : BitVec 8} (hStep : ∀ s : NumberState, s.step k = none)
    (hLiterals : k ∉ bytes "null" ++ bytes "true" ++ bytes "false") (s : Scalar) : k ∉ s.text := by
  intro hMem
  cases s with
  | null => exact hLiterals (by simp [Scalar.text] at hMem; simp [hMem])
  | bool b => cases b <;> exact hLiterals (by simp [Scalar.text] at hMem; simp [hMem])
  | number n =>
    obtain ⟨s, hRun, -⟩ := n.run
    obtain ⟨s₁, s₂, h⟩ := NumberState.foldlM_bytes hRun k hMem
    rw [hStep s₁] at h
    cases h

/-- **The test for `KEEPALIVED`.** -/
theorem hasText_keepalived (lead trail : Space) (m : Members) :
    hasText (bytes "KEEPALIVED") (lead.text ++ ((Doc.object m).text ++ trail.text)) =
      m.anyString fun s => hasText (bytes "KEEPALIVED") s.text := by
  have hStep (s : NumberState) : s.step (ch 'K') = none := by cases s <;> decide
  have hPattern := pattern_word (ch 'K') (bytes "EEPALIVED") (by decide) (by decide)
    (not_mem_scalar hStep (by decide)) (by decide)
  exact (hPattern.hasText_line lead trail m).trans (Members.anyPart_string _ m)

/-! ## Accepted shares -/

/-- A member that marks an accepted share, anywhere and in one piece. -/
def compactOk (m : Members) : Bool :=
  anyCompact (bytes "result") (bytes "true") m ||
    anyCompact (bytes "result") (quoted (bytes "true")) m ||
    anyCompact (bytes "status") (quoted (bytes "OK")) m

theorem shareOk_eq (lead trail : Space) (m : Members) :
    StratumClient.shareOk (lead.text ++ ((Doc.object m).text ++ trail.text)) = compactOk m := by
  have hResult : Word (bytes "result") := ⟨by decide, by decide, by decide⟩
  have hStatus : Word (bytes "status") := ⟨by decide, by decide, by decide⟩
  have hTrue := hasText_pair hResult spelled_true lead trail m
  have hString := hasText_pair hResult (spelled_string (by decide : ∀ b ∈ bytes "true", _)) lead
    trail m
  have hOk := hasText_pair hStatus (spelled_string (by decide : ∀ b ∈ bytes "OK", _)) lead trail m
  rw [compactOk, ← hTrue, ← hString, ← hOk]
  rfl

end ArmRx.Pool
