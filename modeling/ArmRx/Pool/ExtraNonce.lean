import ArmRx.Pool.Extract
import ArmRx.Pool.TextTests

/-!
# The extra nonce of a subscription

The reply to `mining.subscribe` has an array as its result, whose first element
is an array and whose second is the extra nonce. `handle_reply` finds it by
looking for the word `"result"`, an opening bracket, another one, a closing one, a
comma and a quote, in this order and without regard to what they belong to.

* `extraNonceIn_eq` — from which layouts that reads the second element.
-/

namespace ArmRx.Pool

open ArmRx.Lib.Json

/-- The second element of an array, if it is a string. -/
def secondOf : Option Doc → Bytes
  | some (.array (.cons _ _ _ (.cons _ (.string s) _ _))) => s.text
  | _ => []

/-- The byte does not occur. -/
def lacks (c : BitVec 8) (text : Bytes) : Bool := text.all (· ≠ c)

theorem lacks_iff {c : BitVec 8} {text : Bytes} : lacks c text = true ↔ c ∉ text := by
  rw [lacks, List.all_eq_true]
  constructor
  · intro h hMem
    simpa using h c hMem
  · intro h b hb
    exact decide_eq_true fun hc => h (hc ▸ hb)

/-- A string that can be read up to the next quote, or no string. -/
def quoteFree : Doc → Bool
  | .string s => lacks quote s.text
  | _ => true

/-- The search behind the name `result` ends at the second element of `value`, or
nowhere if there is no such string. `behind` is the text behind the value. -/
def nonceAt (behind : Bytes) : Doc → Bool
  | .array (.cons _ (.array inner) _ (.cons before second _ _)) =>
    lacks closeBracket inner.text && before.text.all (· = 0x20#8) && quoteFree second
  | .array (.cons _ (.array inner) _ (.nil _)) =>
    lacks closeBracket inner.text && lacks comma behind
  | .array items =>
    lacks openBracket (items.text ++ behind) && lacks closeBracket items.text &&
      lacks comma behind && (secondOf (some (.array items))).isEmpty
  | v => lacks openBracket (v.text ++ behind)

/-- The word `result` is first met as the name of the member. -/
def nonceReadable : Members → Bytes → Bool
  | .nil _, _ => true
  | .cons _ name _ _ value after more, rest =>
    if name.decode = bytes "result" then
      name.text = bytes "result" && nonceAt (after.text ++ (more.tailText ++ rest)) value
    else
      !mentions (bytes "result") name && !value.anyString (mentions (bytes "result")) &&
        nonceReadable more rest

/-! ## Skipping to a character -/

theorem dropWhile_ne {c : BitVec 8} {a : Bytes} (ha : c ∉ a) (rest : Bytes) :
    (a ++ rest).dropWhile (· ≠ c) = rest.dropWhile (· ≠ c) :=
  List.dropWhile_append_of_pos fun _ hb => decide_eq_true fun h => ha (h ▸ hb)

theorem dropWhile_ne_cons (c : BitVec 8) (rest : Bytes) :
    (c :: rest).dropWhile (· ≠ c) = c :: rest := List.dropWhile_cons_of_neg (by simp)

theorem dropWhile_ne_nil {c : BitVec 8} {a : Bytes} (ha : c ∉ a) : a.dropWhile (· ≠ c) = [] := by
  have := dropWhile_ne ha []
  rwa [List.append_nil] at this

theorem not_mem_space {c : BitVec 8} (hc : isSpace c = false) (w : Space) : c ∉ w.text := by
  intro hMem
  rw [List.all_eq_true.mp w.valid c hMem] at hc
  cases hc

theorem extraNonceFrom_none {text : Bytes} (h : openBracket ∉ text) :
    StratumClient.extraNonceFrom text = [] := by
  rw [StratumClient.extraNonceFrom, dropWhile_ne_nil h]

/-- An array in front of everything else in the outer one. -/
theorem extraNonceFrom_nested {front lead inner behind : Bytes} (hFront : openBracket ∉ front)
    (hLead : openBracket ∉ lead) (hInner : closeBracket ∉ inner) :
    StratumClient.extraNonceFrom
        (front ++ openBracket :: (lead ++ openBracket :: (inner ++ closeBracket :: behind))) =
      StratumClient.extraNonceBehind behind := by
  have hOuter : (front ++ openBracket :: (lead ++ openBracket ::
      (inner ++ closeBracket :: behind))).dropWhile (· ≠ openBracket) =
        openBracket :: (lead ++ openBracket :: (inner ++ closeBracket :: behind)) := by
    rw [dropWhile_ne hFront, dropWhile_ne_cons]
  have hStart : (lead ++ openBracket :: (inner ++ closeBracket :: behind)).dropWhile
      (· ≠ openBracket) = openBracket :: (inner ++ closeBracket :: behind) := by
    rw [dropWhile_ne hLead, dropWhile_ne_cons]
  have hClose : (openBracket :: (inner ++ closeBracket :: behind)).dropWhile (· ≠ closeBracket) =
      closeBracket :: behind := by
    rw [List.dropWhile_cons_of_pos (by decide), dropWhile_ne hInner, dropWhile_ne_cons]
  rw [StratumClient.extraNonceFrom, hOuter]
  simp only [hStart, List.isEmpty_cons, Bool.false_eq_true, if_false, hClose]
  rw [StratumClient.extraNonceBehind, List.dropWhile_cons_of_pos (by decide)]
  rfl

/-- No other array behind the outer bracket. -/
theorem extraNonceFrom_flat {front items behind : Bytes} (hFront : openBracket ∉ front)
    (hItems : closeBracket ∉ items) (hOpen : openBracket ∉ items ++ behind) :
    StratumClient.extraNonceFrom (front ++ openBracket :: (items ++ closeBracket :: behind)) =
      StratumClient.extraNonceBehind behind := by
  have hOuter : (front ++ openBracket :: (items ++ closeBracket :: behind)).dropWhile
      (· ≠ openBracket) = openBracket :: (items ++ closeBracket :: behind) := by
    rw [dropWhile_ne hFront, dropWhile_ne_cons]
  have hInner : (items ++ closeBracket :: behind).dropWhile (· ≠ openBracket) = [] := by
    refine dropWhile_ne_nil ?_
    simp only [List.mem_append, List.mem_cons, not_or] at hOpen ⊢
    exact ⟨hOpen.1, by decide, hOpen.2⟩
  have hClose : (openBracket :: (items ++ closeBracket :: behind)).dropWhile (· ≠ closeBracket) =
      closeBracket :: behind := by
    rw [List.dropWhile_cons_of_pos (by decide), dropWhile_ne hItems, dropWhile_ne_cons]
  rw [StratumClient.extraNonceFrom, hOuter]
  simp only [hInner, List.isEmpty_nil, if_true, hClose]
  rw [StratumClient.extraNonceBehind, List.dropWhile_cons_of_pos (by decide)]
  rfl

theorem extraNonceBehind_none {text : Bytes} (h : comma ∉ text) :
    StratumClient.extraNonceBehind text = [] := by
  rw [StratumClient.extraNonceBehind, dropWhile_ne_nil h]

/-- The value behind a comma and spaces. -/
theorem extraNonceBehind_value {gap before : Bytes} (hGap : comma ∉ gap)
    (hBefore : before.all (· = 0x20#8) = true) (second : Doc) (hSecond : quoteFree second = true)
    (rest : Bytes) :
    StratumClient.extraNonceBehind (gap ++ comma :: (before ++ (second.text ++ rest))) =
      match second with
      | .string s => s.text
      | _ => [] := by
  obtain ⟨c, more, hText, hSpace, -⟩ := second.text_head
  have hc : c ≠ 0x20#8 := by
    rintro rfl
    cases hSpace
  have hDrop : (before ++ (second.text ++ rest)).dropWhile (· = 0x20#8) = c :: (more ++ rest) := by
    rw [List.dropWhile_append_of_pos (List.all_eq_true.mp hBefore), hText, List.cons_append,
      List.dropWhile_cons_of_neg (by simpa using hc)]
  rw [StratumClient.extraNonceBehind, dropWhile_ne hGap, dropWhile_ne_cons]
  simp only [hDrop]
  cases second with
  | string s =>
    -- the copy stops at the first quote, escaped or not
    obtain ⟨rfl, rfl⟩ := List.cons.inj hText
    have hAll : ∀ b ∈ s.text, decide (b ≠ quote) = true := fun b hb =>
      decide_eq_true fun h => lacks_iff.mp hSecond (h ▸ hb)
    rw [if_pos rfl, List.append_assoc, List.takeWhile_append_of_pos hAll, List.singleton_append,
      List.takeWhile_cons_of_neg (by simp), List.append_nil]
  | scalar s =>
    refine if_neg ?_
    rintro rfl
    exact quote_not_mem_scalar s (by rw [← Doc.text, hText]; exact List.mem_cons_self)
  | array items => exact if_neg fun h => absurd ((List.cons.inj hText).1.trans h) (by decide)
  | object members => exact if_neg fun h => absurd ((List.cons.inj hText).1.trans h) (by decide)

/-! ## The value of the result -/

/-- From the name on, the search ends at the second element. -/
theorem extraNonceFrom_value {front : Bytes} (hFront : openBracket ∉ front) (value : Doc)
    {behind : Bytes} (h : nonceAt behind value = true) :
    StratumClient.extraNonceFrom (front ++ (value.text ++ behind)) = secondOf (some value) := by
  have hOther {value : Doc} (h : lacks openBracket (value.text ++ behind) = true) :
      StratumClient.extraNonceFrom (front ++ (value.text ++ behind)) = [] := by
    refine extraNonceFrom_none ?_
    rw [List.mem_append, not_or]
    exact ⟨hFront, lacks_iff.mp h⟩
  -- an array whose first element is none
  have hFlat {items : Items} (h : (lacks openBracket (items.text ++ behind) &&
      lacks closeBracket items.text && lacks comma behind &&
      (secondOf (some (.array items))).isEmpty) = true) :
      StratumClient.extraNonceFrom (front ++ ((Doc.array items).text ++ behind)) =
        secondOf (some (.array items)) := by
    simp only [Bool.and_eq_true, List.isEmpty_iff] at h
    obtain ⟨⟨⟨hOpen, hClose⟩, hComma⟩, hSecond⟩ := h
    have hText : (Doc.array items).text ++ behind =
        openBracket :: (items.text ++ closeBracket :: behind) := by simp [Doc.text]
    rw [hText, extraNonceFrom_flat hFront (lacks_iff.mp hClose) (lacks_iff.mp hOpen),
      extraNonceBehind_none (lacks_iff.mp hComma), hSecond]
  cases value with
  | scalar s => exact hOther h
  | string s => exact hOther h
  | object members => exact hOther h
  | array items =>
    cases items with
    | nil inner => exact hFlat h
    | cons lead first after more =>
      cases first with
      | scalar s => exact hFlat h
      | string s => exact hFlat h
      | object members => exact hFlat h
      | array inner =>
        have hLead := not_mem_space (c := openBracket) (by decide) lead
        have hAfter := not_mem_space (c := comma) (by decide) after
        cases more with
        | nil last =>
          simp only [nonceAt, Bool.and_eq_true] at h
          have hText : (Doc.array (.cons lead (.array inner) after (.nil last))).text ++ behind =
              openBracket :: (lead.text ++ openBracket :: (inner.text ++ closeBracket ::
                (after.text ++ (last.text ++ closeBracket :: behind)))) := by
            simp [Doc.text, Items.text, Items.tailText]
          rw [hText, extraNonceFrom_nested hFront hLead (lacks_iff.mp h.1), extraNonceBehind_none]
          · rfl
          · simp only [List.mem_append, List.mem_cons, not_or]
            exact ⟨hAfter, not_mem_space (by decide) last, by decide, lacks_iff.mp h.2⟩
        | cons before second after' more' =>
          simp only [nonceAt, Bool.and_eq_true] at h
          obtain ⟨⟨hInner, hBefore⟩, hSecond⟩ := h
          have hText : (Doc.array (.cons lead (.array inner) after
              (.cons before second after' more'))).text ++ behind =
              openBracket :: (lead.text ++ openBracket :: (inner.text ++ closeBracket ::
                (after.text ++ comma :: (before.text ++ (second.text ++
                  (after'.text ++ (more'.tailText ++ closeBracket :: behind))))))) := by
            simp [Doc.text, Items.text, Items.tailText]
          rw [hText, extraNonceFrom_nested hFront hLead (lacks_iff.mp hInner),
            extraNonceBehind_value hAfter hBefore second hSecond]
          cases second <;> rfl

/-! ## The line -/

theorem word_result : Word (bytes "result") := ⟨by decide, by decide, by decide⟩

/-- The word `result` in the text of the members. -/
theorem findText_result {rest : Bytes} (hRest : Behind rest) (hQuote : quote ∉ rest) :
    (m : Members) → nonceReadable m (closeBrace :: rest) = true →
    (m.lookup (bytes "result") = none ∧
      findText (quoted (bytes "result")) (m.text ++ closeBrace :: rest) = none) ∨
    ∃ front value behind, m.lookup (bytes "result") = some value ∧ nonceAt behind value = true ∧
      openBracket ∉ front ∧
      findText (quoted (bytes "result")) (m.text ++ closeBrace :: rest) =
        some (front ++ (value.text ++ behind))
  | .nil inner, _ => by
    refine .inl ⟨rfl, ?_⟩
    have hEnd : quote ∉ inner.text ++ closeBrace :: rest := quote_not_mem_close hQuote inner
    have hSkip : Finds (quoted (bytes "result")) (inner.text ++ closeBrace :: rest) [] false :=
      Finds.skip hEnd []
    have hNone := hSkip.findText_eq
    rw [List.append_nil] at hNone
    exact hNone
  | .cons lead name afterName beforeValue value after more, h => by
    have p := pattern_quoted word_result
    have hBehind : Behind (after.text ++ (more.tailText ++ closeBrace :: rest)) :=
      ((hRest.close (.inr rfl)).members more).space after
    have hText : (Members.cons lead name afterName beforeValue value after more).text ++
        closeBrace :: rest = lead.text ++ (quoted name.text ++ (afterName.text ++ colon ::
          (beforeValue.text ++ (value.text ++ (after.text ++
            (more.tailText ++ closeBrace :: rest)))))) := by
      simp [Members.text]
    have hLead := (p.finds_space lead (quoted name.text ++ (afterName.text ++ colon ::
      (beforeValue.text ++ (value.text ++ (after.text ++
        (more.tailText ++ closeBrace :: rest))))))).findText_eq
    rw [hText, Members.lookup]
    rw [nonceReadable] at h
    split at h
    · rename_i hName
      rw [Bool.and_eq_true, decide_eq_true_eq] at h
      obtain ⟨hSpelled, hNonce⟩ := h
      refine .inr ⟨quoted (bytes "result") ++ (afterName.text ++ colon :: beforeValue.text), value, _,
        if_pos hName, hNonce, ?_, ?_⟩
      · simp only [List.mem_append, List.mem_cons, not_or]
        exact ⟨by decide, not_mem_space (by decide) _, by decide, not_mem_space (by decide) _⟩
      · refine hLead.trans ?_
        rw [hSpelled]
        refine (findText_eq_self (by decide)
          (List.prefix_append (quoted (bytes "result")) _)).trans ?_
        simp
    · rename_i hName
      simp only [Bool.and_eq_true, Bool.not_eq_true'] at h
      obtain ⟨⟨hMiss, hStrings⟩, hMore⟩ := h
      have hNameMiss := (p.member name afterName beforeValue value _ hBehind)
      have hValueMiss := p.finds_doc value hBehind
      rw [hMiss] at hNameMiss
      rw [Doc.anyPart_string, hStrings] at hValueMiss
      -- nothing is found up to the next member
      have hSame : findText (quoted (bytes "result")) (more.tailText ++ closeBrace :: rest) =
          findText (quoted (bytes "result")) (more.text ++ closeBrace :: rest) := by
        cases more with
        | nil => rfl
        | cons => exact (p.finds_mark (c := comma) (by simp) _).findText_eq
      have hPass : findText (quoted (bytes "result")) (lead.text ++ (quoted name.text ++
          (afterName.text ++ colon :: (beforeValue.text ++ (value.text ++ (after.text ++
            (more.tailText ++ closeBrace :: rest))))))) =
              findText (quoted (bytes "result")) (more.text ++ closeBrace :: rest) :=
        calc _ = _ := hLead
          _ = _ := hNameMiss.findText_eq
          _ = _ := (p.finds_space afterName _).findText_eq
          _ = _ := (p.finds_mark (c := colon) (by simp) _).findText_eq
          _ = _ := (p.finds_space beforeValue _).findText_eq
          _ = _ := hValueMiss.findText_eq
          _ = _ := (p.finds_space after _).findText_eq
          _ = _ := hSame
      rw [if_neg hName, hPass]
      exact findText_result hRest hQuote more hMore

/-- **The extra nonce.** The reply's second element is read from every line with
a readable result. -/
theorem extraNonceIn_eq (lead trail : Space) (m : Members)
    (h : nonceReadable m (closeBrace :: trail.text) = true) :
    StratumClient.extraNonceIn (lead.text ++ ((Doc.object m).text ++ trail.text)) =
      secondOf (m.lookup (bytes "result")) := by
  have p := pattern_quoted word_result
  have hTrail : Behind trail.text := by simpa using Behind.nil.space trail
  have hText : lead.text ++ ((Doc.object m).text ++ trail.text) =
      lead.text ++ openBrace :: (m.text ++ closeBrace :: trail.text) := by simp [Doc.text]
  have hStart :
      findText (quoted (bytes "result")) (lead.text ++ ((Doc.object m).text ++ trail.text)) =
      findText (quoted (bytes "result")) (m.text ++ closeBrace :: trail.text) := by
    rw [hText]
    exact ((p.finds_space lead _).findText_eq).trans
      (p.finds_mark (c := openBrace) (by simp) _).findText_eq
  have hWord : bytes "\"result\"" = quoted (bytes "result") := rfl
  rw [StratumClient.extraNonceIn, hWord, hStart]
  obtain ⟨hLookup, hNone⟩ | ⟨front, value, behind, hLookup, hNonce, hFront, hFound⟩ :=
    findText_result hTrail (quote_not_mem_space trail) m h
  · rw [hNone, hLookup]
    rfl
  · rw [hFound, hLookup]
    exact extraNonceFrom_value hFront value hNonce

end ArmRx.Pool
