import ArmRx.Pool.FindKey

/-!
# Extraction of objects and arrays

`get_object` counts the brackets of one kind only and flips its string state at
every quote in front of which an even number of backslashes stands. On a
well-formed value this finds the bracket that closes it: outside the value's
strings the brackets of each kind are balanced, and no backslash occurs there.

* `passes_doc` — the scan passes every value and is back where it was.
* `getObject_value` — `get_object` returns the value it stands in front of.
-/

namespace ArmRx.Pool

open ArmRx.Lib.Json

/-- One of the two kinds of brackets. -/
inductive Brackets : BitVec 8 → BitVec 8 → Prop
  | brace : Brackets openBrace closeBrace
  | bracket : Brackets openBracket closeBracket

variable {opening closing : BitVec 8}

/-! ## Passing a text -/

/-- At every depth the scan takes the text and is outside strings behind it, at
the depth it had. -/
def Passes (opening closing : BitVec 8) (text : Bytes) : Prop :=
  ∀ depth rest, objectText opening closing (depth + 1) false false (text ++ rest) =
    text ++ objectText opening closing (depth + 1) false false rest

theorem Passes.nil : Passes opening closing [] := fun _ _ => rfl

theorem Passes.append {a b : Bytes} (ha : Passes opening closing a)
    (hb : Passes opening closing b) : Passes opening closing (a ++ b) := by
  intro depth rest
  rw [List.append_assoc, ha, hb, List.append_assoc]

theorem Passes.cons {c : BitVec 8} {text : Bytes} (hc : Passes opening closing [c])
    (h : Passes opening closing text) : Passes opening closing (c :: text) := hc.append h

/-- A byte the scan takes no notice of. -/
def isNeutral (c : BitVec 8) : Bool :=
  c ≠ quote && c ≠ backslash && c ≠ openBrace && c ≠ closeBrace && c ≠ openBracket &&
    c ≠ closeBracket

theorem Passes.neutral (h : Brackets opening closing) {text : Bytes}
    (hText : ∀ c ∈ text, isNeutral c = true) : Passes opening closing text := by
  induction text with
  | nil => exact .nil
  | cons c text ih =>
    refine .cons (fun depth rest => ?_) (ih fun b hb => hText b (List.mem_cons_of_mem _ hb))
    have hc := hText c List.mem_cons_self
    simp only [isNeutral, Bool.and_eq_true, decide_eq_true_eq] at hc
    rw [List.singleton_append, objectText]
    cases h <;> simp [hc]

/-- A bracket of the kind that is not counted. -/
theorem Passes.other {c : BitVec 8}
    (hc : c = openBrace ∨ c = closeBrace ∨ c = openBracket ∨ c = closeBracket)
    (hOpening : c ≠ opening) (hClosing : c ≠ closing) : Passes opening closing [c] := by
  intro depth rest
  have hPlain : c ≠ quote ∧ c ≠ backslash := by
    rcases hc with rfl | rfl | rfl | rfl <;> decide
  rw [List.singleton_append, objectText]
  simp [hPlain, hOpening, hClosing]

theorem objectText_opening (h : Brackets opening closing) (depth : Nat) (rest : Bytes) :
    objectText opening closing (depth + 1) false false (opening :: rest) =
      opening :: objectText opening closing (depth + 2) false false rest := by
  rw [objectText]
  cases h <;> rfl

theorem objectText_closing (h : Brackets opening closing) (depth : Nat) (rest : Bytes) :
    objectText opening closing (depth + 1) false false (closing :: rest) =
      closing :: objectText opening closing depth false false rest := by
  rw [objectText]
  cases h <;> rfl

/-- Brackets of either kind around a text that is passed. -/
theorem Passes.enclosed (h : Brackets opening closing) {o c : BitVec 8} (h' : Brackets o c)
    {text : Bytes} (hText : Passes opening closing text) :
    Passes opening closing (o :: (text ++ [c])) := by
  by_cases hSame : o = opening
  · -- the counted kind: one level deeper and back
    obtain rfl : c = closing := by
      cases h <;> cases h' <;> first | rfl | exact absurd hSame (by decide)
    subst hSame
    intro depth rest
    rw [List.cons_append, objectText_opening h, List.append_assoc, hText, List.singleton_append,
      objectText_closing h]
    simp
  · refine .cons (.other ?_ hSame ?_) (hText.append (.other ?_ ?_ ?_)) <;>
      cases h <;> cases h' <;> first | decide | exact absurd rfl hSame

/-! ## Strings -/

/-- Inside a string the scan takes the byte and stays there. -/
theorem objectText_inString {c : BitVec 8} {escaped : Bool}
    (h : ¬ (c = quote ∧ escaped = false)) (depth : Nat) (rest : Bytes) :
    objectText opening closing (depth + 1) true escaped (c :: rest) =
      c :: objectText opening closing (depth + 1) true (c = backslash && !escaped) rest := by
  rw [objectText]
  cases escaped
  · have hc : c ≠ quote := fun hc => h ⟨hc, rfl⟩
    simp [hc]
  · simp

/-- A character of a string, however it is spelled, leaves an even number of
backslashes behind. -/
theorem objectText_unit (u : StringUnit) (depth : Nat) (rest : Bytes) :
    objectText opening closing (depth + 1) true false (u.text ++ rest) =
      u.text ++ objectText opening closing (depth + 1) true false rest := by
  have hHex {b : BitVec 8} (hb : (hexValue b).isSome = true) : b ≠ quote ∧ b ≠ backslash :=
    (isPlain_iff.mp (isPlain_of_hexValue b hb)).2
  cases u with
  | byte b valid =>
    have hb : b ≠ quote ∧ b ≠ backslash := (isPlain_iff.mp valid).2
    rw [StringUnit.text, List.singleton_append, objectText_inString (by simp [hb])]
    simp [hb]
  | short letter code valid =>
    rw [StringUnit.text, List.cons_append, objectText_inString (by decide), List.singleton_append,
      objectText_inString (by simp)]
    simp
  | unicode a b c d valid =>
    obtain ⟨ha, hb, hc, hd⟩ := valid
    simp only [StringUnit.text, List.cons_append, List.nil_append]
    rw [objectText_inString (by decide), objectText_inString (by decide),
      objectText_inString (by simp [hHex ha]), objectText_inString (by simp [hHex hb]),
      objectText_inString (by simp [hHex hc]), objectText_inString (by simp [hHex hd])]
    simp [hHex hd]

theorem objectText_spelling (s : Spelling) (depth : Nat) (rest : Bytes) :
    objectText opening closing (depth + 1) true false (s.text ++ rest) =
      s.text ++ objectText opening closing (depth + 1) true false rest := by
  induction s with
  | nil => rfl
  | cons u s ih =>
    rw [Spelling.text, List.flatMap_cons, List.append_assoc, objectText_unit]
    exact (congrArg _ ih).trans (List.append_assoc _ _ _).symm

theorem Passes.string (s : Spelling) : Passes opening closing (quoted s.text) := by
  intro depth rest
  have hQuote (inString : Bool) (rest : Bytes) :
      objectText opening closing (depth + 1) inString false (quote :: rest) =
        quote :: objectText opening closing (depth + 1) (!inString) false rest := by
    rw [objectText]
    simp [show quote ≠ backslash by decide]
  rw [quoted, List.cons_append, hQuote, List.append_assoc, Bool.not_false, objectText_spelling,
    List.singleton_append, hQuote]
  simp

/-! ## Values -/

theorem Passes.space (h : Brackets opening closing) (w : Space) :
    Passes opening closing w.text := by
  have hSpace : ∀ b : BitVec 8, isSpace b = true → isNeutral b = true :=
    forall_isSpace (by decide) (by decide) (by decide) (by decide)
  exact .neutral h fun b hb => hSpace b (List.all_eq_true.mp w.valid b hb)

theorem Passes.scalar (h : Brackets opening closing) (s : Scalar) :
    Passes opening closing s.text := by
  refine .neutral h fun b hb => ?_
  have hToken := s.tokenBytes b hb
  have hBackslash : b ≠ backslash := by
    rintro rfl
    exact s.backslash_not_mem hb
  simp [isNeutral, hBackslash, hToken.notQuote, hToken.notOpenBrace, hToken.notCloseBrace,
    hToken.notOpenBracket, hToken.notCloseBracket]

theorem Passes.punctuation (h : Brackets opening closing) {c : BitVec 8}
    (hc : c = comma ∨ c = colon) : Passes opening closing [c] := by
  refine .neutral h ?_
  rcases hc with rfl | rfl <;> decide

mutual

theorem passes_doc (h : Brackets opening closing) : (v : Doc) → Passes opening closing v.text
  | .scalar s => .scalar h s
  | .string s => .string s
  | .array items => .enclosed h .bracket (passes_items h items)
  | .object members => .enclosed h .brace (passes_members h members)

theorem passes_items (h : Brackets opening closing) :
    (items : Items) → Passes opening closing items.text
  | .nil inner => .space h inner
  | .cons before value after rest =>
    (Passes.space h before).append
      ((passes_doc h value).append ((Passes.space h after).append (passes_itemsTail h rest)))

theorem passes_itemsTail (h : Brackets opening closing) :
    (items : Items) → Passes opening closing items.tailText
  | .nil inner => .space h inner
  | .cons before value after rest =>
    .cons (.punctuation h (.inl rfl)) ((Passes.space h before).append
      ((passes_doc h value).append ((Passes.space h after).append (passes_itemsTail h rest))))

theorem passes_members (h : Brackets opening closing) :
    (members : Members) → Passes opening closing members.text
  | .nil inner => .space h inner
  | .cons before name afterName beforeValue value after rest =>
    (Passes.space h before).append ((Passes.string name).append
      ((Passes.space h afterName).append (.cons (.punctuation h (.inr rfl))
        ((Passes.space h beforeValue).append ((passes_doc h value).append
          ((Passes.space h after).append (passes_membersTail h rest)))))))

theorem passes_membersTail (h : Brackets opening closing) :
    (members : Members) → Passes opening closing members.tailText
  | .nil inner => .space h inner
  | .cons before name afterName beforeValue value after rest =>
    .cons (.punctuation h (.inl rfl)) ((Passes.space h before).append ((Passes.string name).append
      ((Passes.space h afterName).append (.cons (.punctuation h (.inr rfl))
        ((Passes.space h beforeValue).append ((passes_doc h value).append
          ((Passes.space h after).append (passes_membersTail h rest))))))))

end

/-! ## get_object -/

/-- The values `get_object` can return. -/
def isContainer : Doc → Bool
  | .array _ | .object _ => true
  | _ => false

/-- A text whose first member is `key`, with the value and everything behind it. -/
def firstMember (key : Bytes) (beforeValue : Space) (value : Bytes) : Bytes :=
  openBrace :: (quoted key ++ colon :: (beforeValue.text ++ value))

/-- The first member of an object is found whatever its name is: the extractors
go on at its value. -/
theorem findKey_first (key : Bytes) (beforeValue : Space) {c : BitVec 8}
    (hc : isSpace c = false) (rest : Bytes) :
    ∃ pos, findKey (firstMember key beforeValue (c :: rest)) key = some pos ∧
      (firstMember key beforeValue (c :: rest)).drop pos = c :: rest := by
  have hScan : scanKey (quoted key) [] (firstMember key beforeValue (c :: rest)) 0 =
      some [openBrace].length := by
    rw [firstMember, scanKey_pass (not_prefix_quoted (by decide)), scanKey_token _ (by decide)]
  have hValue := valueAfter_text .none beforeValue hc rest
  simp only [Space.none, List.nil_append, List.length_nil, Nat.zero_add] at hValue
  refine ⟨1 + (quoted key).length + (1 + beforeValue.text.length), ?_, ?_⟩
  · refine (findKey_of_scan (List.singleton_append).symm hScan).trans ?_
    rw [hValue]
    rfl
  · have hSplit : firstMember key beforeValue (c :: rest) =
        (openBrace :: (quoted key ++ colon :: beforeValue.text)) ++ c :: rest := by
      simp [firstMember]
    rw [hSplit, List.drop_left' (by simp; omega)]

/-- What `get_object` returns for a value: its text, if it is an object or array. -/
def containerText : Doc → Bytes
  | .scalar _ | .string _ => []
  | .array items => (Doc.array items).text
  | .object members => (Doc.object members).text

/-- `get_object` at the value it stands in front of. -/
theorem getObject_at {json key suffix : Bytes} {pos : Nat} {value : Doc}
    (hFind : findKey json key = some pos) (hDrop : json.drop pos = value.text ++ suffix) :
    getObject json key = containerText value := by
  rw [getObject, hFind]
  simp only [hDrop]
  cases value with
  | scalar s =>
    obtain ⟨c, more, hText, hToken⟩ := s.text_head
    simp only [Doc.text, hText, List.cons_append]
    rw [if_neg hToken.notOpenBrace, if_neg hToken.notOpenBracket]
    rfl
  | string s =>
    simp only [Doc.text, quoted, List.cons_append]
    rw [if_neg (by decide), if_neg (by decide)]
    rfl
  | array items =>
    have hBody := passes_items .bracket items 0 (closeBracket :: suffix)
    simp only [Doc.text, containerText, List.cons_append, List.append_assoc, List.nil_append]
    rw [if_neg (by decide), if_pos trivial, hBody, objectText_closing .bracket]
    simp
  | object members =>
    have hBody := passes_members .brace members 0 (closeBrace :: suffix)
    simp only [Doc.text, containerText, List.cons_append, List.append_assoc, List.nil_append]
    rw [if_pos trivial, hBody, objectText_closing .brace]
    simp

/-- **`get_object` returns exactly the value.** For every object or array, with
any layout and any strings, every key, any white space behind the colon and any
text behind the value. -/
theorem getObject_value (key : Bytes) (beforeValue : Space) (value : Doc)
    (hValue : isContainer value = true) (suffix : Bytes) :
    getObject (firstMember key beforeValue (value.text ++ suffix)) key = value.text := by
  obtain ⟨c, more, hText, hSpace, -⟩ := value.text_head
  obtain ⟨pos, hFind, hDrop⟩ := findKey_first key beforeValue hSpace (more ++ suffix)
  rw [← List.cons_append, ← hText] at hFind hDrop
  rw [getObject_at hFind hDrop]
  cases value with
  | scalar s => cases hValue
  | string s => cases hValue
  | array items => rfl
  | object members => rfl

/-- An object whose only string holds both brackets, a quote and backslashes. -/
def trickyObject : Doc :=
  .object (.cons .none [] .none .none
    (.string [.byte closeBrace (by decide), .byte openBrace (by decide),
      .short backslash backslash backslash_mem_shortEscapes,
      .short quote quote quote_mem_shortEscapes]) .none (.nil .none))

theorem getObject_value_tricky :
    isContainer trickyObject = true ∧
      getObject (bytes "\x7b\"k\": " ++ trickyObject.text ++ bytes ",\x7d]") (bytes "k") =
        bytes "\x7b\"\":\"\x7d\x7b\\\\\\\"\"\x7d" :=
  ⟨rfl, getObject_value (bytes "k") ⟨bytes " ", rfl⟩ trickyObject rfl (bytes ",\x7d]")⟩

end ArmRx.Pool
