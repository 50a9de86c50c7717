import ArmRx.Lib.Json.Text

/-!
# A JSON parser

A recursive-descent parser for the grammar of `Doc`: it returns the value of a
text, with every string decoded, or nothing when the text is no JSON. Object
members keep their order and may repeat.

* `parse_text` — parsing the text of a document gives its value.
-/

namespace ArmRx.Lib.Json

/-! ## Values -/

/-- A JSON value. A number is kept as it is written. -/
inductive Value where
  | null
  | bool (b : Bool)
  | number (text : Bytes)
  | string (s : Bytes)
  | array (items : List Value)
  | object (members : List (Bytes × Value))

/-- The first member of that name. -/
def Value.member (key : Bytes) : Value → Option Value
  | .object members => members.lookup key
  | _ => none

/-- An element of an array. -/
def Value.element (index : Nat) : Value → Option Value
  | .array items => items[index]?
  | _ => none

def Scalar.value : Scalar → Value
  | .null => .null
  | .bool b => .bool b
  | .number n => .number n.text

mutual

/-- The value of a document. -/
def Doc.value : Doc → Value
  | .scalar s => s.value
  | .string s => .string s.decode
  | .array items => .array items.values
  | .object members => .object members.values

def Items.values : Items → List Value
  | .nil _ => []
  | .cons _ value _ more => value.value :: more.values

def Members.values : Members → List (Bytes × Value)
  | .nil _ => []
  | .cons _ name _ _ value _ more => (name.decode, value.value) :: more.values

end

/-! ## Tokens -/

/-- The code of a two-character escape. -/
def shortCode (letter : BitVec 8) : Option { code // (letter, code) ∈ shortEscapes } :=
  match h : shortEscapes.find? (fun e => e.1 = letter) with
  | none => none
  | some e => some ⟨e.2, by
      have hLetter : e.1 = letter := by simpa using List.find?_some h
      rw [← hLetter]
      exact List.mem_of_find?_eq_some h⟩

/-- A string up to its closing quote. -/
def lexString : Bytes → Option (Spelling × Bytes)
  | [] => none
  | b :: rest =>
    if b = quote then some ([], rest)
    else if b = backslash then
      match rest with
      | [] => none
      | e :: rest =>
        if e = ch 'u' then
          match rest with
          | h₁ :: h₂ :: h₃ :: h₄ :: rest =>
            if valid : (hexValue h₁).isSome ∧ (hexValue h₂).isSome ∧ (hexValue h₃).isSome ∧
                (hexValue h₄).isSome then
              (lexString rest).map fun (s, rest) => (.unicode h₁ h₂ h₃ h₄ valid :: s, rest)
            else none
          | _ => none
        else
          match shortCode e with
          | none => none
          | some code => (lexString rest).map fun (s, rest) => (.short e code.1 code.2 :: s, rest)
    else if valid : isPlain b = true then
      (lexString rest).map fun (s, rest) => (.byte b valid :: s, rest)
    else none

/-- The longest run of the number automaton. -/
def lexNumber : NumberState → Bytes → NumberState × Bytes × Bytes
  | s, [] => (s, [], [])
  | s, b :: rest =>
    match s.step b with
    | none => (s, [], b :: rest)
    | some s' =>
      let (s'', text, rest) := lexNumber s' rest
      (s'', b :: text, rest)

/-- A literal or a number. -/
def lexScalar (bs : Bytes) : Option (Value × Bytes) :=
  if (bytes "null").isPrefixOf bs then some (.null, bs.drop 4)
  else if (bytes "true").isPrefixOf bs then some (.bool true, bs.drop 4)
  else if (bytes "false").isPrefixOf bs then some (.bool false, bs.drop 5)
  else
    let (s, text, rest) := lexNumber .start bs
    if s.accepts then some (.number text, rest) else none

/-! ## The parser -/

def skipSpace (bs : Bytes) : Bytes := bs.dropWhile isSpace

mutual

/-- A value at the head of the text, and the text behind it. -/
def parseValue : Nat → Bytes → Option (Value × Bytes)
  | 0, _ => none
  | _ + 1, [] => none
  | fuel + 1, b :: rest =>
    if b = quote then (lexString rest).map fun (s, rest) => (.string s.decode, rest)
    else if b = openBracket then
      match skipSpace rest with
      | [] => none
      | c :: rest =>
        if c = closeBracket then some (.array [], rest)
        else (parseItems fuel (c :: rest)).map fun (items, rest) => (.array items, rest)
    else if b = openBrace then
      match skipSpace rest with
      | [] => none
      | c :: rest =>
        if c = closeBrace then some (.object [], rest)
        else (parseMembers fuel (c :: rest)).map fun (members, rest) => (.object members, rest)
    else lexScalar (b :: rest)

/-- The elements of an array up to its bracket, at least one. -/
def parseItems : Nat → Bytes → Option (List Value × Bytes)
  | 0, _ => none
  | fuel + 1, bs =>
    match parseValue fuel (skipSpace bs) with
    | none => none
    | some (value, rest) =>
      match skipSpace rest with
      | [] => none
      | c :: rest =>
        if c = closeBracket then some ([value], rest)
        else if c = comma then (parseItems fuel rest).map fun (more, rest) => (value :: more, rest)
        else none

/-- The members of an object up to its brace, at least one. -/
def parseMembers : Nat → Bytes → Option (List (Bytes × Value) × Bytes)
  | 0, _ => none
  | fuel + 1, bs =>
    match skipSpace bs with
    | [] => none
    | q :: rest =>
      if q = quote then
        match lexString rest with
        | none => none
        | some (name, rest) =>
          match skipSpace rest with
          | [] => none
          | c :: rest =>
            if c = colon then
              match parseValue fuel (skipSpace rest) with
              | none => none
              | some (value, rest) =>
                match skipSpace rest with
                | [] => none
                | c :: rest =>
                  if c = closeBrace then some ([(name.decode, value)], rest)
                  else if c = comma then
                    (parseMembers fuel rest).map fun (more, rest) =>
                      ((name.decode, value) :: more, rest)
                  else none
            else none
      else none

end

/-- A whole text. Every call of the parser that does not consume a byte is
followed by one that does, so the fuel suffices. -/
def parse (bs : Bytes) : Option Value :=
  match parseValue (2 * bs.length + 1) (skipSpace bs) with
  | none => none
  | some (value, rest) => if skipSpace rest = [] then some value else none

/-! ## Tokens are read back -/

theorem shortCode_eq {letter code : BitVec 8} (h : (letter, code) ∈ shortEscapes) :
    shortCode letter = some ⟨code, h⟩ := by
  have hCases := h
  simp only [shortEscapes, List.mem_cons, Prod.mk.injEq, List.not_mem_nil, or_false] at hCases
  rcases hCases with h | h | h | h | h | h | h | h <;> obtain ⟨rfl, rfl⟩ := h <;> rfl

theorem shortEscapes_ne_u {letter code : BitVec 8} (h : (letter, code) ∈ shortEscapes) :
    letter ≠ ch 'u' := by
  have hAll : shortEscapes.all (fun e => e.1 ≠ ch 'u') = true := by decide
  simpa using List.all_eq_true.mp hAll _ h

theorem lexString_text (s : Spelling) (rest : Bytes) :
    lexString (s.text ++ quote :: rest) = some (s, rest) := by
  have hSlash : backslash ≠ quote := by decide
  induction s with
  | nil =>
    show lexString (quote :: rest) = _
    rw [lexString.eq_def]
    rfl
  | cons u s ih =>
    rw [Spelling.text, List.flatMap_cons, List.append_assoc]
    rw [Spelling.text] at ih
    cases u with
    | byte b valid =>
      have hb : b ≠ quote ∧ b ≠ backslash := by
        constructor <;> rintro rfl <;> exact absurd valid (by decide)
      simp only [StringUnit.text, List.cons_append, List.nil_append]
      rw [lexString.eq_def]
      simp only [if_neg hb.1, if_neg hb.2, dif_pos valid, ih, Option.map_some]
    | short letter code valid =>
      simp only [StringUnit.text, List.cons_append, List.nil_append]
      rw [lexString.eq_def]
      simp only [if_neg hSlash, if_true, if_neg (shortEscapes_ne_u valid),
        shortCode_eq valid, ih, Option.map_some]
    | unicode a b c d valid =>
      simp only [StringUnit.text, List.cons_append, List.nil_append]
      rw [lexString.eq_def]
      simp only [if_neg hSlash, if_true, dif_pos valid, ih, Option.map_some]

/-- What may follow a value. -/
def Delimited (rest : Bytes) : Prop := ∀ b, rest.head? = some b → isTokenByte b = false

theorem lexNumber_append {text rest : Bytes} (hRest : Delimited rest) {s s' : NumberState}
    (h : text.foldlM NumberState.step s = some s') :
    lexNumber s (text ++ rest) = (s', text, rest) := by
  induction text generalizing s with
  | nil =>
    obtain rfl : s = s' := Option.some.inj h
    cases rest with
    | nil => rfl
    | cons b rest =>
      have hStep : s.step b = none := by
        cases hStep : s.step b with
        | none => rfl
        | some s' =>
          have := NumberState.step_byte s s' b hStep
          rw [hRest b rfl] at this
          cases this
      simp only [List.nil_append, lexNumber, hStep]
  | cons b text ih =>
    rw [List.foldlM_cons] at h
    obtain ⟨s₁, hStep, hRun⟩ := Option.bind_eq_some_iff.mp h
    simp only [List.cons_append, lexNumber, hStep, ih hRun]

theorem lexScalar_text (s : Scalar) {rest : Bytes} (hRest : Delimited rest) :
    lexScalar (s.text ++ rest) = some (s.value, rest) := by
  cases s with
  | null => rfl
  | bool b => cases b <;> rfl
  | number n =>
    obtain ⟨s, hRun, hAccepts⟩ := n.run
    -- a number begins with a sign or a digit
    have hHead (w : Bytes) (hw : ∀ b, w.head? = some b → NumberState.start.step b = none)
        (hNil : w ≠ []) : w.isPrefixOf (n.text ++ rest) = false := by
      obtain ⟨c, w, rfl⟩ := List.exists_cons_of_ne_nil hNil
      obtain ⟨b, text, hText⟩ := List.exists_cons_of_ne_nil n.text_ne_nil
      rw [hText, List.foldlM_cons] at hRun
      obtain ⟨s₁, hStep, -⟩ := Option.bind_eq_some_iff.mp hRun
      have hNe : c ≠ b := by
        rintro rfl
        rw [hw c rfl] at hStep
        cases hStep
      rw [hText]
      simp [List.isPrefixOf, hNe]
    have hRead := lexNumber_append hRest hRun
    have hFirst (w : String) (c : BitVec 8) (hc : (bytes w).head? = some c)
        (hStep : NumberState.start.step c = none) : (bytes w).isPrefixOf (n.text ++ rest) = false :=
      hHead _ (fun b hb => by rw [hc] at hb; cases hb; exact hStep)
        (fun hNil => by rw [hNil] at hc; cases hc)
    rw [lexScalar, Scalar.text, hFirst "null" (ch 'n') rfl rfl, hFirst "true" (ch 't') rfl rfl,
      hFirst "false" (ch 'f') rfl rfl, hRead]
    simp [hAccepts, Scalar.value]

/-! ## Documents are read back -/

theorem skipSpace_text (w : Space) (rest : Bytes) :
    skipSpace (w.text ++ rest) = skipSpace rest :=
  List.dropWhile_append_of_pos (List.all_eq_true.mp w.valid)

theorem skipSpace_cons {b : BitVec 8} (hb : isSpace b = false) (rest : Bytes) :
    skipSpace (b :: rest) = b :: rest :=
  List.dropWhile_cons_of_neg (by simp [hb])

theorem skipSpace_idem (bs : Bytes) : skipSpace (skipSpace bs) = skipSpace bs :=
  List.dropWhile_idempotent isSpace bs

theorem skipSpace_doc (v : Doc) (rest : Bytes) :
    skipSpace (v.text ++ rest) = v.text ++ rest := by
  obtain ⟨b, more, hText, hSpace, -⟩ := v.text_head
  rw [hText]
  exact skipSpace_cons hSpace _

theorem delimited_space (w : Space) {rest : Bytes} (hRest : Delimited rest) :
    Delimited (w.text ++ rest) := by
  intro b hb
  cases hText : w.text with
  | nil =>
    rw [hText] at hb
    exact hRest b hb
  | cons c more =>
    rw [hText] at hb
    cases hb
    have hSpace := List.all_eq_true.mp w.valid b (by rw [hText]; exact List.mem_cons_self)
    have hNot : ∀ b : BitVec 8, isSpace b = true → isTokenByte b = false :=
      forall_isSpace (by decide) (by decide) (by decide) (by decide)
    exact hNot b hSpace

theorem delimited_cons {c : BitVec 8} (hc : isTokenByte c = false) (rest : Bytes) :
    Delimited (c :: rest) := by
  intro b hb
  cases hb
  exact hc

theorem parseItems_skipSpace (fuel : Nat) (bs : Bytes) :
    parseItems fuel (skipSpace bs) = parseItems fuel bs := by
  cases fuel with
  | zero => rw [parseItems, parseItems]
  | succ fuel => rw [parseItems, parseItems, skipSpace_idem]

theorem parseMembers_skipSpace (fuel : Nat) (bs : Bytes) :
    parseMembers fuel (skipSpace bs) = parseMembers fuel bs := by
  cases fuel with
  | zero => rw [parseMembers, parseMembers]
  | succ fuel => rw [parseMembers, parseMembers, skipSpace_idem]

mutual

/-- The parser reads a document back, whatever follows it. -/
theorem parseValue_text : (v : Doc) → (fuel : Nat) → (rest : Bytes) → Delimited rest →
    2 * v.text.length < fuel → parseValue fuel (v.text ++ rest) = some (v.value, rest)
  | _, 0, _, _, hFuel => absurd hFuel (Nat.not_lt_zero _)
  | .scalar s, fuel + 1, rest, hRest, _ => by
    obtain ⟨b, more, hText⟩ := List.exists_cons_of_ne_nil s.text_ne_nil
    have hb : isTokenByte b = true := s.bytes b (by rw [hText]; exact List.mem_cons_self)
    have hNe : b ≠ quote ∧ b ≠ openBracket ∧ b ≠ openBrace := by
      refine ⟨?_, ?_, ?_⟩ <;> rintro rfl <;> exact absurd hb (by decide)
    have hRead := lexScalar_text s hRest
    rw [Doc.text, Doc.value]
    rw [hText, List.cons_append] at hRead ⊢
    rw [parseValue, if_neg hNe.1, if_neg hNe.2.1, if_neg hNe.2.2, hRead]
  | .string s, fuel + 1, rest, _, _ => by
    rw [Doc.text, quoted, List.cons_append, List.append_assoc, parseValue, if_pos rfl]
    show (lexString (s.text ++ quote :: rest)).map _ = _
    rw [lexString_text]
    rfl
  | .array items, fuel + 1, rest, _, hFuel => by
    have hText : (Doc.array items).text ++ rest =
        openBracket :: (items.text ++ closeBracket :: rest) := by
      simp [Doc.text]
    have hLen : (Doc.array items).text.length = items.text.length + 2 := by
      simp [Doc.text]
    have hNe : openBracket ≠ quote := by decide
    rw [hText, Doc.value, parseValue, if_neg hNe, if_pos rfl]
    cases items with
    | nil inner =>
      rw [Items.text, skipSpace_text, skipSpace_cons (by decide)]
      rfl
    | cons before value after more =>
      have hRead := parseItems_text (.cons before value after more) fuel rest
        (fun _ h => nomatch h) (by omega)
      obtain ⟨b, tail, hHead, -, hBracket, -⟩ := value.text_head
      have hSkip : ∃ tail', skipSpace ((Items.cons before value after more).text ++
          closeBracket :: rest) = b :: tail' := by
        rw [Items.text, List.append_assoc, skipSpace_text, List.append_assoc, skipSpace_doc, hHead]
        exact ⟨_, rfl⟩
      obtain ⟨tail', hSkip⟩ := hSkip
      rw [← parseItems_skipSpace, hSkip] at hRead
      rw [hSkip]
      simp only [if_neg hBracket, hRead, Option.map_some]
  | .object members, fuel + 1, rest, _, hFuel => by
    have hText : (Doc.object members).text ++ rest =
        openBrace :: (members.text ++ closeBrace :: rest) := by
      simp [Doc.text]
    have hLen : (Doc.object members).text.length = members.text.length + 2 := by
      simp [Doc.text]
    have hNe : openBrace ≠ quote ∧ openBrace ≠ openBracket := by decide
    rw [hText, Doc.value, parseValue, if_neg hNe.1, if_neg hNe.2, if_pos rfl]
    cases members with
    | nil inner =>
      rw [Members.text, skipSpace_text, skipSpace_cons (by decide)]
      rfl
    | cons before name afterName beforeValue value after more =>
      have hRead := parseMembers_text (.cons before name afterName beforeValue value after more)
        fuel rest (fun _ h => nomatch h) (by omega)
      have hSkip : ∃ tail, skipSpace ((Members.cons before name afterName beforeValue value after
          more).text ++ closeBrace :: rest) = quote :: tail := by
        rw [Members.text, List.append_assoc, skipSpace_text, quoted]
        exact ⟨_, skipSpace_cons (by decide) _⟩
      obtain ⟨tail, hSkip⟩ := hSkip
      rw [← parseMembers_skipSpace, hSkip] at hRead
      rw [hSkip]
      simp only [hRead, Option.map_some]
      rfl

theorem parseItems_text : (items : Items) → (fuel : Nat) → (rest : Bytes) →
    (∀ inner, items ≠ .nil inner) → 2 * items.text.length + 1 < fuel →
    parseItems fuel (items.text ++ closeBracket :: rest) = some (items.values, rest)
  | _, 0, _, _, hFuel => absurd hFuel (Nat.not_lt_zero _)
  | .nil inner, _, _, hNil, _ => absurd rfl (hNil inner)
  | .cons before value after more, fuel + 1, rest, _, hFuel => by
    have hText : (Items.cons before value after more).text ++ closeBracket :: rest =
        before.text ++ (value.text ++ (after.text ++ (more.tailText ++ closeBracket :: rest))) := by
      simp [Items.text]
    have hLen : (Items.cons before value after more).text.length = before.text.length +
        (value.text.length + (after.text.length + more.tailText.length)) := by
      simp [Items.text]
    have hDelimited : Delimited (after.text ++ (more.tailText ++ closeBracket :: rest)) := by
      refine delimited_space after ?_
      cases more with
      | nil inner => exact delimited_space inner (delimited_cons (by decide) _)
      | cons => exact delimited_cons (by decide) _
    have hValue := parseValue_text value fuel _ hDelimited (by omega)
    rw [hText, parseItems, skipSpace_text, skipSpace_doc, hValue, Items.values]
    simp only [skipSpace_text]
    cases more with
    | nil inner =>
      rw [Items.tailText, skipSpace_text, skipSpace_cons (by decide)]
      rfl
    | cons before' value' after' more' =>
      have hTail : (Items.cons before' value' after' more').tailText =
          comma :: (Items.cons before' value' after' more').text := by
        rw [Items.tailText, Items.text]
      rw [hTail] at hLen ⊢
      rw [List.length_cons] at hLen
      have hMore := parseItems_text (.cons before' value' after' more') fuel rest
        (fun _ h => nomatch h) (by omega)
      have hNe : comma ≠ closeBracket := by decide
      rw [List.cons_append, skipSpace_cons (by decide)]
      simp only [if_neg hNe, hMore, if_true, Option.map_some]

theorem parseMembers_text : (members : Members) → (fuel : Nat) → (rest : Bytes) →
    (∀ inner, members ≠ .nil inner) → 2 * members.text.length + 1 < fuel →
    parseMembers fuel (members.text ++ closeBrace :: rest) = some (members.values, rest)
  | _, 0, _, _, hFuel => absurd hFuel (Nat.not_lt_zero _)
  | .nil inner, _, _, hNil, _ => absurd rfl (hNil inner)
  | .cons before name afterName beforeValue value after more, fuel + 1, rest, _, hFuel => by
    have hText : (Members.cons before name afterName beforeValue value after more).text ++
        closeBrace :: rest = before.text ++ (quote :: (name.text ++ quote :: (afterName.text ++
          colon :: (beforeValue.text ++ (value.text ++ (after.text ++
            (more.tailText ++ closeBrace :: rest))))))) := by
      simp [Members.text, quoted]
    have hLen : (Members.cons before name afterName beforeValue value after more).text.length =
        before.text.length + ((quoted name.text).length + (afterName.text.length +
          (beforeValue.text.length + (value.text.length +
            (after.text.length + more.tailText.length)) + 1))) := by
      simp [Members.text]
    have hDelimited : Delimited (after.text ++ (more.tailText ++ closeBrace :: rest)) := by
      refine delimited_space after ?_
      cases more with
      | nil inner => exact delimited_space inner (delimited_cons (by decide) _)
      | cons => exact delimited_cons (by decide) _
    have hValue := parseValue_text value fuel _ hDelimited (by omega)
    rw [hText, parseMembers, skipSpace_text, skipSpace_cons (by decide)]
    simp only [if_true, lexString_text, skipSpace_text]
    rw [skipSpace_cons (b := colon) (by decide)]
    simp only [if_true, skipSpace_doc, skipSpace_text, hValue, Members.values]
    cases more with
    | nil inner =>
      rw [Members.tailText, skipSpace_text, skipSpace_cons (by decide)]
      rfl
    | cons before' name' afterName' beforeValue' value' after' more' =>
      have hTail : (Members.cons before' name' afterName' beforeValue' value' after' more').tailText =
          comma :: (Members.cons before' name' afterName' beforeValue' value' after' more').text := by
        rw [Members.tailText, Members.text]
      rw [hTail] at hLen ⊢
      rw [List.length_cons] at hLen
      have hMore := parseMembers_text (.cons before' name' afterName' beforeValue' value' after'
        more') fuel rest (fun _ h => nomatch h) (by omega)
      have hNe : comma ≠ closeBrace := by decide
      rw [List.cons_append, skipSpace_cons (by decide)]
      simp only [if_neg hNe, hMore, if_true, Option.map_some]

end

/-- **Parsing the text of a document gives its value.** -/
theorem parse_text (lead trail : Space) (v : Doc) :
    parse (lead.text ++ (v.text ++ trail.text)) = some v.value := by
  have hTrail : Delimited trail.text := by
    have hNil : Delimited [] := fun b hb => by cases hb
    have := delimited_space trail hNil
    rwa [List.append_nil] at this
  have hRead := parseValue_text v (2 * (lead.text ++ (v.text ++ trail.text)).length + 1) _ hTrail
    (by
      simp only [List.length_append]
      omega)
  have hEnd : skipSpace trail.text = [] := by
    have := skipSpace_text trail []
    rwa [List.append_nil] at this
  rw [parse, skipSpace_text, skipSpace_doc, hRead]
  simp only [hEnd, if_true]

end ArmRx.Lib.Json
