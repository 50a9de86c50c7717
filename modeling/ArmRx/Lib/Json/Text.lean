import ArmRx.Lib.Literals

/-!
# JSON texts

The grammar of JSON over bytes, as trees that carry their own layout: a `Doc`
knows the white space between its tokens and how each of its strings is
spelled, and `Doc.text` writes it out. Every well-formed text is the text of a
`Doc`, and an ill-formed one cannot be built. `Doc.value` forgets the layout.

Bytes from `0x80` on stand for themselves inside strings.
-/

namespace ArmRx.Lib.Json

abbrev Bytes : Type := List (BitVec 8)

/-- The byte of an ASCII character. -/
def ch (c : Char) : BitVec 8 := BitVec.ofNat 8 c.toNat

/-- The bytes of an ASCII string. -/
def bytes (s : String) : Bytes := s.toList.map ch

abbrev quote : BitVec 8 := 0x22#8
abbrev backslash : BitVec 8 := 0x5c#8
abbrev comma : BitVec 8 := 0x2c#8
abbrev colon : BitVec 8 := 0x3a#8
abbrev openBrace : BitVec 8 := 0x7b#8
abbrev closeBrace : BitVec 8 := 0x7d#8
abbrev openBracket : BitVec 8 := 0x5b#8
abbrev closeBracket : BitVec 8 := 0x5d#8

/-! ## White space and numbers -/

def isSpace (b : BitVec 8) : Bool := b = 0x20#8 || b = 0x09#8 || b = 0x0a#8 || b = 0x0d#8

/-- What holds of white space holds of its four characters. -/
theorem forall_isSpace {P : BitVec 8 → Prop} (hBlank : P 0x20#8) (hTab : P 0x09#8)
    (hLine : P 0x0a#8) (hReturn : P 0x0d#8) (b : BitVec 8) (hb : isSpace b = true) : P b := by
  simp only [isSpace, Bool.or_eq_true, decide_eq_true_eq] at hb
  rcases hb with ((rfl | rfl) | rfl) | rfl
  · exact hBlank
  · exact hTab
  · exact hLine
  · exact hReturn

/-- Insignificant white space. -/
structure Space where
  text : Bytes
  valid : text.all isSpace = true
  deriving DecidableEq

/-- The empty white space. -/
def Space.none : Space := ⟨[], rfl⟩

def isDigit (b : BitVec 8) : Bool := 0x30#8 ≤ b && b ≤ 0x39#8

/-- How far a number has been read. -/
inductive NumberState where
  | start | minus | zero | int | dot | frac | exp | expSign | expDigits
  deriving DecidableEq, Repr

def NumberState.step : NumberState → BitVec 8 → Option NumberState
  | .start, b =>
    if b = ch '-' then some .minus else if b = ch '0' then some .zero
    else if isDigit b then some .int else none
  | .minus, b => if b = ch '0' then some .zero else if isDigit b then some .int else none
  | .zero, b =>
    if b = ch '.' then some .dot else if b = ch 'e' || b = ch 'E' then some .exp else none
  | .int, b =>
    if isDigit b then some .int else if b = ch '.' then some .dot
    else if b = ch 'e' || b = ch 'E' then some .exp else none
  | .dot, b => if isDigit b then some .frac else none
  | .frac, b =>
    if isDigit b then some .frac else if b = ch 'e' || b = ch 'E' then some .exp else none
  | .exp, b =>
    if b = ch '+' || b = ch '-' then some .expSign else if isDigit b then some .expDigits else none
  | .expSign, b => if isDigit b then some .expDigits else none
  | .expDigits, b => if isDigit b then some .expDigits else none

def NumberState.accepts : NumberState → Bool
  | .zero | .int | .frac | .expDigits => true
  | _ => false

/-- The text is a JSON number. -/
def isNumber (text : Bytes) : Bool :=
  match text.foldlM NumberState.step .start with
  | some s => s.accepts
  | none => false

structure NumberText where
  text : Bytes
  valid : isNumber text = true
  deriving DecidableEq

/-- The decimal digits of a number. -/
def decimal (n : Nat) : Bytes :=
  if n = 0 then [ch '0']
  else (Nat.digits 10 n).reverse.map (fun d => BitVec.ofNat 8 (0x30 + d))

theorem step_int_digit {d : Nat} (hd : d < 10) :
    NumberState.int.step (BitVec.ofNat 8 (0x30 + d)) = some .int := by
  interval_cases d <;> rfl

theorem step_start_digit {d : Nat} (hd : d < 10) (hPos : d ≠ 0) :
    NumberState.start.step (BitVec.ofNat 8 (0x30 + d)) = some .int := by
  interval_cases d <;> first | contradiction | rfl

theorem foldlM_int_digits (digits : List Nat) (hDigits : ∀ d ∈ digits, d < 10) :
    (digits.map (fun d => BitVec.ofNat 8 (0x30 + d))).foldlM NumberState.step .int = some .int := by
  induction digits with
  | nil => rfl
  | cons d digits ih =>
    rw [List.map_cons, List.foldlM_cons, step_int_digit (hDigits d List.mem_cons_self)]
    exact ih fun d hd => hDigits d (List.mem_cons_of_mem _ hd)

theorem isNumber_decimal (n : Nat) : isNumber (decimal n) = true := by
  unfold decimal
  split
  · rfl
  · rename_i hn
    -- the most significant digit comes first and is not zero
    have hNil : Nat.digits 10 n ≠ [] := Nat.digits_ne_nil_iff_ne_zero.mpr hn
    have hSplit := List.dropLast_append_getLast hNil
    have hLast := Nat.getLast_digit_ne_zero 10 hn
    have hDigits : ∀ d ∈ Nat.digits 10 n, d < 10 := fun d hd => Nat.digits_lt_base (by decide) hd
    rw [← hSplit, List.reverse_append, List.reverse_singleton, List.singleton_append,
      List.map_cons, isNumber, List.foldlM_cons,
      step_start_digit (hDigits _ (List.getLast_mem hNil)) hLast]
    have hRest := foldlM_int_digits (Nat.digits 10 n).dropLast.reverse fun d hd =>
      hDigits d (List.mem_of_mem_dropLast (List.mem_reverse.mp hd))
    show (match List.foldlM NumberState.step .int _ with
      | some s => s.accepts
      | none => false) = true
    rw [hRest]
    rfl

/-- A natural number, written in decimal. -/
def NumberText.ofNat (n : Nat) : NumberText := ⟨decimal n, isNumber_decimal n⟩

@[simp] theorem NumberText.text_ofNat (n : Nat) : (ofNat n).text = decimal n := rfl

inductive Scalar where
  | null
  | bool (b : Bool)
  | number (n : NumberText)
  deriving DecidableEq

def Scalar.text : Scalar → Bytes
  | .null => bytes "null"
  | .bool true => bytes "true"
  | .bool false => bytes "false"
  | .number n => n.text

/-! ## Strings -/

/-- A byte that stands for itself inside a string. -/
def isPlain (b : BitVec 8) : Bool := 0x20#8 ≤ b && b ≠ quote && b ≠ backslash

def hexValue (b : BitVec 8) : Option Nat :=
  if isDigit b then some (b.toNat - 0x30)
  else if ch 'a' ≤ b && b ≤ ch 'f' then some (b.toNat - 0x61 + 10)
  else if ch 'A' ≤ b && b ≤ ch 'F' then some (b.toNat - 0x41 + 10)
  else none

theorem isPlain_iff {b : BitVec 8} :
    isPlain b = true ↔ 0x20#8 ≤ b ∧ b ≠ quote ∧ b ≠ backslash := by
  simp [isPlain, and_assoc]

theorem isPlain_of_hexValue : ∀ b : BitVec 8, (hexValue b).isSome = true → isPlain b = true := by
  decide +kernel

/-- The letter of a two-character escape, and the character it stands for. -/
def shortEscapes : List (BitVec 8 × BitVec 8) :=
  [(quote, quote), (backslash, backslash), (ch '/', ch '/'), (ch 'b', 0x08), (ch 'f', 0x0c),
   (ch 'n', 0x0a), (ch 'r', 0x0d), (ch 't', 0x09)]

theorem backslash_mem_shortEscapes : (backslash, backslash) ∈ shortEscapes := by decide

theorem quote_mem_shortEscapes : (quote, quote) ∈ shortEscapes := by decide

/-- One character of a string as it is spelled: a byte, a two-character escape
or a `\u` escape. -/
inductive StringUnit where
  | byte (b : BitVec 8) (valid : isPlain b = true)
  | short (letter code : BitVec 8) (valid : (letter, code) ∈ shortEscapes)
  | unicode (a b c d : BitVec 8)
    (valid : (hexValue a).isSome ∧ (hexValue b).isSome ∧ (hexValue c).isSome ∧
      (hexValue d).isSome)
  deriving DecidableEq

def StringUnit.text : StringUnit → Bytes
  | .byte b _ => [b]
  | .short letter _ _ => [backslash, letter]
  | .unicode a b c d _ => [backslash, ch 'u', a, b, c, d]

/-- The spelling of a string. -/
abbrev Spelling : Type := List StringUnit

/-- The text between the quotes. -/
def Spelling.text (s : Spelling) : Bytes := s.flatMap StringUnit.text

/-- The code unit of a `\u` escape. -/
def codeUnit (a b c d : BitVec 8) : Nat :=
  (((hexValue a).getD 0 * 16 + (hexValue b).getD 0) * 16 + (hexValue c).getD 0) * 16 +
    (hexValue d).getD 0

/-- UTF-8; a lone surrogate is written like any other three-byte character. -/
def utf8 (c : Nat) : Bytes :=
  if c < 0x80 then [BitVec.ofNat 8 c]
  else if c < 0x800 then [BitVec.ofNat 8 (0xC0 + c / 64), BitVec.ofNat 8 (0x80 + c % 64)]
  else if c < 0x10000 then
    [BitVec.ofNat 8 (0xE0 + c / 4096), BitVec.ofNat 8 (0x80 + c / 64 % 64),
     BitVec.ofNat 8 (0x80 + c % 64)]
  else
    [BitVec.ofNat 8 (0xF0 + c / 262144), BitVec.ofNat 8 (0x80 + c / 4096 % 64),
     BitVec.ofNat 8 (0x80 + c / 64 % 64), BitVec.ofNat 8 (0x80 + c % 64)]

def isHighSurrogate (u : Nat) : Bool := 0xD800 ≤ u && u < 0xDC00
def isLowSurrogate (u : Nat) : Bool := 0xDC00 ≤ u && u < 0xE000

/-- The bytes of a spelling behind a high surrogate, if there is one. -/
def Spelling.decodeFrom : Option Nat → Spelling → Bytes
  | pending, [] => pending.elim [] utf8
  | pending, .byte b _ :: rest => pending.elim [] utf8 ++ b :: decodeFrom none rest
  | pending, .short _ code _ :: rest => pending.elim [] utf8 ++ code :: decodeFrom none rest
  | pending, .unicode a b c d _ :: rest =>
    let u := codeUnit a b c d
    match pending with
    | some high =>
      if isLowSurrogate u then
        utf8 (0x10000 + (high - 0xD800) * 0x400 + (u - 0xDC00)) ++ decodeFrom none rest
      else if isHighSurrogate u then utf8 high ++ decodeFrom (some u) rest
      else utf8 high ++ (utf8 u ++ decodeFrom none rest)
    | none =>
      if isHighSurrogate u then decodeFrom (some u) rest else utf8 u ++ decodeFrom none rest

/-- The string a spelling stands for. -/
def Spelling.decode (s : Spelling) : Bytes := Spelling.decodeFrom none s

/-! ## Documents -/

mutual

/-- A value with its layout. -/
inductive Doc where
  | scalar (s : Scalar)
  | string (s : Spelling)
  | array (items : Items)
  | object (members : Members)

/-- The elements of an array. The space of `nil` is what an empty array has
between its brackets. -/
inductive Items where
  | nil (inner : Space)
  | cons (before : Space) (value : Doc) (after : Space) (rest : Items)

/-- The members of an object. -/
inductive Members where
  | nil (inner : Space)
  | cons (before : Space) (name : Spelling) (afterName beforeValue : Space) (value : Doc)
    (after : Space) (rest : Members)

end

/-- A string token. -/
def quoted (s : Bytes) : Bytes := quote :: (s ++ [quote])

mutual

def Doc.text : Doc → Bytes
  | .scalar s => s.text
  | .string s => quoted s.text
  | .array items => openBracket :: (items.text ++ [closeBracket])
  | .object members => openBrace :: (members.text ++ [closeBrace])

def Items.text : Items → Bytes
  | .nil inner => inner.text
  | .cons before value after rest =>
    before.text ++ (value.text ++ (after.text ++ rest.tailText))

/-- The text behind an element: a comma when there is another one. -/
def Items.tailText : Items → Bytes
  | .nil inner => inner.text
  | .cons before value after rest =>
    comma :: (before.text ++ (value.text ++ (after.text ++ rest.tailText)))

def Members.text : Members → Bytes
  | .nil inner => inner.text
  | .cons before name afterName beforeValue value after rest =>
    before.text ++ (quoted name.text ++ (afterName.text ++ colon :: (beforeValue.text ++
      (value.text ++ (after.text ++ rest.tailText)))))

def Members.tailText : Members → Bytes
  | .nil inner => inner.text
  | .cons before name afterName beforeValue value after rest =>
    comma :: (before.text ++ (quoted name.text ++ (afterName.text ++ colon :: (beforeValue.text ++
      (value.text ++ (after.text ++ rest.tailText))))))

end

/-- The value of the first member of that name. -/
def Members.lookup (key : Bytes) : Members → Option Doc
  | .nil _ => none
  | .cons _ name _ _ value _ more => if name.decode = key then some value else more.lookup key

/-! ## Where quotes and white space can stand -/

theorem quote_not_mem_space (w : Space) : quote ∉ w.text := by
  intro hMem
  have hSpace := List.all_eq_true.mp w.valid quote hMem
  exact absurd hSpace (by decide)

/-- A byte that is neither white space, a control character nor part of the
punctuation. -/
def isTokenByte (b : BitVec 8) : Bool :=
  0x20#8 < b && b ≠ quote && b ≠ comma && b ≠ colon && b ≠ openBrace && b ≠ closeBrace &&
    b ≠ openBracket && b ≠ closeBracket

/-- What such a byte is not. -/
structure TokenByte (b : BitVec 8) : Prop where
  ge : 0x20#8 ≤ b
  notSpace : isSpace b = false
  notQuote : b ≠ quote
  notComma : b ≠ comma
  notOpenBrace : b ≠ openBrace
  notCloseBrace : b ≠ closeBrace
  notOpenBracket : b ≠ openBracket
  notCloseBracket : b ≠ closeBracket

theorem tokenByte_of_isTokenByte {b : BitVec 8} (h : isTokenByte b = true) : TokenByte b := by
  simp only [isTokenByte, Bool.and_eq_true, decide_eq_true_eq] at h
  obtain ⟨⟨⟨⟨⟨⟨⟨hGt, hQuote⟩, hComma⟩, -⟩, hOpen⟩, hClose⟩, hOpen'⟩, hClose'⟩ := h
  have hSpace : ¬ isSpace b = true := fun hb =>
    forall_isSpace (P := fun b => ¬ 0x20#8 < b) (by decide) (by decide) (by decide) (by decide)
      b hb hGt
  exact ⟨BitVec.le_of_lt hGt, Bool.eq_false_iff.mpr hSpace, hQuote, hComma, hOpen, hClose, hOpen',
    hClose'⟩

theorem NumberState.step_byte (s s' : NumberState) (b : BitVec 8) (h : s.step b = some s') :
    isTokenByte b = true := by
  have hSome : (s.step b).isSome = true := by rw [h]; rfl
  clear h
  revert b
  cases s <;> decide +kernel

theorem NumberState.foldlM_bytes {s s' : NumberState} {text : Bytes}
    (h : text.foldlM NumberState.step s = some s') :
    ∀ b ∈ text, ∃ s₁ s₂ : NumberState, s₁.step b = some s₂ := by
  induction text generalizing s with
  | nil => simp
  | cons b text ih =>
    rw [List.foldlM_cons] at h
    obtain ⟨s₁, hStep, hRest⟩ := Option.bind_eq_some_iff.mp h
    exact List.forall_mem_cons.mpr ⟨⟨s, s₁, hStep⟩, ih hRest⟩

theorem NumberState.step_backslash (s : NumberState) : s.step backslash = none := by
  cases s <;> decide

theorem NumberText.run (n : NumberText) :
    ∃ s, n.text.foldlM NumberState.step .start = some s ∧ s.accepts = true := by
  have hValid := n.valid
  unfold isNumber at hValid
  split at hValid
  · rename_i s hFold
    exact ⟨s, hFold, hValid⟩
  · cases hValid

theorem NumberText.text_ne_nil (n : NumberText) : n.text ≠ [] := by
  intro hNil
  have hValid := n.valid
  rw [hNil] at hValid
  exact absurd hValid (by decide)

/-- A number starts with a digit or a sign. -/
theorem NumberText.text_head {n : NumberText} {c : BitVec 8} {more : Bytes}
    (hText : n.text = c :: more) : c = ch '-' ∨ isDigit c = true := by
  obtain ⟨s, hRun, -⟩ := n.run
  rw [hText, List.foldlM_cons] at hRun
  obtain ⟨s₁, hStep, -⟩ := Option.bind_eq_some_iff.mp hRun
  have hStart (c : BitVec 8) : (NumberState.start.step c).isSome = true →
      c = ch '-' ∨ isDigit c = true := by
    revert c
    decide +kernel
  exact hStart c (by rw [hStep]; rfl)

theorem Scalar.bytes (s : Scalar) : ∀ b ∈ s.text, isTokenByte b = true := by
  cases s with
  | null => decide
  | bool b => cases b <;> decide
  | number n =>
    obtain ⟨s, hRun, -⟩ := n.run
    intro b hb
    obtain ⟨s₁, s₂, hStep⟩ := NumberState.foldlM_bytes hRun b hb
    exact NumberState.step_byte s₁ s₂ b hStep

theorem Scalar.backslash_not_mem (s : Scalar) : backslash ∉ s.text := by
  cases s with
  | null => decide
  | bool b => cases b <;> decide
  | number n =>
    obtain ⟨s, hRun, -⟩ := n.run
    intro hMem
    obtain ⟨s₁, s₂, hStep⟩ := NumberState.foldlM_bytes hRun backslash hMem
    rw [s₁.step_backslash] at hStep
    cases hStep

theorem Scalar.text_ne_nil (s : Scalar) : s.text ≠ [] := by
  cases s with
  | null => decide
  | bool b => cases b <;> decide
  | number n => exact n.text_ne_nil

theorem Scalar.tokenBytes (s : Scalar) : ∀ b ∈ s.text, TokenByte b :=
  fun b hb => tokenByte_of_isTokenByte (s.bytes b hb)

theorem Scalar.text_head (s : Scalar) : ∃ b rest, s.text = b :: rest ∧ TokenByte b := by
  obtain ⟨b, rest, hText⟩ := List.exists_cons_of_ne_nil s.text_ne_nil
  exact ⟨b, rest, hText, s.tokenBytes b (by rw [hText]; exact List.mem_cons_self)⟩

/-- A value starts with a byte that neither is white space nor ends an array or
object. -/
theorem Doc.text_head (v : Doc) : ∃ b rest, v.text = b :: rest ∧ isSpace b = false ∧
    b ≠ closeBracket ∧ b ≠ closeBrace := by
  cases v with
  | scalar s =>
    obtain ⟨b, rest, hText, hb⟩ := s.text_head
    exact ⟨b, rest, by rw [Doc.text, hText], hb.notSpace, hb.notCloseBracket, hb.notCloseBrace⟩
  | string s => exact ⟨quote, _, by rw [Doc.text, quoted], by decide⟩
  | array items => exact ⟨openBracket, _, by rw [Doc.text], by decide⟩
  | object members => exact ⟨openBrace, _, by rw [Doc.text], by decide⟩

theorem hexValue_quote : hexValue quote = none := by decide

/-! ## Compact texts -/

mutual

/-- The document has no white space outside its strings. -/
def Doc.Compact : Doc → Prop
  | .scalar _ => True
  | .string _ => True
  | .array items => items.Compact
  | .object members => members.Compact

def Items.Compact : Items → Prop
  | .nil inner => inner.text = []
  | .cons before value after more =>
    before.text = [] ∧ value.Compact ∧ after.text = [] ∧ more.Compact

def Members.Compact : Members → Prop
  | .nil inner => inner.text = []
  | .cons before _ afterName beforeValue value after more =>
    before.text = [] ∧ afterName.text = [] ∧ beforeValue.text = [] ∧ value.Compact ∧
      after.text = [] ∧ more.Compact

end

theorem StringUnit.text_ge (u : StringUnit) : ∀ b ∈ u.text, 0x20#8 ≤ b := by
  have hHex (b : BitVec 8) (hb : (hexValue b).isSome = true) : 0x20#8 ≤ b :=
    (isPlain_iff.mp (isPlain_of_hexValue b hb)).1
  have hShort : shortEscapes.all (fun e => 0x20#8 ≤ e.1) = true := by decide
  cases u with
  | byte b valid => simpa [StringUnit.text] using (isPlain_iff.mp valid).1
  | short letter code valid =>
    have hLetter : 0x20#8 ≤ letter := by simpa using List.all_eq_true.mp hShort _ valid
    simpa [StringUnit.text] using hLetter
  | unicode a b c d valid =>
    obtain ⟨ha, hb, hc, hd⟩ := valid
    have hu : 0x20#8 ≤ ch 'u' := by decide
    simpa [StringUnit.text] using ⟨hu, hHex a ha, hHex b hb, hHex c hc, hHex d hd⟩

theorem quoted_ge (s : Spelling) : ∀ b ∈ quoted s.text, 0x20#8 ≤ b := by
  have hQuote : 0x20#8 ≤ quote := by decide
  intro b hb
  rw [quoted, List.mem_cons, List.mem_append, List.mem_singleton] at hb
  rcases hb with rfl | hb | rfl
  · exact hQuote
  · obtain ⟨u, -, hu⟩ := List.mem_flatMap.mp hb
    exact u.text_ge b hu
  · exact hQuote

theorem Scalar.text_ge (s : Scalar) : ∀ b ∈ s.text, 0x20#8 ≤ b :=
  fun b hb => (s.tokenBytes b hb).ge

mutual

/-- A compact text has no control characters, so in particular no line break. -/
theorem Doc.text_ge : (v : Doc) → v.Compact → ∀ b ∈ v.text, 0x20#8 ≤ b
  | .scalar s, _ => s.text_ge
  | .string s, _ => quoted_ge s
  | .array items, h => by
    rw [Doc.text, List.forall_mem_cons, List.forall_mem_append]
    exact ⟨by decide, Items.text_ge items h, by decide⟩
  | .object members, h => by
    rw [Doc.text, List.forall_mem_cons, List.forall_mem_append]
    exact ⟨by decide, Members.text_ge members h, by decide⟩

theorem Items.text_ge : (items : Items) → items.Compact → ∀ b ∈ items.text, 0x20#8 ≤ b
  | .nil inner, h => by
    rw [Items.text, h]
    simp
  | .cons before value after more, ⟨hBefore, hValue, hAfter, hMore⟩ => by
    rw [Items.text, hBefore, hAfter, List.nil_append, List.nil_append, List.forall_mem_append]
    exact ⟨Doc.text_ge value hValue, Items.tailText_ge more hMore⟩

theorem Items.tailText_ge : (items : Items) → items.Compact → ∀ b ∈ items.tailText, 0x20#8 ≤ b
  | .nil inner, h => by
    rw [Items.tailText, h]
    simp
  | .cons before value after more, ⟨hBefore, hValue, hAfter, hMore⟩ => by
    rw [Items.tailText, hBefore, hAfter, List.nil_append, List.nil_append, List.forall_mem_cons,
      List.forall_mem_append]
    exact ⟨by decide, Doc.text_ge value hValue, Items.tailText_ge more hMore⟩

theorem Members.text_ge : (members : Members) → members.Compact → ∀ b ∈ members.text, 0x20#8 ≤ b
  | .nil inner, h => by
    rw [Members.text, h]
    simp
  | .cons before name afterName beforeValue value after more,
      ⟨hBefore, hAfterName, hBeforeValue, hValue, hAfter, hMore⟩ => by
    rw [Members.text, hBefore, hAfterName, hBeforeValue, hAfter]
    simp only [List.nil_append, List.forall_mem_append, List.forall_mem_cons]
    exact ⟨quoted_ge name, by decide, Doc.text_ge value hValue, Members.tailText_ge more hMore⟩

theorem Members.tailText_ge : (members : Members) → members.Compact →
    ∀ b ∈ members.tailText, 0x20#8 ≤ b
  | .nil inner, h => by
    rw [Members.tailText, h]
    simp
  | .cons before name afterName beforeValue value after more,
      ⟨hBefore, hAfterName, hBeforeValue, hValue, hAfter, hMore⟩ => by
    rw [Members.tailText, hBefore, hAfterName, hBeforeValue, hAfter]
    simp only [List.nil_append, List.forall_mem_append, List.forall_mem_cons]
    exact ⟨by decide, quoted_ge name, by decide, Doc.text_ge value hValue,
      Members.tailText_ge more hMore⟩

end

end ArmRx.Lib.Json
