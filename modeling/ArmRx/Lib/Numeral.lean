import ArmRx.Lib.Json.Text

/-!
# Decimal numerals of the C library

What `std::stoull` reads, over bytes and in the "C" locale: white space, an
optional sign, the longest run of digits, and whatever follows. A `Numeral` is a
text taken apart that way; it carries the proof that its parts are what they
should be, so every text is the text of at most one `Numeral`.

A minus sign is accepted: the value is negated modulo `2 ^ 64`.

* `stoull_text` — the result on the text of a numeral.
* `exists_numeral` — `stoull` succeeds on texts of numerals only.
-/

namespace ArmRx.Lib

open ArmRx.Lib.Json

/-- `isspace`. -/
def isCSpace (b : BitVec 8) : Bool := b = 0x20#8 || (0x09#8 ≤ b && b ≤ 0x0d#8)

/-- The number a string of digits spells. -/
def decimalValue (digits : Bytes) : Nat := digits.foldl (fun v d => 10 * v + (d.toNat - 48)) 0

inductive Sign where
  | none
  | plus
  | minus
  deriving DecidableEq, Repr

def Sign.text : Sign → Bytes
  | .none => []
  | .plus => [ch '+']
  | .minus => [ch '-']

/-- A text with a number at its front. -/
structure Numeral where
  space : Bytes
  sign : Sign
  digits : Bytes
  tail : Bytes
  space_valid : ∀ b ∈ space, isCSpace b = true
  digits_valid : ∀ b ∈ digits, isDigit b = true
  digits_ne_nil : digits ≠ []
  /-- The run of digits is the longest one. -/
  tail_valid : ∀ b, tail.head? = some b → isDigit b = false

namespace Numeral

def text (n : Numeral) : Bytes := n.space ++ (n.sign.text ++ (n.digits ++ n.tail))

def value (n : Numeral) : Nat := decimalValue n.digits

/-- The value modulo `2 ^ 64`, with its sign. -/
def signed (n : Numeral) : BitVec 64 :=
  if n.sign = .minus then -BitVec.ofNat 64 n.value else BitVec.ofNat 64 n.value

end Numeral

/-! ## The reader -/

/-- The exceptions of the standard library that a reader throws. -/
inductive StdException where
  | invalidArgument (what : String)
  | outOfRange (what : String)
  deriving DecidableEq, Repr

def readSign : Bytes → Sign × Bytes
  | [] => (.none, [])
  | b :: rest =>
    if b = ch '-' then (.minus, rest) else if b = ch '+' then (.plus, rest) else (.none, b :: rest)

/-- `std::stoull`, base ten. -/
def stoull (s : Bytes) : Except StdException (BitVec 64) :=
  let (sign, rest) := readSign (s.dropWhile isCSpace)
  let digits := rest.takeWhile isDigit
  if digits = [] then .error (.invalidArgument "stoull")
  else if 2 ^ 64 ≤ decimalValue digits then .error (.outOfRange "stoull")
  else if sign = .minus then .ok (-BitVec.ofNat 64 (decimalValue digits))
  else .ok (BitVec.ofNat 64 (decimalValue digits))

/-! ## Texts of numerals -/

theorem digit_not_space {b : BitVec 8} (h : isDigit b = true) : isCSpace b = false := by
  revert b
  decide

theorem digit_not_sign {b : BitVec 8} (h : isDigit b = true) : b ≠ ch '-' ∧ b ≠ ch '+' := by
  revert b
  decide

theorem dropWhile_append_head {α : Type} {p : α → Bool} {xs ys : List α}
    (hxs : ∀ x ∈ xs, p x = true) (hys : ∀ y, ys.head? = some y → p y = false) :
    (xs ++ ys).dropWhile p = ys := by
  rw [List.dropWhile_append_of_pos hxs]
  cases ys with
  | nil => rfl
  | cons y ys => rw [List.dropWhile_cons, hys y rfl]; rfl

theorem takeWhile_append_head {α : Type} {p : α → Bool} {xs ys : List α}
    (hxs : ∀ x ∈ xs, p x = true) (hys : ∀ y, ys.head? = some y → p y = false) :
    (xs ++ ys).takeWhile p = xs := by
  rw [List.takeWhile_append_of_pos hxs]
  cases ys with
  | nil => exact List.append_nil xs
  | cons y ys => rw [List.takeWhile_cons, hys y rfl]; exact List.append_nil xs

namespace Numeral

variable (n : Numeral)

theorem digits_head : ∃ b rest, n.digits = b :: rest ∧ isDigit b = true := by
  obtain ⟨b, rest, hDigits⟩ := List.exists_cons_of_ne_nil n.digits_ne_nil
  exact ⟨b, rest, hDigits, n.digits_valid b (hDigits ▸ List.mem_cons_self)⟩

theorem readSign_signed : readSign (n.sign.text ++ (n.digits ++ n.tail)) =
    (n.sign, n.digits ++ n.tail) := by
  obtain ⟨b, rest, hDigits, hb⟩ := n.digits_head
  cases n.sign with
  | none =>
    obtain ⟨hMinus, hPlus⟩ := digit_not_sign hb
    rw [hDigits]
    simp [Sign.text, readSign, hMinus, hPlus]
  | plus => rfl
  | minus => rfl

/-- What stands behind the white space is not white space. -/
theorem signed_head (b : BitVec 8)
    (h : (n.sign.text ++ (n.digits ++ n.tail)).head? = some b) : isCSpace b = false := by
  obtain ⟨d, rest, hDigits, hd⟩ := n.digits_head
  rw [hDigits] at h
  cases hSign : n.sign with
  | none =>
    rw [hSign] at h
    cases h
    exact digit_not_space hd
  | plus | minus =>
    rw [hSign] at h
    cases h
    decide

theorem dropWhile_text : n.text.dropWhile isCSpace = n.sign.text ++ (n.digits ++ n.tail) :=
  dropWhile_append_head n.space_valid n.signed_head

/-- **What `stoull` makes of a numeral.** -/
theorem stoull_text : stoull n.text =
    if 2 ^ 64 ≤ n.value then .error (.outOfRange "stoull") else .ok n.signed := by
  unfold stoull
  rw [n.dropWhile_text, n.readSign_signed]
  dsimp only
  rw [takeWhile_append_head n.digits_valid n.tail_valid, if_neg n.digits_ne_nil, signed]
  change (if 2 ^ 64 ≤ n.value then _ else if n.sign = .minus then _ else _) = _
  split
  · rfl
  · split <;> rfl

end Numeral

theorem readSign_text (s : Bytes) : (readSign s).1.text ++ (readSign s).2 = s := by
  unfold readSign
  split
  · rfl
  · rename_i b rest
    split
    · rename_i hb
      rw [hb]
      rfl
    · split
      · rename_i hb
        rw [hb]
        rfl
      · rfl

/-- **`stoull` reads numerals only.** -/
theorem exists_numeral {s : Bytes} {v : BitVec 64} (h : stoull s = .ok v) :
    ∃ n : Numeral, n.text = s := by
  have hSigned := readSign_text (s.dropWhile isCSpace)
  unfold stoull at h
  obtain ⟨sign, rest, hRead⟩ : ∃ sign rest, readSign (s.dropWhile isCSpace) = (sign, rest) :=
    ⟨_, _, rfl⟩
  rw [hRead] at h hSigned
  dsimp only at h hSigned
  by_cases hDigits : rest.takeWhile isDigit = []
  · rw [if_pos hDigits] at h
    cases h
  · refine ⟨⟨s.takeWhile isCSpace, sign, rest.takeWhile isDigit, rest.dropWhile isDigit,
      fun b hb => List.mem_takeWhile_imp hb, fun b hb => List.mem_takeWhile_imp hb, hDigits,
      fun b hb => ?_⟩, ?_⟩
    · have := List.head?_dropWhile_not isDigit rest
      rw [hb] at this
      simpa using this
    · rw [Numeral.text, List.takeWhile_append_dropWhile, hSigned, List.takeWhile_append_dropWhile]

end ArmRx.Lib
