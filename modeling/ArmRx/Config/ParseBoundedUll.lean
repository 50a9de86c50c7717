import ArmRx.Lib.Numeral

/-!
# Range-checked numbers

Embeds `parse_bounded_ull` of `src/config.cpp`, through which every numeric
option of the command line and of the configuration file goes. `std::stoull`
accepts a minus sign and wraps, so the function looks for one first; but it
skips spaces and tabs only, while `std::stoull` skips every white space.

* `parseBoundedUll_text` — the result on the text of a numeral.
* `parsesExactly_iff` — what is accepted is a numeral in range without a minus,
  except for a minus hidden behind other white space.
* `newline_minus_accepted` — such a text.
-/

namespace ArmRx.Config

open ArmRx.Lib ArmRx.Lib.Json

/-- `find_first_not_of(" \t")` skips these. -/
def isBlank (b : BitVec 8) : Bool := b = ch ' ' || b = ch '\t'

/-- `parse_bounded_ull`. -/
def parseBoundedUll (s : Bytes) (maxValue : BitVec 64) : Except StdException (BitVec 64) :=
  if (s.dropWhile isBlank).head? = some (ch '-') then
    .error (.outOfRange "negative value not allowed")
  else
    match stoull s with
    | .error e => .error e
    | .ok v =>
      if maxValue < v then .error (.outOfRange "value exceeds allowed maximum") else .ok v

/-! ## On numerals -/

/-- The text has a minus sign that the function sees. -/
def ShowsMinus (n : Numeral) : Prop := n.sign = .minus ∧ ∀ b ∈ n.space, isBlank b = true

theorem blank_space {b : BitVec 8} (h : isBlank b = true) : isCSpace b = true := by
  revert b
  decide

theorem space_ne_minus {b : BitVec 8} (h : isCSpace b = true) : b ≠ ch '-' := by
  revert b
  decide

/-- The function finds a minus exactly where it sees one. -/
theorem dropWhile_blank_head (n : Numeral) :
    (n.text.dropWhile isBlank).head? = some (ch '-') ↔ ShowsMinus n := by
  by_cases hBlank : ∀ b ∈ n.space, isBlank b = true
  · have hHead (b : BitVec 8) (hb : (n.sign.text ++ (n.digits ++ n.tail)).head? = some b) :
        isBlank b = false := by
      have hSpace := n.signed_head b hb
      rw [Bool.eq_false_iff] at hSpace ⊢
      exact fun h => hSpace (blank_space h)
    have hDrop : n.text.dropWhile isBlank = n.sign.text ++ (n.digits ++ n.tail) :=
      dropWhile_append_head hBlank hHead
    obtain ⟨d, rest, hDigits, hd⟩ := n.digits_head
    rw [hDrop, hDigits, ShowsMinus]
    cases n.sign with
    | none => simpa [Sign.text] using (digit_not_sign hd).1
    | plus => simp [Sign.text, show ch '+' ≠ ch '-' by decide]
    | minus => simpa [Sign.text] using hBlank
  · -- the first byte that is not skipped is white space
    refine iff_of_false (fun hMinus => ?_) fun h => hBlank h.2
    have hSome : n.space.dropWhile isBlank ≠ [] := by
      rw [Ne, List.dropWhile_eq_nil_iff]
      exact hBlank
    have hText : n.text.dropWhile isBlank =
        n.space.dropWhile isBlank ++ (n.sign.text ++ (n.digits ++ n.tail)) := by
      rw [Numeral.text, List.dropWhile_append, if_neg (by simpa using hSome)]
    obtain ⟨b, rest, hRest⟩ := List.exists_cons_of_ne_nil hSome
    have hb : b ∈ n.space :=
      (List.dropWhile_suffix isBlank).subset (hRest ▸ List.mem_cons_self)
    rw [hText, hRest, List.cons_append, List.head?_cons, Option.some_inj] at hMinus
    exact space_ne_minus (n.space_valid b hb) hMinus

/-- **The result on a numeral.** -/
theorem parseBoundedUll_text (n : Numeral) (maxValue v : BitVec 64) :
    parseBoundedUll n.text maxValue = .ok v ↔
      ¬ShowsMinus n ∧ n.value < 2 ^ 64 ∧ n.signed ≤ maxValue ∧ n.signed = v := by
  unfold parseBoundedUll
  by_cases hMinus : ShowsMinus n
  · rw [if_pos ((dropWhile_blank_head n).mpr hMinus)]
    simp [hMinus]
  · rw [if_neg (mt (dropWhile_blank_head n).mp hMinus), n.stoull_text]
    by_cases hBig : 2 ^ 64 ≤ n.value
    · rw [if_pos hBig]
      exact iff_of_false (by simp) fun h => absurd h.2.1 (Nat.not_lt.mpr hBig)
    · rw [if_neg hBig]
      dsimp only
      by_cases hMax : maxValue < n.signed
      · rw [if_pos hMax]
        simp [BitVec.not_le.mpr hMax]
      · rw [if_neg hMax]
        refine ⟨fun h => ⟨hMinus, Nat.lt_of_not_le hBig, BitVec.not_lt.mp hMax, ?_⟩, fun h => ?_⟩
        · cases h
          rfl
        · rw [h.2.2.2]

theorem exists_numeral_of_parse {s : Bytes} {maxValue v : BitVec 64}
    (h : parseBoundedUll s maxValue = .ok v) : ∃ n : Numeral, n.text = s := by
  unfold parseBoundedUll at h
  split at h
  · cases h
  · cases hStoull : stoull s with
    | error e =>
      rw [hStoull] at h
      cases h
    | ok w => exact exists_numeral hStoull

/-! ## What is accepted -/

/-- A value that is returned for `s` is the value of a numeral without a minus
sign, and in range. -/
def ParsesExactly (s : Bytes) (maxValue : BitVec 64) : Prop :=
  ∀ v, parseBoundedUll s maxValue = .ok v →
    (∃ n : Numeral, n.text = s ∧ n.sign ≠ .minus ∧ n.value = v.toNat) ∧ v ≤ maxValue ∧
      ∀ n : Numeral, n.text = s → n.sign ≠ .minus

/-- `s` has a minus sign behind white space other than spaces and tabs, and the
wrapped value is in range. -/
def HidesMinus (s : Bytes) (maxValue : BitVec 64) : Prop :=
  ∃ n : Numeral, n.text = s ∧ n.sign = .minus ∧ (∃ b ∈ n.space, isBlank b = false) ∧
    n.value < 2 ^ 64 ∧ -BitVec.ofNat 64 n.value ≤ maxValue

theorem signed_of_minus {n : Numeral} (h : n.sign = .minus) :
    n.signed = -BitVec.ofNat 64 n.value := if_pos h

theorem not_showsMinus_iff {n : Numeral} (h : n.sign = .minus) :
    ¬ShowsMinus n ↔ ∃ b ∈ n.space, isBlank b = false := by
  simp [ShowsMinus, h]

/-- **Numbers are parsed exactly, unless a minus sign is hidden.** -/
theorem parsesExactly_iff (s : Bytes) (maxValue : BitVec 64) :
    ParsesExactly s maxValue ↔ ¬HidesMinus s maxValue := by
  constructor
  · rintro hExact ⟨n, rfl, hSign, hSpace, hBig, hMax⟩
    have hAccepted : parseBoundedUll n.text maxValue = .ok n.signed :=
      (parseBoundedUll_text n maxValue _).mpr ⟨(not_showsMinus_iff hSign).mpr hSpace, hBig,
        (signed_of_minus hSign).symm ▸ hMax, rfl⟩
    exact (hExact _ hAccepted).2.2 n rfl hSign
  · intro hHidden v hParse
    -- a numeral of this text has no minus sign, or it would be a hidden one
    have hPlain (n : Numeral) (hText : n.text = s) : n.sign ≠ .minus := by
      intro hSign
      subst hText
      obtain ⟨hShown, hBig, hMax, -⟩ := (parseBoundedUll_text n maxValue v).mp hParse
      exact hHidden ⟨n, rfl, hSign, (not_showsMinus_iff hSign).mp hShown, hBig,
        signed_of_minus hSign ▸ hMax⟩
    obtain ⟨n, rfl⟩ := exists_numeral_of_parse hParse
    obtain ⟨-, hBig, hMax, rfl⟩ := (parseBoundedUll_text n maxValue v).mp hParse
    refine ⟨⟨n, rfl, hPlain n rfl, ?_⟩, hMax, hPlain⟩
    rw [Numeral.signed, if_neg (hPlain n rfl), BitVec.toNat_ofNat, Nat.mod_eq_of_lt hBig]

/-- A newline, a minus sign and a number: `--workers` would take it for five. -/
def newlineMinus : Numeral where
  space := [ch '\n']
  sign := .minus
  digits := bytes "18446744073709551611"
  tail := []
  space_valid := by decide
  digits_valid := by decide
  digits_ne_nil := by decide
  tail_valid := by simp

theorem newline_minus_accepted :
    newlineMinus.text = bytes "\n-18446744073709551611" ∧
      parseBoundedUll newlineMinus.text 4096 = .ok 5 ∧ ¬ParsesExactly newlineMinus.text 4096 := by
  have hAccepted : parseBoundedUll newlineMinus.text 4096 = .ok 5 := by decide
  exact ⟨by decide, hAccepted, fun hExact => (hExact 5 hAccepted).2.2 newlineMinus rfl rfl⟩

end ArmRx.Config
