import ArmRx.Pool.Scanners

/-!
# The scanners stay inside the text

Every loop of the extractors, by the rule for total correctness: it leaves
after at most `size() + 1` rounds, accesses nothing behind `size()`, and
computes what its list version says.

* `extractors_total` — the six extractors on every byte string.
-/

namespace ArmRx.Pool.Checked

open ArmRx.Lib ArmRx.Lib.Json

variable {json : Bytes}

/-! ## Texts by position -/

theorem charAt_lt {pos : Nat} (h : pos < json.length) : charAt json pos = .ok json[pos] := by
  rw [charAt, if_pos h, List.getD_eq_getElem _ _ h]

theorem charAt_bind {α : Type} {pos : Nat} (h : pos < json.length)
    (f : BitVec 8 → Except Fault α) : (charAt json pos >>= f) = f json[pos] := by
  rw [charAt_lt h]
  rfl

theorem ok_bind {α β : Type} (a : α) (f : α → Except Fault β) :
    ((Except.ok a : Except Fault α) >>= f) = f a := rfl

/-- The text between two positions. -/
def slice (json : Bytes) (start stop : Nat) : Bytes := (json.take stop).drop start

theorem substr_slice {start stop : Nat} (h : start ≤ json.length) :
    substr json start (stop - start) = .ok (slice json start stop) := by
  rw [substr, if_neg (by omega), slice, List.drop_take]

theorem slice_self (start : Nat) : slice json start start = [] := by
  rw [slice, List.drop_eq_nil_of_le (by simp)]

theorem slice_succ {start stop : Nat} (hStart : start ≤ stop) (h : stop < json.length) :
    slice json start (stop + 1) = slice json start stop ++ [json[stop]] := by
  rw [slice, List.take_succ_eq_append_getElem h,
    List.drop_append_of_le_length (by simp; omega)]
  rfl

theorem slice_ge {start stop : Nat} (h : json.length ≤ stop) :
    slice json start stop = json.drop start := by
  rw [slice, List.take_of_length_le h]

theorem drop_lt {pos : Nat} (h : pos < json.length) :
    json.drop pos = json[pos] :: json.drop (pos + 1) := List.drop_eq_getElem_cons h

theorem drop_ge {pos : Nat} (h : json.length ≤ pos) : json.drop pos = [] :=
  List.drop_eq_nil_of_le h

/-! ## The loops -/

theorem skipWhile_eq (p : BitVec 8 → Bool) (json : Bytes) (pos : Nat) :
    skipWhile p json pos = .ok (pos + ((json.drop pos).takeWhile p).length) := by
  refine loop_eq (fun pos => pos + ((json.drop pos).takeWhile p).length)
    (fun pos => json.length - pos) (fun pos => ?_) (by omega)
  by_cases hPos : pos < json.length
  · rw [if_pos hPos, charAt_bind hPos]
    by_cases hp : p json[pos] = true
    · refine .inr ⟨pos + 1, by rw [if_pos hp]; rfl, ?_, by omega⟩
      rw [drop_lt hPos, List.takeWhile_cons_of_pos hp, List.length_cons]
      omega
    · left
      rw [if_neg hp, drop_lt hPos, List.takeWhile_cons_of_neg hp]
      rfl
  · left
    rw [if_neg hPos, drop_ge (by omega)]
    rfl

theorem skipWs_eq (json : Bytes) (pos : Nat) : skipWs json pos = .ok (Pool.skipWs json pos) :=
  skipWhile_eq isSpace json pos

/-- Trimming a text at its end. -/
theorem trimBack_eq (p : BitVec 8 → Bool) {start stop : Nat} (hStart : start ≤ stop)
    (hStop : stop ≤ json.length) :
    ∃ e, trimBack p json start stop = .ok e ∧ start ≤ e ∧ e ≤ stop ∧
      slice json start e = ((slice json start stop).reverse.dropWhile p).reverse := by
  -- what is left to trim gives the same text
  refine loop_total
    (fun e => start ≤ e ∧ e ≤ stop ∧ ((slice json start e).reverse.dropWhile p).reverse =
      ((slice json start stop).reverse.dropWhile p).reverse)
    (fun e => start ≤ e ∧ e ≤ stop ∧
      slice json start e = ((slice json start stop).reverse.dropWhile p).reverse)
    id (fun e hInv => ?_) ⟨hStart, le_rfl, rfl⟩ (by simp; omega)
  obtain ⟨hLow, hHigh, hSame⟩ := hInv
  by_cases hMore : e > start
  · obtain ⟨e, rfl⟩ : ∃ n, e = n + 1 := ⟨e - 1, by omega⟩
    have hLt : e < json.length := by omega
    rw [slice_succ (by omega) hLt] at hSame
    rw [if_pos hMore, Nat.add_sub_cancel, charAt_bind hLt]
    by_cases hp : p json[e] = true
    · refine .inr ⟨e, by rw [if_pos hp]; rfl, ⟨by omega, by omega, ?_⟩, by simp⟩
      simpa [hp] using hSame
    · refine .inl ⟨e + 1, by rw [if_neg hp]; rfl, by omega, hHigh, ?_⟩
      rw [slice_succ (by omega) hLt, ← hSame]
      simp [hp]
  · obtain rfl : e = start := by omega
    refine .inl ⟨e, by rw [if_neg hMore]; rfl, hLow, hHigh, ?_⟩
    rw [← hSame, slice_self]
    rfl

/-- One round of a loop over a string: the place is the closing quote, an escape
with the character behind it, a backslash that ends the text, another
character, or the end. -/
theorem string_cases (json : Bytes) (pos : Nat) :
    (∃ h : pos < json.length, json[pos] = quote) ∨
      (∃ (_ : pos < json.length) (h : pos + 1 < json.length), json[pos] = backslash ∧
        json.drop pos = backslash :: json[pos + 1] :: json.drop (pos + 2)) ∨
      (∃ h : pos < json.length, json.length ≤ pos + 1 ∧ json[pos] = backslash ∧
        json.drop pos = [backslash]) ∨
      (∃ h : pos < json.length, json[pos] ≠ quote ∧ json[pos] ≠ backslash) ∨
      json.length ≤ pos := by
  by_cases hPos : pos < json.length
  · by_cases hQuote : json[pos] = quote
    · exact .inl ⟨hPos, hQuote⟩
    by_cases hBackslash : json[pos] = backslash
    · right
      by_cases hNext : pos + 1 < json.length
      · exact .inl ⟨hPos, hNext, hBackslash, by rw [drop_lt hPos, drop_lt hNext, hBackslash]⟩
      · exact .inr (.inl ⟨hPos, by omega, hBackslash,
          by rw [drop_lt hPos, drop_ge (by omega), hBackslash]⟩)
    · exact .inr (.inr (.inr (.inl ⟨hPos, hQuote, hBackslash⟩)))
  · exact .inr (.inr (.inr (.inr (by omega))))

theorem skipToQuote_eq (json : Bytes) (pos : Nat) :
    ∃ e, skipToQuote json pos = .ok e ∧ pos ≤ e ∧ slice json pos e = rawString (json.drop pos) ∧
      Pool.skipString (json.drop pos) =
        if e < json.length then some (json.drop (e + 1)) else none := by
  refine loop_total
    (fun e => pos ≤ e ∧ slice json pos e ++ rawString (json.drop e) = rawString (json.drop pos) ∧
      Pool.skipString (json.drop e) = Pool.skipString (json.drop pos))
    (fun e => pos ≤ e ∧ slice json pos e = rawString (json.drop pos) ∧
      Pool.skipString (json.drop pos) = if e < json.length then some (json.drop (e + 1)) else none)
    (fun e => json.length - e) (fun e hInv => ?_) ⟨le_rfl, by rw [slice_self]; rfl, rfl⟩ (by omega)
  obtain ⟨hLow, hRaw, hSkip⟩ := hInv
  -- a quote, an escape, a backslash at the end, any other character, or the end itself
  rcases string_cases json e with ⟨hPos, hc⟩ | ⟨hPos, hNext, hc, hDrop⟩ | ⟨hPos, hEnd, hc, hDrop⟩ |
    ⟨hPos, hQuote, hBackslash⟩ | hPos
  · left
    rw [if_pos hPos, charAt_bind hPos, if_pos hc]
    rw [drop_lt hPos, hc, rawString_close, List.append_nil] at hRaw
    rw [drop_lt hPos, hc, skipString_close] at hSkip
    exact ⟨e, rfl, hLow, hRaw, by rw [if_pos hPos, hSkip]⟩
  · right
    rw [if_pos hPos, charAt_bind hPos, if_neg (by rw [hc]; decide), if_pos hc]
    refine ⟨e + 2, rfl, ⟨by omega, ?_, ?_⟩, by omega⟩
    · rw [← hRaw, hDrop, rawString_backslash, slice_succ (by omega) hNext,
        slice_succ hLow hPos, hc]
      simp
    · rw [← hSkip, hDrop, skipString_backslash]
  · right
    rw [if_pos hPos, charAt_bind hPos, if_neg (by rw [hc]; decide), if_pos hc]
    refine ⟨e + 2, rfl, ⟨by omega, ?_, ?_⟩, by omega⟩
    · -- the position leaves the text, the characters passed do not
      have hAll : slice json pos (e + 2) = slice json pos (e + 1) := by
        rw [slice_ge (by omega), slice_ge hEnd]
      rw [← hRaw, hDrop, drop_ge (by omega), hAll, slice_succ hLow hPos, hc, List.append_assoc]
      rfl
    · rw [← hSkip, hDrop, drop_ge (by omega)]
      rfl
  · right
    rw [if_pos hPos, charAt_bind hPos, if_neg hQuote, if_neg hBackslash]
    refine ⟨e + 1, rfl, ⟨by omega, ?_, ?_⟩, by omega⟩
    · rw [← hRaw, drop_lt hPos, rawString_plain hQuote hBackslash, slice_succ hLow hPos]
      simp
    · rw [← hSkip, drop_lt hPos, skipString_plain hQuote hBackslash]
  · left
    rw [if_neg (by omega)]
    rw [drop_ge hPos] at hRaw hSkip
    refine ⟨e, rfl, hLow, ?_, ?_⟩
    · simpa [rawString] using hRaw
    · rw [← hSkip, if_neg (by omega)]
      rfl

theorem skipString_eq {pos : Nat} (hPos : pos < json.length) (hQuote : json[pos] = quote) :
    ∃ r, skipString json pos = .ok r ∧
      r.map (json.drop ·) = Pool.skipString (json.drop (pos + 1)) ∧
      ∀ e, r = some e → pos < e ∧ e ≤ json.length := by
  obtain ⟨e, hLoop, hLow, -, hSkip⟩ := skipToQuote_eq json (pos + 1)
  rw [skipString, if_neg (by omega), charAt_bind hPos, if_neg (by simp [hQuote]), hLoop, hSkip]
  by_cases hEnd : e < json.length
  · refine ⟨some (e + 1), ?_, ?_, ?_⟩
    · show (if e ≥ json.length then _ else _) = _
      rw [if_neg (by omega)]
      rfl
    · rw [if_pos hEnd]
      rfl
    · rintro _ ⟨⟩
      omega
  · refine ⟨none, ?_, ?_, nofun⟩
    · show (if e ≥ json.length then _ else _) = _
      rw [if_pos (by omega)]
      rfl
    · rw [if_neg hEnd]
      rfl

theorem collectString_eq (json : Bytes) (pos : Nat) :
    ∃ e, collectString json pos = .ok (readString (json.drop pos), e) ∧ pos ≤ e ∧
      Pool.skipString (json.drop pos) =
        if e < json.length then some (json.drop (e + 1)) else none := by
  have hRun : ∃ r : Bytes × Nat, collectString json pos = .ok r ∧
      (r.1 = readString (json.drop pos) ∧ pos ≤ r.2 ∧ Pool.skipString (json.drop pos) =
        if r.2 < json.length then some (json.drop (r.2 + 1)) else none) := by
    refine loop_total
      (fun s : Nat × Bytes => pos ≤ s.1 ∧
        s.2 ++ readString (json.drop s.1) = readString (json.drop pos) ∧
        Pool.skipString (json.drop s.1) = Pool.skipString (json.drop pos))
      _ (fun s => json.length - s.1) (fun s hInv => ?_) ⟨le_rfl, rfl, rfl⟩
      (by simp only; omega)
    obtain ⟨e, result⟩ := s
    obtain ⟨hLow, hRead, hSkip⟩ := hInv
    simp only at hLow hRead hSkip ⊢
    rcases string_cases json e with ⟨hPos, hc⟩ | ⟨hPos, hNext, hc, hDrop⟩ |
      ⟨hPos, hEnd, hc, hDrop⟩ | ⟨hPos, hQuote, hBackslash⟩ | hPos
    · left
      rw [if_pos hPos, charAt_bind hPos, if_pos hc]
      rw [drop_lt hPos, hc, readString_close, List.append_nil] at hRead
      rw [drop_lt hPos, hc, skipString_close] at hSkip
      exact ⟨(result, e), rfl, hRead, hLow, by rw [if_pos hPos, hSkip]⟩
    · right
      rw [if_pos hPos, charAt_bind hPos, if_neg (by rw [hc]; decide), if_pos hc, if_pos hNext,
        charAt_bind hNext]
      refine ⟨(e + 2, result ++ [json[e + 1]]), rfl, ⟨by simp only; omega, ?_, ?_⟩,
        by simp only; omega⟩
      · rw [← hRead, hDrop, readString_backslash]
        simp
      · rw [← hSkip, hDrop, skipString_backslash]
    · right
      rw [if_pos hPos, charAt_bind hPos, if_neg (by rw [hc]; decide), if_pos hc,
        if_neg (by omega)]
      refine ⟨(e + 2, result), rfl, ⟨by simp only; omega, ?_, ?_⟩, by simp only; omega⟩
      · rw [← hRead, hDrop, drop_ge (by omega)]
        rfl
      · rw [← hSkip, hDrop, drop_ge (by omega)]
        rfl
    · right
      rw [if_pos hPos, charAt_bind hPos, if_neg hQuote, if_neg hBackslash]
      refine ⟨(e + 1, result ++ [json[e]]), rfl, ⟨by simp only; omega, ?_, ?_⟩,
        by simp only; omega⟩
      · rw [← hRead, drop_lt hPos, readString_plain hQuote hBackslash]
        simp
      · rw [← hSkip, drop_lt hPos, skipString_plain hQuote hBackslash]
    · left
      rw [if_neg (by omega)]
      rw [drop_ge hPos] at hRead hSkip
      refine ⟨(result, e), rfl, ?_, hLow, ?_⟩
      · simpa [readString] using hRead
      · rw [← hSkip, if_neg (by omega)]
        rfl
  obtain ⟨⟨r, e⟩, hLoop, rfl, hLow, hSkip⟩ := hRun
  exact ⟨e, hLoop, hLow, hSkip⟩

/-! ## find_key -/

theorem find_some {search : Bytes} {pos q : Nat} (h : find json search pos = some q) :
    pos ≤ q ∧ q ≤ json.length ∧ search <+: json.drop q ∧
      ∀ r, pos ≤ r → r < q → ¬ search <+: json.drop r := by
  rw [find, List.find?_range'_eq_some] at h
  obtain ⟨hPrefix, hMem, hFirst⟩ := h
  rw [List.mem_range'_1] at hMem
  refine ⟨hMem.1, by omega, by simpa using hPrefix, fun r hLow hHigh hr => ?_⟩
  have hNot := hFirst r hLow hHigh
  rw [List.isPrefixOf_iff_prefix.mpr hr] at hNot
  cases hNot

theorem find_none {search : Bytes} {pos : Nat} (h : find json search pos = none) :
    ∀ r, pos ≤ r → r ≤ json.length → ¬ search <+: json.drop r := by
  intro r hLow hHigh hPrefix
  have hNot := List.find?_eq_none.mp h r (by simp [List.mem_range'_1]; omega)
  exact hNot (by simpa using hPrefix)

/-- Between two positions without an occurrence the list scan moves on. -/
theorem scanKey_advance {search : Bytes} {pos q : Nat} (hLow : pos ≤ q) (hHigh : q ≤ json.length)
    (hMiss : ∀ r, pos ≤ r → r < q → ¬ search <+: json.drop r) :
    scanKey search (json.take pos).reverse (json.drop pos) 0 =
      scanKey search (json.take q).reverse (json.drop q) 0 := by
  obtain ⟨n, rfl⟩ := Nat.le.dest hLow
  induction n with
  | zero => rfl
  | succ n ih =>
    have hPos : pos + n < json.length := by omega
    rw [ih (by omega) (by omega) fun r hr hn => hMiss r hr (by omega), drop_lt hPos,
      scanKey_pass (by rw [← drop_lt hPos]; exact hMiss _ (by omega) (by omega)), ← Nat.add_assoc,
      List.take_succ_eq_append_getElem hPos, List.reverse_append]
    rfl

/-- The list scan at an occurrence. -/
theorem scanKey_at {search : Bytes} {q : Nat} (hSearch : search ≠ [])
    (hPrefix : search <+: json.drop q) (hHigh : q ≤ json.length) :
    scanKey search (json.take q).reverse (json.drop q) 0 =
      if atObjectKey (json.take q).reverse then some q
      else scanKey search (json.take (q + search.length)).reverse
        (json.drop (q + search.length)) 0 := by
  obtain ⟨rest, hRest⟩ := hPrefix
  obtain ⟨c, more, rfl⟩ := List.exists_cons_of_ne_nil hSearch
  have hMatch : (c :: more).isPrefixOf (c :: (more ++ rest)) = true := by simp
  have hTake : json.take (q + (c :: more).length) = json.take q ++ (c :: more) := by
    rw [List.take_add, ← hRest, List.take_left]
  have hDrop : json.drop (q + (c :: more).length) = rest := by
    rw [← List.drop_drop, ← hRest, List.drop_left]
  rw [hDrop, hTake, ← hRest, List.cons_append, scanKey, if_pos hMatch]
  have hLength : (json.take q).reverse.length = q := by simp [hHigh]
  rw [hLength, List.length_cons, Nat.add_sub_cancel, scanKey_skip]
  simp

/-- The scope check by position. -/
theorem atObjectKey_eq {q e : Nat} (hEnd : e ≤ json.length)
    (hTrim : slice json 0 e = ((slice json 0 q).reverse.dropWhile isBlank).reverse) :
    atObjectKey (json.take q).reverse =
      if h : 0 < e then json[e - 1] = openBrace || json[e - 1] = comma else true := by
  have hRest : (json.take q).reverse.dropWhile isBlank = (json.take e).reverse := by
    simpa [slice, List.reverse_eq_iff] using (congrArg List.reverse hTrim).symm
  rw [atObjectKey, hRest]
  by_cases h : 0 < e
  · obtain ⟨e, rfl⟩ : ∃ n, e = n + 1 := ⟨e - 1, by omega⟩
    rw [List.take_succ_eq_append_getElem (by omega), List.reverse_append, dif_pos h]
    rfl
  · obtain rfl : e = 0 := by omega
    rfl

theorem findOccurrence_eq (json : Bytes) {search : Bytes} (hSearch : search ≠ []) :
    findOccurrence json search = .ok (scanKey search [] json 0) := by
  have hRun : ∃ r, findOccurrence json search = .ok r ∧ r = scanKey search [] json 0 := by
    refine loop_total
      (fun pos => pos ≤ json.length ∧ scanKey search (json.take pos).reverse (json.drop pos) 0 =
        scanKey search [] json 0)
      _ (fun pos => json.length - pos) (fun pos hInv => ?_) ⟨by omega, rfl⟩ (by omega)
    obtain ⟨hPos, hScan⟩ := hInv
    cases hFind : find json search pos with
    | none =>
      refine .inl ⟨none, rfl, ?_⟩
      rw [← hScan, scanKey_advance hPos le_rfl fun r hr hn => find_none hFind r hr (by omega),
        drop_ge le_rfl]
      rfl
    | some q =>
      -- the list version walks to the occurrence that `find` jumps to
      obtain ⟨hLow, hHigh, hPrefix, hMiss⟩ := find_some hFind
      rw [scanKey_advance hLow hHigh hMiss, scanKey_at hSearch hPrefix hHigh] at hScan
      obtain ⟨e, hTrim, -, hEnd, hSlice⟩ := trimBack_eq isBlank (Nat.zero_le q) hHigh
      rw [atObjectKey_eq (hEnd.trans hHigh) hSlice] at hScan
      have hLength : q + search.length ≤ json.length := by
        have := hPrefix.length_le
        rw [List.length_drop] at this
        omega
      have hPositive : 0 < search.length := List.length_pos_of_ne_nil hSearch
      simp only [hTrim, ok_bind]
      by_cases hFront : e = 0
      · rw [dif_neg (by omega), if_pos rfl] at hScan
        exact .inl ⟨some q, by rw [if_pos hFront]; rfl, hScan⟩
      rw [dif_pos (by omega)] at hScan
      rw [if_neg hFront, charAt_bind (by omega)]
      by_cases hAt : (json[e - 1] = openBrace || json[e - 1] = comma) = true
      · rw [if_pos hAt] at hScan
        exact .inl ⟨some q, by rw [if_pos hAt]; rfl, hScan⟩
      · rw [if_neg hAt] at hScan
        exact .inr ⟨q + search.length, by rw [if_neg hAt]; rfl, ⟨hLength, hScan⟩, by omega⟩
  obtain ⟨r, hLoop, rfl⟩ := hRun
  exact hLoop

theorem findKey_eq (json key : Bytes) : findKey json key = .ok (Pool.findKey json key) := by
  rw [findKey, findOccurrence_eq json (by simp [quoted]), Pool.findKey]
  cases scanKey (quoted key) [] json 0 with
  | none => rfl
  | some pos =>
    simp only [ok_bind, skipWs_eq]
    by_cases hPos : Pool.skipWs json (pos + (quoted key).length) < json.length
    · rw [if_neg (by omega), charAt_bind hPos, List.getElem?_eq_getElem hPos]
      by_cases hColon : json[Pool.skipWs json (pos + (quoted key).length)] = colon
      · rw [if_neg (by simpa using hColon), if_pos (by rw [hColon])]
        rfl
      · rw [if_pos hColon, if_neg (by simpa using hColon)]
        rfl
    · rw [if_pos (by omega), List.getElem?_eq_none (by omega), if_neg (by simp)]
      rfl

theorem skipWs_le {pos : Nat} (h : pos ≤ json.length) : Pool.skipWs json pos ≤ json.length := by
  have hLength := (List.takeWhile_prefix isSpace (l := json.drop pos)).length_le
  rw [List.length_drop] at hLength
  unfold Pool.skipWs
  omega

theorem findKey_le {key : Bytes} {pos : Nat} (h : Pool.findKey json key = some pos) :
    pos ≤ json.length := by
  rw [Pool.findKey] at h
  split at h
  · cases h
  · dsimp only at h
    split at h
    case isTrue hColon =>
      obtain ⟨hLt, -⟩ := List.getElem?_eq_some_iff.mp hColon
      cases h
      exact skipWs_le hLt
    case isFalse => cases h

/-- The rest of the text behind a run of bytes. -/
theorem drop_skip (p : BitVec 8 → Bool) (json : Bytes) (pos : Nat) :
    json.drop (pos + ((json.drop pos).takeWhile p).length) = (json.drop pos).dropWhile p := by
  have hSplit : (json.drop pos).takeWhile p ++ (json.drop pos).dropWhile p = json.drop pos :=
    List.takeWhile_append_dropWhile
  calc json.drop (pos + ((json.drop pos).takeWhile p).length)
      = ((json.drop pos).takeWhile p ++ (json.drop pos).dropWhile p).drop
          ((json.drop pos).takeWhile p).length := by rw [hSplit, List.drop_drop]
    _ = (json.drop pos).dropWhile p := List.drop_left

theorem drop_skipWs (json : Bytes) (pos : Nat) :
    json.drop (Pool.skipWs json pos) = (json.drop pos).dropWhile isSpace := drop_skip isSpace json pos

/-! ## The extractors -/

theorem getString_eq (json key : Bytes) : getString json key = .ok (Pool.getString json key) := by
  rw [getString, findKey_eq, Pool.getString, ok_bind]
  cases Pool.findKey json key with
  | none => rfl
  | some pos =>
    by_cases hPos : pos < json.length
    · simp only [drop_lt hPos, if_neg (Nat.not_le.mpr hPos), charAt_bind hPos]
      by_cases hQuote : json[pos] = quote
      · obtain ⟨e, hCollect, -⟩ := collectString_eq json (pos + 1)
        rw [if_neg (by simpa using hQuote), if_pos hQuote, hCollect]
        rfl
      · rw [if_pos hQuote, if_neg hQuote]
        rfl
    · simp only [drop_ge (Nat.not_lt.mp hPos), if_pos (Nat.not_lt.mp hPos)]
      rfl

/-- A run of bytes without the blanks at its end. -/
theorem trimmed_eq (p : BitVec 8 → Bool) {start : Nat} (hStart : start ≤ json.length) :
    (do
      let pos ← skipWhile p json start
      let stop ← trimBack isBlank json start pos
      substr json start (stop - start)) =
      .ok (trimRight ((json.drop start).takeWhile p)) := by
  have hLength := (List.takeWhile_prefix p (l := json.drop start)).length_le
  rw [List.length_drop] at hLength
  have hRun : slice json start (start + ((json.drop start).takeWhile p).length) =
      (json.drop start).takeWhile p := by
    rw [slice, List.drop_take, Nat.add_sub_cancel_left]
    exact List.prefix_iff_eq_take.mp (List.takeWhile_prefix p) |>.symm
  have hStop : start + ((json.drop start).takeWhile p).length ≤ json.length := by omega
  obtain ⟨stop, hTrim, -, -, hSlice⟩ := trimBack_eq isBlank (Nat.le_add_right start _) hStop
  rw [skipWhile_eq, ok_bind, hTrim, ok_bind, substr_slice hStart, hSlice, hRun]
  rfl

theorem getRaw_eq (json key : Bytes) : getRaw json key = .ok (Pool.getRaw json key) := by
  rw [getRaw, findKey_eq, Pool.getRaw, ok_bind]
  cases hFind : Pool.findKey json key with
  | none => rfl
  | some pos => exact trimmed_eq _ (findKey_le hFind)

theorem rawToken_eq {start : Nat} (hStart : start ≤ json.length) :
    rawToken json start = .ok (trimRight ((json.drop start).takeWhile isElementByte)) :=
  trimmed_eq isElementByte hStart

theorem getArrayFirst_eq (json key : Bytes) :
    getArrayFirst json key = .ok (Pool.getArrayFirst json key) := by
  rw [getArrayFirst, findKey_eq, Pool.getArrayFirst, ok_bind]
  cases hFind : Pool.findKey json key with
  | none => rfl
  | some pos =>
    simp only [skipWs_eq, ok_bind, ← drop_skipWs]
    generalize Pool.skipWs json pos = start
    by_cases hStart : start < json.length
    · simp only [drop_lt hStart, if_neg (Nat.not_le.mpr hStart), charAt_bind hStart]
      by_cases hOpen : json[start] = openBracket
      · rw [if_neg (by simpa using hOpen), if_pos hOpen, ← drop_skipWs]
        generalize Pool.skipWs json (start + 1) = first
        by_cases hFirst : first < json.length
        · simp only [drop_lt hFirst, if_neg (Nat.not_le.mpr hFirst), charAt_bind hFirst]
          by_cases hQuote : json[first] = quote
          · obtain ⟨e, hSkip, -, hSlice, -⟩ := skipToQuote_eq json (first + 1)
            rw [if_pos hQuote, if_pos hQuote, hSkip, ok_bind, substr_slice hFirst, hSlice]
          · rw [if_neg hQuote, if_neg hQuote, rawToken_eq (by omega), drop_lt hFirst]
        · simp only [drop_ge (Nat.not_lt.mp hFirst), if_pos (Nat.not_lt.mp hFirst)]
          rfl
      · rw [if_pos hOpen, if_neg hOpen]
        rfl
    · simp only [drop_ge (Nat.not_lt.mp hStart), if_pos (Nat.not_lt.mp hStart)]
      rfl

/-! ## Arrays -/

theorem skipString_length {text rest : Bytes} (h : Pool.skipString text = some rest) :
    rest.length < text.length := by
  fun_induction Pool.skipString text with
  | case1 => cases h
  | case2 rest' =>
    cases h
    simp
  | case3 => cases h
  | case4 hc e rest' ih =>
    have := ih h
    simp
    omega
  | case5 c rest' hc hb ih =>
    have := ih h
    simp
    omega

/-- What a round of the array loops finds. -/
inductive Entry
  | stop
  | comma (rest : Bytes)
  | string (rest : Bytes)
  | token (text : Bytes)

def entry (text : Bytes) : Entry :=
  match text.dropWhile isSpace with
  | [] => .stop
  | c :: rest =>
    if c = closeBracket then .stop
    else if c = Json.comma then .comma rest
    else if c = quote then .string rest
    else .token (c :: rest)

theorem arrayElement_entry (index fuel cur : Nat) (text : Bytes) :
    arrayElement index (fuel + 1) cur text =
      match entry text with
      | .stop => []
      | .comma rest => arrayElement index fuel cur rest
      | .string rest =>
        if cur = index then readString rest
        else
          match Pool.skipString rest with
          | none => []
          | some rest => arrayElement index fuel (cur + 1) rest
      | .token text =>
        if cur = index then trimRight (text.takeWhile isElementByte)
        else arrayElement index fuel (cur + 1) (text.dropWhile isElementByte) := by
  rw [arrayElement, entry]
  cases text.dropWhile isSpace with
  | nil => rfl
  | cons c rest => grind

theorem strArray_entry (fuel : Nat) (text : Bytes) :
    strArray (fuel + 1) text =
      match entry text with
      | .stop => []
      | .comma rest => strArray fuel rest
      | .string rest => readString rest :: strArray fuel ((Pool.skipString rest).getD [])
      | .token text => strArray fuel (text.dropWhile isElementByte) := by
  rw [strArray, entry]
  cases text.dropWhile isSpace with
  | nil => rfl
  | cons c rest => grind

/-- A byte at which an element starts. -/
theorem isElementByte_of_ne {c : BitVec 8} (hSpace : isSpace c = false) (hClose : c ≠ closeBracket)
    (hComma : c ≠ comma) : isElementByte c = true :=
  isElementByte_iff.mpr ⟨hComma, hClose, isBlank_of_not_isSpace hSpace⟩

/-- What a round leaves is shorter than the text. -/
def Entry.Shorter (n : Nat) : Entry → Prop
  | .stop => True
  | .comma rest => rest.length < n
  | .string rest => rest.length < n
  | .token text => text.length ≤ n ∧ (text.dropWhile isElementByte).length < n

theorem entry_shorter (text : Bytes) : (entry text).Shorter text.length := by
  rw [entry]
  cases hText : text.dropWhile isSpace with
  | nil => trivial
  | cons c rest =>
    have hLength := (List.dropWhile_suffix isSpace (l := text)).length_le
    rw [hText, List.length_cons] at hLength
    have hSpace : isSpace c = false := by
      have hHead := List.head?_dropWhile_not isSpace text
      simpa [hText] using hHead
    dsimp only
    split_ifs with hClose hComma hQuote
    · trivial
    · exact hLength
    · exact hLength
    · have hc := isElementByte_of_ne hSpace hClose hComma
      have hRest := (List.dropWhile_suffix isElementByte (l := rest)).length_le
      refine ⟨hLength, ?_⟩
      rw [List.dropWhile_cons_of_pos hc]
      omega

/-- Fuel beyond the length of the text does not matter. -/
theorem arrayElement_fuel (index : Nat) {fuel fuel' : Nat} (cur : Nat) {text : Bytes}
    (h : text.length < fuel) (h' : text.length < fuel') :
    arrayElement index fuel cur text = arrayElement index fuel' cur text := by
  induction fuel generalizing fuel' cur text with
  | zero => omega
  | succ fuel ih =>
    obtain ⟨fuel', rfl⟩ : ∃ n, fuel' = n + 1 := ⟨fuel' - 1, by omega⟩
    have hShort := entry_shorter text
    rw [arrayElement_entry, arrayElement_entry]
    cases hEntry : entry text with
    | stop => rfl
    | comma rest =>
      rw [hEntry] at hShort
      simp only [Entry.Shorter] at hShort
      exact ih cur (by omega) (by omega)
    | string rest =>
      rw [hEntry] at hShort
      simp only [Entry.Shorter] at hShort
      cases hSkip : Pool.skipString rest with
      | none => simp only [hSkip]
      | some more =>
        have := skipString_length hSkip
        have hMore : arrayElement index fuel (cur + 1) more =
            arrayElement index fuel' (cur + 1) more := ih (cur + 1) (by omega) (by omega)
        simp only [hSkip, hMore]
    | token token =>
      rw [hEntry] at hShort
      simp only [Entry.Shorter] at hShort
      have hMore : arrayElement index fuel (cur + 1) (token.dropWhile isElementByte) =
          arrayElement index fuel' (cur + 1) (token.dropWhile isElementByte) :=
        ih (cur + 1) (by omega) (by omega)
      simp only [hMore]

theorem strArray_fuel {fuel fuel' : Nat} {text : Bytes} (h : text.length < fuel)
    (h' : text.length < fuel') : strArray fuel text = strArray fuel' text := by
  induction fuel generalizing fuel' text with
  | zero => omega
  | succ fuel ih =>
    obtain ⟨fuel', rfl⟩ : ∃ n, fuel' = n + 1 := ⟨fuel' - 1, by omega⟩
    have hShort := entry_shorter text
    rw [strArray_entry, strArray_entry]
    cases hEntry : entry text with
    | stop => rfl
    | comma rest =>
      rw [hEntry] at hShort
      simp only [Entry.Shorter] at hShort
      exact ih (by omega) (by omega)
    | string rest =>
      rw [hEntry] at hShort
      simp only [Entry.Shorter] at hShort
      have hRest : ((Pool.skipString rest).getD []).length ≤ rest.length := by
        cases hSkip : Pool.skipString rest with
        | none => simp
        | some more => exact (skipString_length hSkip).le
      exact congrArg _ (ih (by omega) (by omega))
    | token token =>
      rw [hEntry] at hShort
      simp only [Entry.Shorter] at hShort
      exact ih (by omega) (by omega)

/-- Where the head of an array loop stops, and what it has found there. -/
theorem entryAt_eq (json : Bytes) (pos : Nat) :
    (entryAt json pos = .ok none ∧ entry (json.drop pos) = .stop) ∨
      ∃ (q : Nat) (hq : q < json.length), pos ≤ q ∧ entryAt json pos = .ok (some (q, json[q])) ∧
        isSpace json[q] = false ∧ json[q] ≠ closeBracket ∧
        entry (json.drop pos) =
          if json[q] = comma then .comma (json.drop (q + 1))
          else if json[q] = quote then .string (json.drop (q + 1))
          else .token (json.drop q) := by
  by_cases hPos : pos < json.length
  · have hDrop := drop_skipWs json pos
    have hLow : pos ≤ Pool.skipWs json pos := Nat.le_add_right _ _
    rw [entryAt, if_pos hPos, charAt_bind hPos, entry, ← hDrop]
    by_cases hFirst : json[pos] = closeBracket
    · -- the closing bracket is no white space
      have hSame : Pool.skipWs json pos = pos := by
        rw [Pool.skipWs, drop_lt hPos, hFirst, List.takeWhile_cons_of_neg (by decide)]
        rfl
      left
      rw [if_pos hFirst, hSame, drop_lt hPos]
      simp only [hFirst, if_true]
      exact ⟨rfl, trivial⟩
    rw [if_neg hFirst, skipWs_eq, ok_bind]
    by_cases hq : Pool.skipWs json pos < json.length
    · have hSpace : isSpace json[Pool.skipWs json pos] = false := by
        have hHead := List.head?_dropWhile_not isSpace (json.drop pos)
        rw [← hDrop, drop_lt hq] at hHead
        exact hHead
      rw [if_neg (by omega), charAt_bind hq, drop_lt hq]
      by_cases hClose : json[Pool.skipWs json pos] = closeBracket
      · left
        simp only [hClose, if_true]
        exact ⟨rfl, trivial⟩
      · right
        refine ⟨_, hq, hLow, by rw [if_neg hClose]; rfl, hSpace, hClose, ?_⟩
        simp only [if_neg hClose, drop_lt hq]
    · left
      rw [if_pos (by omega), drop_ge (by omega)]
      exact ⟨rfl, rfl⟩
  · left
    rw [entryAt, if_neg hPos, entry, drop_ge (by omega)]
    exact ⟨rfl, rfl⟩

/-- A run of element bytes is passed, and it is not empty. -/
theorem skipElement_eq {q : Nat} (hq : q < json.length) (hSpace : isSpace json[q] = false)
    (hClose : json[q] ≠ closeBracket) (hComma : json[q] ≠ comma) :
    ∃ e, skipWhile isElementByte json q = .ok e ∧ q < e ∧ e ≤ json.length ∧
      json.drop e = (json.drop q).dropWhile isElementByte := by
  refine ⟨_, skipWhile_eq isElementByte json q, ?_, ?_, drop_skip isElementByte json q⟩
  · rw [drop_lt hq, List.takeWhile_cons_of_pos (isElementByte_of_ne hSpace hClose hComma)]
    simp
  · have hLength := (List.takeWhile_prefix isElementByte (l := json.drop q)).length_le
    rw [List.length_drop] at hLength
    omega

theorem strArray_scan (json : Bytes) (pos : Nat) :
    scan json (strArrayRound json) (pos, []) =
      .ok (strArray ((json.drop pos).length + 1) (json.drop pos)) := by
  have hRun : ∃ r, scan json (strArrayRound json) (pos, []) = .ok r ∧
      r = strArray ((json.drop pos).length + 1) (json.drop pos) := by
    refine loop_total
      (fun s : Nat × List Bytes => s.2 ++ strArray ((json.drop s.1).length + 1) (json.drop s.1) =
        strArray ((json.drop pos).length + 1) (json.drop pos))
      _ (fun s => json.length - s.1) (fun s hInv => ?_) rfl (by simp only; omega)
    obtain ⟨pos, result⟩ := s
    simp only at hInv ⊢
    rw [strArray_entry] at hInv
    rcases entryAt_eq json pos with ⟨hAt, hEntry⟩ | ⟨q, hq, hLow, hAt, hSpace, hClose, hEntry⟩
    · left
      rw [hEntry] at hInv
      exact ⟨result, by rw [strArrayRound, hAt]; rfl, by simpa using hInv⟩
    · right
      -- the rest of the text is shorter, so it can be given the fuel of its own length
      have hFuel {e : Nat} (he : q < e) : strArray (json.drop pos).length (json.drop e) =
          strArray ((json.drop e).length + 1) (json.drop e) :=
        strArray_fuel (by simp only [List.length_drop]; omega) (by omega)
      rw [strArrayRound, hAt, ok_bind]
      by_cases hComma : json[q] = comma
      · rw [hEntry, if_pos hComma] at hInv
        refine ⟨(q + 1, result), by simp only [if_pos hComma]; rfl, ?_, by simp only; omega⟩
        simp only [hFuel (show q < q + 1 by omega)] at hInv
        exact hInv
      by_cases hQuote : json[q] = quote
      · obtain ⟨e, hCollect, hAfter, hSkip⟩ := collectString_eq json (q + 1)
        rw [hEntry, if_neg hComma, if_pos hQuote] at hInv
        have hRest : (Pool.skipString (json.drop (q + 1))).getD [] =
            json.drop (if e < json.length then e + 1 else e) := by
          rw [hSkip]
          split_ifs with hEnd
          · rfl
          · exact (drop_ge (by omega)).symm
        have hLater : q < if e < json.length then e + 1 else e := by
          split_ifs <;> omega
        refine ⟨(if e < json.length then e + 1 else e,
            result ++ [readString (json.drop (q + 1))]), ?_, ?_, by simp only; omega⟩
        · simp only [if_neg hComma, if_pos hQuote, hCollect]
          rfl
        · simp only [hRest, hFuel hLater] at hInv
          rw [← hInv]
          simp
      · obtain ⟨e, hSkip, hAfter, -, hDrop⟩ := skipElement_eq hq hSpace hClose hComma
        rw [hEntry, if_neg hComma, if_neg hQuote] at hInv
        refine ⟨(e, result), ?_, ?_, by simp only; omega⟩
        · simp only [if_neg hComma, if_neg hQuote, hSkip]
          rfl
        · simp only [← hDrop, hFuel hAfter] at hInv
          exact hInv
  obtain ⟨r, hScan, rfl⟩ := hRun
  exact hScan

theorem getStrArray_eq (json key : Bytes) :
    getStrArray json key = .ok (Pool.getStrArray json key) := by
  rw [getStrArray, findKey_eq, Pool.getStrArray, ok_bind]
  cases hFind : Pool.findKey json key with
  | none => rfl
  | some pos =>
    simp only [skipWs_eq, ok_bind, ← drop_skipWs]
    generalize Pool.skipWs json pos = start
    by_cases hStart : start < json.length
    · simp only [drop_lt hStart, if_neg (Nat.not_le.mpr hStart), charAt_bind hStart]
      by_cases hOpen : json[start] = openBracket
      · rw [if_neg (by simpa using hOpen), if_pos hOpen]
        exact strArray_scan json (start + 1)
      · rw [if_pos hOpen, if_neg hOpen]
        rfl
    · simp only [drop_ge (Nat.not_lt.mp hStart), if_pos (Nat.not_lt.mp hStart)]
      rfl

theorem arrayElement_scan (json : Bytes) (index pos : Nat) :
    scan json (arrayElementRound json index) (pos, 0) =
      .ok (arrayElement index ((json.drop pos).length + 1) 0 (json.drop pos)) := by
  have hRun : ∃ r, scan json (arrayElementRound json index) (pos, 0) = .ok r ∧
      r = arrayElement index ((json.drop pos).length + 1) 0 (json.drop pos) := by
    refine loop_total
      (fun s : Nat × Nat =>
        arrayElement index ((json.drop s.1).length + 1) s.2 (json.drop s.1) =
          arrayElement index ((json.drop pos).length + 1) 0 (json.drop pos))
      _ (fun s => json.length - s.1) (fun s hInv => ?_) rfl (by simp only; omega)
    obtain ⟨pos, cur⟩ := s
    simp only at hInv ⊢
    rw [arrayElement_entry] at hInv
    rcases entryAt_eq json pos with ⟨hAt, hEntry⟩ | ⟨q, hq, hLow, hAt, hSpace, hClose, hEntry⟩
    · left
      rw [hEntry] at hInv
      exact ⟨[], by rw [arrayElementRound, hAt]; rfl, hInv⟩
    -- the list version recurses on fuel, which is enough as long as the text gets shorter
    have hFuel {e : Nat} (he : q < e) (cur : Nat) :
        arrayElement index (json.drop pos).length cur (json.drop e) =
          arrayElement index ((json.drop e).length + 1) cur (json.drop e) :=
      arrayElement_fuel index cur (by simp only [List.length_drop]; omega) (by omega)
    rw [arrayElementRound, hAt, ok_bind]
    by_cases hComma : json[q] = comma
    · right
      rw [hEntry, if_pos hComma] at hInv
      refine ⟨(q + 1, cur), by simp only [if_pos hComma]; rfl, ?_, by simp only; omega⟩
      simp only [hFuel (show q < q + 1 by omega)] at hInv
      exact hInv
    by_cases hQuote : json[q] = quote
    · rw [hEntry, if_neg hComma, if_pos hQuote] at hInv
      by_cases hIndex : cur = index
      · obtain ⟨e, hCollect, -⟩ := collectString_eq json (q + 1)
        simp only [if_pos hIndex] at hInv
        refine .inl ⟨readString (json.drop (q + 1)), ?_, hInv⟩
        simp only [if_neg hComma, if_pos hIndex, if_pos hQuote, hCollect]
        rfl
      · obtain ⟨r, hSkip, hRest, hAfter⟩ := skipString_eq hq hQuote
        simp only [if_neg hIndex, ← hRest] at hInv
        simp only [if_neg hComma, if_neg hIndex, if_pos hQuote, hSkip]
        cases r with
        | none => exact .inl ⟨[], rfl, hInv⟩
        | some e =>
          have := hAfter e rfl
          refine .inr ⟨(e, cur + 1), rfl, ?_, by simp only; omega⟩
          rw [← hInv]
          exact (hFuel this.1 (cur + 1)).symm
    · rw [hEntry, if_neg hComma, if_neg hQuote] at hInv
      by_cases hIndex : cur = index
      · simp only [if_pos hIndex] at hInv
        refine .inl ⟨trimRight ((json.drop q).takeWhile isElementByte), ?_, hInv⟩
        simp only [if_neg hComma, if_pos hIndex, if_neg hQuote, rawToken_eq hq.le]
        rfl
      · obtain ⟨e, hSkip, hAfter, -, hDrop⟩ := skipElement_eq hq hSpace hClose hComma
        simp only [if_neg hIndex, ← hDrop, hFuel hAfter] at hInv
        refine .inr ⟨(e, cur + 1), ?_, hInv, by simp only; omega⟩
        simp only [if_neg hComma, if_neg hIndex, if_neg hQuote, hSkip]
        rfl
  obtain ⟨r, hScan, rfl⟩ := hRun
  exact hScan

theorem getArrayElement_eq (json key : Bytes) (index : Nat) :
    getArrayElement json key index = .ok (Pool.getArrayElement json key index) := by
  rw [getArrayElement, findKey_eq, Pool.getArrayElement, ok_bind]
  cases hFind : Pool.findKey json key with
  | none => rfl
  | some pos =>
    simp only [skipWs_eq, ok_bind, ← drop_skipWs]
    generalize Pool.skipWs json pos = start
    by_cases hStart : start < json.length
    · simp only [drop_lt hStart, if_neg (Nat.not_le.mpr hStart), charAt_bind hStart]
      by_cases hOpen : json[start] = openBracket
      · rw [if_neg (by simpa using hOpen), if_pos hOpen]
        exact arrayElement_scan json index (start + 1)
      · rw [if_pos hOpen, if_neg hOpen]
        rfl
    · simp only [drop_ge (Nat.not_lt.mp hStart), if_pos (Nat.not_lt.mp hStart)]
      rfl

/-! ## Objects -/

/-- The number of backslashes in front of a position. -/
def backslashes (json : Bytes) (pos : Nat) : Nat :=
  ((json.take pos).reverse.takeWhile (· = backslash)).length

/-- An odd number of backslashes stands in front. -/
def escapedAt (json : Bytes) (pos : Nat) : Bool := backslashes json pos % 2 ≠ 0

theorem backslashes_succ {pos : Nat} (h : pos < json.length) :
    backslashes json (pos + 1) =
      if json[pos] = backslash then backslashes json pos + 1 else 0 := by
  rw [backslashes, List.take_succ_eq_append_getElem h, List.reverse_append]
  by_cases hc : json[pos] = backslash <;> simp [hc, backslashes]

theorem escapedAt_succ {pos : Nat} (h : pos < json.length) :
    escapedAt json (pos + 1) = (json[pos] = backslash && !escapedAt json pos) := by
  rw [escapedAt, escapedAt, backslashes_succ h]
  by_cases hc : json[pos] = backslash
  · rcases Nat.mod_two_eq_zero_or_one (backslashes json pos) with hEven | hOdd
    · simp [hc, hEven, Nat.add_mod]
    · simp [hc, hOdd, Nat.add_mod]
  · simp [hc]

theorem countBackslashes_eq {pos : Nat} (h : pos ≤ json.length) :
    countBackslashes json pos = .ok (backslashes json pos) := by
  have hRun : ∃ r, countBackslashes json pos = .ok r ∧ r = backslashes json pos := by
    refine loop_total
      (fun s : Nat × Nat => s.1 ≤ json.length ∧ s.2 + backslashes json s.1 = backslashes json pos)
      _ (fun s => s.1) (fun s hInv => ?_) ⟨h, Nat.zero_add _⟩ (by simp only; omega)
    obtain ⟨i, count⟩ := s
    obtain ⟨hLe, hCount⟩ := hInv
    simp only at hLe hCount ⊢
    cases i with
    | zero => exact .inl ⟨count, rfl, hCount⟩
    | succ i =>
      have hi : i < json.length := by omega
      rw [if_pos (by omega), Nat.add_sub_cancel, charAt_bind hi]
      rw [backslashes_succ hi] at hCount
      by_cases hc : json[i] = backslash
      · rw [if_pos hc] at hCount
        refine .inr ⟨(i, count + 1), by rw [if_pos hc]; rfl, ⟨by simp only; omega, ?_⟩, by simp⟩
        simp only
        omega
      · rw [if_neg hc, Nat.add_zero] at hCount
        exact .inl ⟨count, by rw [if_neg hc]; rfl, hCount⟩
  obtain ⟨r, hScan, rfl⟩ := hRun
  exact hScan

theorem isEscaped_eq {pos : Nat} (h : pos ≤ json.length) :
    isEscaped json pos = .ok (escapedAt json pos) := by
  rw [isEscaped]
  by_cases hZero : pos = 0
  · subst hZero
    rfl
  · rw [if_neg hZero, countBackslashes_eq h]
    rfl

/-- One character of the list version of the loop, at a depth that is not zero. -/
theorem objectText_cons (opening closing : BitVec 8) {depth : Nat} (hDepth : 0 < depth)
    (inString escaped : Bool) (c : BitVec 8) (rest : Bytes) :
    objectText opening closing depth inString escaped (c :: rest) =
      c :: objectText opening closing
        (if c = quote && !escaped || inString then depth
          else if c = opening then depth + 1 else if c = closing then depth - 1 else depth)
        (if c = quote && !escaped then !inString else inString) (c = backslash && !escaped)
        rest := by
  obtain ⟨depth, rfl⟩ : ∃ n, depth = n + 1 := ⟨depth - 1, by omega⟩
  rw [objectText]
  by_cases hQuote : (c = quote && !escaped) = true
  · simp only [hQuote, if_true, Bool.true_or]
  · cases inString
    · simp only [Bool.not_eq_true _ ▸ hQuote, Bool.or_false, Bool.false_eq_true,
        if_false, Nat.add_sub_cancel]
      split_ifs <;> rfl
    · simp only [if_neg hQuote, Bool.or_true, if_true]

/-- One character of the loop, at a depth that is not zero. -/
theorem objectRound_eq (opening closing : BitVec 8) {pos depth : Nat} (hPos : pos < json.length)
    (hDepth : 0 < depth) (inString : Bool) :
    objectRound json opening closing (pos, depth, inString) =
      .ok (.again (pos + 1,
        if json[pos] = quote && !escapedAt json pos || inString then depth
          else if json[pos] = opening then depth + 1
          else if json[pos] = closing then depth - 1 else depth,
        if json[pos] = quote && !escapedAt json pos then !inString else inString)) := by
  rw [objectRound, if_pos (by simp [hPos, hDepth]), charAt_bind hPos]
  by_cases hQuote : json[pos] = quote
  · rw [if_pos hQuote, isEscaped_eq hPos.le, ok_bind]
    generalize escapedAt json pos = escaped
    cases escaped <;> cases inString <;> simp only [hQuote] <;> simp <;> (repeat' split) <;> rfl
  · rw [if_neg hQuote]
    cases inString <;> simp [hQuote] <;> (repeat' split) <;> rfl

/-- The scan of `get_object` takes the text that the list version takes. -/
theorem object_scan (opening closing : BitVec 8) {start : Nat} (hStart : start < json.length)
    (hBackslash : json[start] ≠ backslash) :
    ∃ stop, scan json (objectRound json opening closing) (start + 1, 1, false) = .ok stop ∧
      slice json start stop =
        json[start] :: objectText opening closing 1 false false (json.drop (start + 1)) := by
  refine loop_total
    (fun s : Nat × Nat × Bool => start < s.1 ∧ s.1 ≤ json.length ∧
      slice json start s.1 ++
          objectText opening closing s.2.1 s.2.2 (escapedAt json s.1) (json.drop s.1) =
        json[start] :: objectText opening closing 1 false false (json.drop (start + 1)))
    _ (fun s => json.length - s.1) (fun s hInv => ?_) ⟨?_, ?_, ?_⟩ (by simp only; omega)
  · obtain ⟨pos, depth, inString⟩ := s
    obtain ⟨hLow, hHigh, hText⟩ := hInv
    simp only at hLow hHigh hText ⊢
    by_cases hMore : pos < json.length ∧ 0 < depth
    · obtain ⟨hPos, hDepth⟩ := hMore
      rw [drop_lt hPos, objectText_cons _ _ hDepth] at hText
      refine .inr ⟨_, objectRound_eq opening closing hPos hDepth inString, ⟨?_, hPos, ?_⟩, ?_⟩
      · simp only
        omega
      · rw [← hText, slice_succ hLow.le hPos, escapedAt_succ hPos]
        simp
      · simp only
        omega
    · -- the text is at its end, or the bracket that closes the value is passed
      refine .inl ⟨pos, by rw [objectRound, if_neg (by simpa using hMore)]; rfl, ?_⟩
      have hNothing : objectText opening closing depth inString (escapedAt json pos)
          (json.drop pos) = [] := by
        by_cases hPos : pos < json.length
        · obtain rfl : depth = 0 := by
            by_contra hDepth
            exact hMore ⟨hPos, by omega⟩
          exact objectText_zero ..
        · rw [drop_ge (by omega), objectText_nil]
      rw [← hText, hNothing, List.append_nil]
  · simp
  · exact hStart
  · have hEscaped : escapedAt json (start + 1) = false := by
      rw [escapedAt_succ hStart]
      simp [hBackslash]
    rw [slice_succ le_rfl hStart, slice_self, hEscaped]
    rfl

theorem getObject_eq (json key : Bytes) : getObject json key = .ok (Pool.getObject json key) := by
  rw [getObject, findKey_eq, Pool.getObject, ok_bind]
  cases hFind : Pool.findKey json key with
  | none => rfl
  | some start =>
    by_cases hStart : start < json.length
    · simp only [drop_lt hStart, if_neg (Nat.not_le.mpr hStart), charAt_bind hStart]
      by_cases hBrace : json[start] = openBrace
      · obtain ⟨stop, hScan, hSlice⟩ := object_scan openBrace closeBrace hStart
          (by rw [hBrace]; decide)
        rw [if_neg (by simp [hBrace]), if_pos hBrace, if_pos hBrace, hBrace, hScan, ok_bind,
          substr_slice hStart.le, hSlice, hBrace]
      · by_cases hBracket : json[start] = openBracket
        · obtain ⟨stop, hScan, hSlice⟩ := object_scan openBracket closeBracket hStart
            (by rw [hBracket]; decide)
          rw [if_neg (by simp [hBracket]), if_neg hBrace, if_neg hBrace, if_pos hBracket, hBracket,
            hScan, ok_bind, substr_slice hStart.le, hSlice, hBracket]
        · rw [if_pos (by simp [hBrace, hBracket]), if_neg hBrace, if_neg hBracket]
          rfl
    · simp only [drop_ge (Nat.not_lt.mp hStart), if_pos (Nat.not_lt.mp hStart)]
      rfl

/-! ## The sizes of the results -/

/-- A string and what stands behind it fit into the text they are read from. -/
theorem readString_length (text : Bytes) :
    (readString text).length + ((Pool.skipString text).getD []).length ≤ text.length := by
  fun_induction Pool.skipString text with
  | case1 => simp [readString]
  | case2 rest => simp [readString_close]
  | case3 => simp [readString]
  | case4 hc e rest ih =>
    rw [readString_backslash]
    simp only [List.length_cons]
    omega
  | case5 c rest hc hb ih =>
    rw [readString_plain hc hb]
    simp only [List.length_cons]
    omega

theorem trimRight_length (text : Bytes) : (trimRight text).length ≤ text.length := by
  have := (List.dropWhile_suffix isBlank (l := text.reverse)).length_le
  simpa [trimRight] using this

theorem rawString_length (text : Bytes) : (rawString text).length ≤ text.length := by
  fun_induction rawString text with
  | case1 => simp
  | case2 => simp
  | case3 => simp
  | case4 hc e rest ih => simpa using ih
  | case5 c rest hc hb ih => simpa using ih

theorem objectText_length (opening closing : BitVec 8) (depth : Nat) (inString escaped : Bool)
    (text : Bytes) :
    (objectText opening closing depth inString escaped text).length ≤ text.length := by
  induction text generalizing depth inString escaped with
  | nil => simp
  | cons c rest ih =>
    cases depth with
    | zero => simp
    | succ depth =>
      rw [objectText_cons _ _ (Nat.succ_pos depth)]
      simpa using ih _ _ _

theorem takeWhile_length (p : BitVec 8 → Bool) (text : Bytes) :
    (trimRight (text.takeWhile p)).length ≤ text.length :=
  (trimRight_length _).trans (List.takeWhile_prefix p).length_le

theorem arrayElement_length (index fuel cur : Nat) (text : Bytes) :
    (arrayElement index fuel cur text).length ≤ text.length := by
  induction fuel generalizing cur text with
  | zero => simp [arrayElement]
  | succ fuel ih =>
    have hShort := entry_shorter text
    rw [arrayElement_entry]
    cases hEntry : entry text with
    | stop => simp
    | comma rest =>
      rw [hEntry] at hShort
      exact (ih cur rest).trans hShort.le
    | string rest =>
      rw [hEntry] at hShort
      have hRead := readString_length rest
      simp only [Entry.Shorter] at hShort ⊢
      split_ifs
      · omega
      · cases hSkip : Pool.skipString rest with
        | none => simp
        | some more =>
          have := skipString_length hSkip
          have := ih (cur + 1) more
          simp only
          omega
    | token token =>
      rw [hEntry] at hShort
      simp only
      split_ifs
      · exact (takeWhile_length isElementByte token).trans hShort.1
      · exact (ih (cur + 1) _).trans hShort.2.le

/-- The strings of an array and their opening quotes fit into its text. -/
theorem strArray_length (fuel : Nat) (text : Bytes) :
    ((strArray fuel text).map List.length).sum + (strArray fuel text).length ≤ text.length := by
  induction fuel generalizing text with
  | zero => simp [strArray]
  | succ fuel ih =>
    have hShort := entry_shorter text
    rw [strArray_entry]
    cases hEntry : entry text with
    | stop => simp
    | comma rest =>
      rw [hEntry] at hShort
      exact (ih rest).trans hShort.le
    | string rest =>
      rw [hEntry] at hShort
      have hRead := readString_length rest
      have hMore := ih ((Pool.skipString rest).getD [])
      simp only [Entry.Shorter] at hShort
      simp only [List.map_cons, List.sum_cons, List.length_cons]
      omega
    | token token =>
      rw [hEntry] at hShort
      exact (ih _).trans hShort.2.le

theorem getString_length (json key : Bytes) : (Pool.getString json key).length ≤ json.length := by
  rw [Pool.getString]
  split
  · simp
  · rename_i pos _
    have hDrop : (json.drop pos).length ≤ json.length := by simp
    split
    · simp
    · rename_i c rest hRest
      have hRead := readString_length rest
      rw [hRest, List.length_cons] at hDrop
      split_ifs
      · omega
      · simp

theorem getRaw_length (json key : Bytes) : (Pool.getRaw json key).length ≤ json.length := by
  rw [Pool.getRaw]
  split
  · simp
  · exact (takeWhile_length _ _).trans (by simp)

/-- What the array extractors are given is shorter than the text. -/
theorem dropWhile_drop_length {pos : Nat} {c : BitVec 8} {rest : Bytes}
    (h : (json.drop pos).dropWhile isSpace = c :: rest) : rest.length < json.length := by
  have hLength := (List.dropWhile_suffix isSpace (l := json.drop pos)).length_le
  rw [h, List.length_cons, List.length_drop] at hLength
  omega

theorem getArrayFirst_length (json key : Bytes) :
    (Pool.getArrayFirst json key).length ≤ json.length := by
  rw [Pool.getArrayFirst]
  split
  · simp
  · split
    · simp
    · rename_i c rest hRest
      have hOuter := dropWhile_drop_length hRest
      split_ifs
      · split
        · simp
        · rename_i c' rest' hRest'
          have hInner := (List.dropWhile_suffix isSpace (l := rest)).length_le
          rw [hRest'] at hInner
          split_ifs
          · have := rawString_length rest'
            simp only [List.length_cons] at hInner
            omega
          · exact (takeWhile_length _ _).trans (by omega)
      · simp

theorem getStrArray_length (json key : Bytes) :
    ((Pool.getStrArray json key).map List.length).sum + (Pool.getStrArray json key).length ≤
      json.length := by
  rw [Pool.getStrArray]
  split
  · simp
  · split
    · simp
    · rename_i c rest hRest
      split_ifs
      · exact (strArray_length _ rest).trans (dropWhile_drop_length hRest).le
      · simp

theorem getArrayElement_length (json key : Bytes) (index : Nat) :
    (Pool.getArrayElement json key index).length ≤ json.length := by
  rw [Pool.getArrayElement]
  split
  · simp
  · split
    · simp
    · rename_i c rest hRest
      split_ifs
      · exact (arrayElement_length index _ 0 rest).trans (dropWhile_drop_length hRest).le
      · simp

theorem getObject_length (json key : Bytes) : (Pool.getObject json key).length ≤ json.length := by
  rw [Pool.getObject]
  split
  · simp
  · rename_i pos _
    have hDrop : (json.drop pos).length ≤ json.length := by simp
    split
    · simp
    · rename_i c rest hRest
      rw [hRest, List.length_cons] at hDrop
      split_ifs
      · have := objectText_length openBrace closeBrace 1 false false rest
        simp only [List.length_cons]
        omega
      · have := objectText_length openBracket closeBracket 1 false false rest
        simp only [List.length_cons]
        omega
      · simp

/-- **Hostile input.** On every byte string, for every key and every index, each
extractor returns: no loop runs on, no access is behind the end of the string
and no cut starts there. What it returns is no longer than the string; the
strings of `get_str_array` are so together. -/
theorem extractors_total (json key : Bytes) (index : Nat) :
    (∃ r, getString json key = .ok r ∧ r.length ≤ json.length) ∧
      (∃ r, getRaw json key = .ok r ∧ r.length ≤ json.length) ∧
      (∃ r, getArrayFirst json key = .ok r ∧ r.length ≤ json.length) ∧
      (∃ r, getStrArray json key = .ok r ∧
        (r.map List.length).sum + r.length ≤ json.length) ∧
      (∃ r, getArrayElement json key index = .ok r ∧ r.length ≤ json.length) ∧
      ∃ r, getObject json key = .ok r ∧ r.length ≤ json.length :=
  ⟨⟨_, getString_eq json key, getString_length json key⟩,
    ⟨_, getRaw_eq json key, getRaw_length json key⟩,
    ⟨_, getArrayFirst_eq json key, getArrayFirst_length json key⟩,
    ⟨_, getStrArray_eq json key, getStrArray_length json key⟩,
    ⟨_, getArrayElement_eq json key index, getArrayElement_length json key index⟩,
    ⟨_, getObject_eq json key, getObject_length json key⟩⟩

/-- A trailing lone backslash takes the position one behind the end. -/
example : skipToQuote (bytes "a\\") 1 = .ok 3 := by decide +kernel

end ArmRx.Pool.Checked
