import ArmRx.Lib.Loop
import ArmRx.Pool.FindKey

/-!
# The scanners, access by access

The extractors of `src/json.cpp` as loops over positions: every `json[pos]` is
a checked access and every `substr` a checked cut. `std::string` allows the
access at `size()`, where it finds a NUL, and a cut that starts there.

A loop that is still running after `size() + 1` rounds is an error as well.
-/

namespace ArmRx.Pool.Checked

open ArmRx.Lib ArmRx.Lib.Json

/-- What may not happen. -/
inductive Fault
  /-- An access behind `size()`. -/
  | outOfRange
  /-- A cut that starts behind `size()`. -/
  | badSubstr
  /-- A loop that does not end. -/
  | stuck
  deriving DecidableEq

/-- `json[pos]`. -/
def charAt (json : Bytes) (pos : Nat) : Except Fault (BitVec 8) :=
  if pos < json.length then .ok (json.getD pos 0)
  else if pos = json.length then .ok 0
  else .error .outOfRange

/-- `json.substr(start, count)`. -/
def substr (json : Bytes) (start count : Nat) : Except Fault Bytes :=
  if start > json.length then .error .badSubstr else .ok ((json.drop start).take count)

/-- A loop over the text. -/
def scan {σ α : Type} (json : Bytes) (body : σ → Except Fault (Round σ α)) (s : σ) :
    Except Fault α :=
  loop .stuck body (json.length + 2) s

/-! ## Helpers -/

/-- The loop of `is_escaped`: the number of backslashes in front of `pos`. -/
def countBackslashes (json : Bytes) (pos : Nat) : Except Fault Nat :=
  scan json (fun (i, count) =>
    if i > 0 then do
      let c ← charAt json (i - 1)
      if c = backslash then return .again (i - 1, count + 1) else return .done count
    else return .done count) (pos, 0)

/-- `is_escaped`. -/
def isEscaped (json : Bytes) (pos : Nat) : Except Fault Bool :=
  if pos = 0 then .ok false else do return (← countBackslashes json pos) % 2 ≠ 0

/-- The loop `while (pos < size && p(json[pos])) ++pos`. -/
def skipWhile (p : BitVec 8 → Bool) (json : Bytes) (pos : Nat) : Except Fault Nat :=
  scan json (fun pos =>
    if pos < json.length then do
      let c ← charAt json pos
      if p c then return .again (pos + 1) else return .done pos
    else return .done pos) pos

/-- `skip_ws`. -/
def skipWs (json : Bytes) (pos : Nat) : Except Fault Nat := skipWhile isSpace json pos

/-- The loop `while (pos < size && json[pos] != '"')` that steps over escapes;
the position may end one behind the text. -/
def skipToQuote (json : Bytes) (pos : Nat) : Except Fault Nat :=
  scan json (fun pos =>
    if pos < json.length then do
      let c ← charAt json pos
      if c = quote then return .done pos
      else if c = backslash then return .again (pos + 2)
      else return .again (pos + 1)
    else return .done pos) pos

/-- `skip_string`; `none` is `npos`. -/
def skipString (json : Bytes) (pos : Nat) : Except Fault (Option Nat) :=
  if pos ≥ json.length then .ok none
  else do
    let c ← charAt json pos
    if c ≠ quote then return none
    else
      let pos ← skipToQuote json (pos + 1)
      if pos ≥ json.length then return none else return some (pos + 1)

/-- The loop that collects a string up to its closing quote. `get_string` leaves
it at a backslash that ends the text, the others in the round behind it. -/
def collectString (json : Bytes) (pos : Nat) : Except Fault (Bytes × Nat) :=
  scan json (fun (pos, result) =>
    if pos < json.length then do
      let c ← charAt json pos
      if c = quote then return .done (result, pos)
      else if c = backslash then
        if pos + 1 < json.length then do
          let e ← charAt json (pos + 1)
          return .again (pos + 2, result ++ [e])
        else return .again (pos + 2, result)
      else return .again (pos + 1, result ++ [c])
    else return .done (result, pos)) (pos, [])

/-- The loop `while (end > start && p(json[end - 1])) --end`. -/
def trimBack (p : BitVec 8 → Bool) (json : Bytes) (start stop : Nat) : Except Fault Nat :=
  scan json (fun stop =>
    if stop > start then do
      let c ← charAt json (stop - 1)
      if p c then return .again (stop - 1) else return .done stop
    else return .done stop) stop

/-- `json.find(search, pos)`; `none` is `npos`. -/
def find (json search : Bytes) (pos : Nat) : Option Nat :=
  (List.range' pos (json.length + 1 - pos)).find? fun q => search.isPrefixOf (json.drop q)

/-- The loop of `find_key`: the first occurrence at an object-key position. -/
def findOccurrence (json search : Bytes) : Except Fault (Option Nat) :=
  scan json (fun pos =>
    match find json search pos with
    | none => return .done none
    | some pos => do
      let before ← trimBack isBlank json 0 pos
      if before = 0 then return .done (some pos)
      else
        let c ← charAt json (before - 1)
        if c = openBrace || c = comma then return .done (some pos)
        else return .again (pos + search.length)) 0

/-- `find_key`. -/
def findKey (json key : Bytes) : Except Fault (Option Nat) := do
  match ← findOccurrence json (quoted key) with
  | none => return none
  | some pos =>
    let pos ← skipWs json (pos + (quoted key).length)
    if pos ≥ json.length then return none
    else if (← charAt json pos) ≠ colon then return none
    else return some (← skipWs json (pos + 1))

/-! ## Extractors -/

/-- `get_string`. -/
def getString (json key : Bytes) : Except Fault Bytes := do
  match ← findKey json key with
  | none => return []
  | some pos =>
    if pos ≥ json.length then return []
    else if (← charAt json pos) ≠ quote then return []
    else return (← collectString json (pos + 1)).1

/-- `get_raw`. -/
def getRaw (json key : Bytes) : Except Fault Bytes := do
  match ← findKey json key with
  | none => return []
  | some start =>
    let pos ← skipWhile (fun c =>
      c ≠ comma && c ≠ closeBrace && c ≠ closeBracket && c ≠ 0x0a#8) json start
    let stop ← trimBack isBlank json start pos
    substr json start (stop - start)

/-- The text of a number or literal in an array. -/
def rawToken (json : Bytes) (start : Nat) : Except Fault Bytes := do
  let pos ← skipWhile isElementByte json start
  let stop ← trimBack isBlank json start pos
  substr json start (stop - start)

/-- `get_array_first`. -/
def getArrayFirst (json key : Bytes) : Except Fault Bytes := do
  match ← findKey json key with
  | none => return []
  | some pos =>
    let pos ← skipWs json pos
    if pos ≥ json.length then return []
    else if (← charAt json pos) ≠ openBracket then return []
    else
      let pos ← skipWs json (pos + 1)
      if pos ≥ json.length then return []
      else if (← charAt json pos) = quote then
        let start := pos + 1
        let pos ← skipToQuote json start
        substr json start (pos - start)
      else rawToken json pos

/-- The head of the loops over an array, up to the comma: where the next entry
starts and with which character, or `none` to leave the loop. -/
def entryAt (json : Bytes) (pos : Nat) : Except Fault (Option (Nat × BitVec 8)) :=
  if pos < json.length then do
    if (← charAt json pos) = closeBracket then return none
    else
      let pos ← skipWs json pos
      if pos ≥ json.length then return none
      else
        let c ← charAt json pos
        if c = closeBracket then return none else return some (pos, c)
  else return none

/-- A round of the loop of `get_str_array`. -/
def strArrayRound (json : Bytes) :
    Nat × List Bytes → Except Fault (Round (Nat × List Bytes) (List Bytes))
  | (pos, result) => do
    match ← entryAt json pos with
    | none => return .done result
    | some (pos, c) =>
      if c = comma then return .again (pos + 1, result)
      else if c = quote then
        let (elem, pos) ← collectString json (pos + 1)
        return .again (if pos < json.length then pos + 1 else pos, result ++ [elem])
      else
        let pos ← skipWhile isElementByte json pos
        return .again (pos, result)

/-- `get_str_array`. -/
def getStrArray (json key : Bytes) : Except Fault (List Bytes) := do
  match ← findKey json key with
  | none => return []
  | some pos =>
    let pos ← skipWs json pos
    if pos ≥ json.length then return []
    else if (← charAt json pos) ≠ openBracket then return []
    else scan json (strArrayRound json) (pos + 1, [])

/-- A round of the loop of `get_array_element`. -/
def arrayElementRound (json : Bytes) (index : Nat) :
    Nat × Nat → Except Fault (Round (Nat × Nat) Bytes)
  | (pos, cur) => do
    match ← entryAt json pos with
    | none => return .done []
    | some (pos, c) =>
      if c = comma then return .again (pos + 1, cur)
      else if cur = index then
        if c = quote then return .done (← collectString json (pos + 1)).1
        else return .done (← rawToken json pos)
      else if c = quote then
        match ← skipString json pos with
        | none => return .done []
        | some pos => return .again (pos, cur + 1)
      else
        let pos ← skipWhile isElementByte json pos
        return .again (pos, cur + 1)

/-- `get_array_element`. -/
def getArrayElement (json key : Bytes) (index : Nat) : Except Fault Bytes := do
  match ← findKey json key with
  | none => return []
  | some pos =>
    let pos ← skipWs json pos
    if pos ≥ json.length then return []
    else if (← charAt json pos) ≠ openBracket then return []
    else scan json (arrayElementRound json index) (pos + 1, 0)

/-- A round of the loop of `get_object`. -/
def objectRound (json : Bytes) (opening closing : BitVec 8) :
    Nat × Nat × Bool → Except Fault (Round (Nat × Nat × Bool) Nat)
  | (pos, depth, inString) =>
    if pos < json.length && depth > 0 then do
      let c ← charAt json pos
      let escaped ← if c = quote then isEscaped json pos else pure false
      if c = quote && !escaped then return .again (pos + 1, depth, !inString)
      else if !inString then
        if c = opening then return .again (pos + 1, depth + 1, inString)
        else if c = closing then return .again (pos + 1, depth - 1, inString)
        else return .again (pos + 1, depth, inString)
      else return .again (pos + 1, depth, inString)
    else return .done pos

/-- `get_object`. -/
def getObject (json key : Bytes) : Except Fault Bytes := do
  match ← findKey json key with
  | none => return []
  | some start =>
    if start ≥ json.length then return []
    else
      let opening ← charAt json start
      if opening ≠ openBrace && opening ≠ openBracket then return []
      else
        let closing := if opening = openBrace then closeBrace else closeBracket
        let stop ← scan json (objectRound json opening closing) (start + 1, 1, false)
        substr json start (stop - start)

end ArmRx.Pool.Checked
