import ArmRx.Lib.Literals

/-!
# Computations that record what they touch

A computation gives the list of events it has raised and, unless it is still
running when its fuel is used up, a result. The events of an unfinished computation
count like the others, so a property of every trace is a property of runs that
never end.

* `Safe.bind`, `safe_repeat` — the rules for "every event meets `P`, and the result,
  if there is one, meets `Q`".
-/

namespace ArmRx.Lib

/-- The events raised so far and the result, `none` for a computation that has not
returned. -/
structure Traced (ε α : Type) where
  trace : List ε
  value : Option α

namespace Traced

variable {ε α β : Type}

/-- Go on with the result, if there is one. -/
protected def bind (x : Traced ε α) (f : α → Traced ε β) : Traced ε β :=
  match x.value with
  | none => ⟨x.trace, none⟩
  | some a => ⟨x.trace ++ (f a).trace, (f a).value⟩

instance : Monad (Traced ε) where
  pure a := ⟨[], some a⟩
  bind := Traced.bind

/-- Raise one event. -/
def emit (e : ε) : Traced ε Unit := ⟨[e], some ()⟩

/-- A computation that does not return. -/
def stuck : Traced ε α := ⟨[], none⟩

/-- A computation that raises nothing and may not return. -/
def ofOption (value : Option α) : Traced ε α := ⟨[], value⟩

/-- `n` rounds of `body`. -/
def repeatTimes (body : α → Traced ε α) : Nat → α → Traced ε α
  | 0, a => pure a
  | n + 1, a => do
    let b ← body a
    repeatTimes body n b

theorem value_bind (x : Traced ε α) (f : α → Traced ε β) :
    (x >>= f).value = x.value.bind fun a => (f a).value := by
  change (Traced.bind x f).value = _
  unfold Traced.bind
  cases x.value <;> rfl

/-! ## Safety -/

/-- Every event meets `P`, and a result meets `Q`. -/
structure Safe (P : ε → Prop) (Q : α → Prop) (x : Traced ε α) : Prop where
  trace : ∀ e ∈ x.trace, P e
  value : ∀ a, x.value = some a → Q a

variable {P : ε → Prop} {Q : α → Prop} {R : β → Prop}

theorem safe_pure {a : α} (h : Q a) : Safe P Q (pure a : Traced ε α) :=
  ⟨fun _ he => absurd he List.not_mem_nil, fun _ hb => Option.some.inj hb ▸ h⟩

theorem safe_emit {e : ε} (h : P e) : Safe P (fun _ => True) (emit e) :=
  ⟨fun _ he => List.mem_singleton.mp he ▸ h, fun _ _ => trivial⟩

theorem safe_stuck : Safe P Q (stuck : Traced ε α) :=
  ⟨fun _ he => absurd he List.not_mem_nil, fun _ hb => nomatch hb⟩

theorem safe_ofOption {value : Option α} (h : ∀ a, value = some a → Q a) :
    Safe P Q (ofOption value) :=
  ⟨fun _ he => absurd he List.not_mem_nil, h⟩

/-- Sequencing. -/
theorem Safe.bind {x : Traced ε α} {f : α → Traced ε β} (hx : Safe P Q x)
    (hf : ∀ a, Q a → Safe P R (f a)) : Safe P R (x >>= f) := by
  change Safe P R (Traced.bind x f)
  unfold Traced.bind
  split
  · exact ⟨hx.trace, fun _ hb => nomatch hb⟩
  · rename_i a ha
    have hRest := hf a (hx.value a ha)
    refine ⟨fun e he => ?_, hRest.value⟩
    rcases List.mem_append.mp he with h | h
    · exact hx.trace e h
    · exact hRest.trace e h

/-- The invariant rule for a counted loop. -/
theorem safe_repeat {body : α → Traced ε α} (hBody : ∀ a, Q a → Safe P Q (body a)) (n : Nat)
    {a : α} (ha : Q a) : Safe P Q (repeatTimes body n a) := by
  induction n generalizing a with
  | zero => exact safe_pure ha
  | succ n ih => exact (hBody a ha).bind fun b hb => ih hb

end Traced

end ArmRx.Lib
