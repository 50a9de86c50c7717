import ArmRx.Lib.Literals

/-!
# Loops that can fail

A `while` loop over a state whose body can raise an error, run with a bound on
its rounds. Running out of rounds is an error too, so that a proof that a loop
returns is a proof that it terminates.

* `loop_total` — the rule for total correctness: an invariant and a measure.
* `Ends`, `loop_ends` — the same where a round may also raise an error of a known
  kind.
-/

namespace ArmRx.Lib

/-- What a round of a loop does: go on from a new state, or leave with a result. -/
inductive Round (σ α : Type*)
  | again (s : σ)
  | done (a : α)

/-- `Q` of a result, `R` of a state to go on from. -/
def Round.Ok {σ α : Type*} (Q : α → Prop) (R : σ → Prop) : Round σ α → Prop
  | .again s => R s
  | .done a => Q a

variable {ε σ α : Type*}

/-- At most `fuel` rounds of `body` from `s`; `stuck` is the error of a loop
that is still running then. -/
def loop (stuck : ε) (body : σ → Except ε (Round σ α)) : Nat → σ → Except ε α
  | 0, _ => .error stuck
  | fuel + 1, s =>
    match body s with
    | .error e => .error e
    | .ok (.done a) => .ok a
    | .ok (.again t) => loop stuck body fuel t

/-- **Total correctness.** A loop each of whose rounds raises no error and
leaves with the postcondition, or keeps the invariant and decreases the
measure, returns. -/
theorem loop_total {stuck : ε} {body : σ → Except ε (Round σ α)} (Inv : σ → Prop)
    (Post : α → Prop) (measure : σ → Nat)
    (hBody : ∀ s, Inv s → (∃ a, body s = .ok (.done a) ∧ Post a) ∨
      ∃ t, body s = .ok (.again t) ∧ Inv t ∧ measure t < measure s)
    {fuel : Nat} {s : σ} (hInv : Inv s) (hFuel : measure s < fuel) :
    ∃ a, loop stuck body fuel s = .ok a ∧ Post a := by
  induction fuel generalizing s with
  | zero => omega
  | succ fuel ih =>
    rcases hBody s hInv with ⟨a, hDone, hPost⟩ | ⟨t, hAgain, hNext, hLess⟩
    · exact ⟨a, by rw [loop, hDone], hPost⟩
    · obtain ⟨a, hLoop, hPost⟩ := ih hNext (by omega)
      exact ⟨a, by rw [loop, hAgain]; exact hLoop, hPost⟩

/-- The rule for a loop that computes a function of its state. -/
theorem loop_eq {stuck : ε} {body : σ → Except ε (Round σ α)} (spec : σ → α) (measure : σ → Nat)
    (hBody : ∀ s, body s = .ok (.done (spec s)) ∨
      ∃ t, body s = .ok (.again t) ∧ spec t = spec s ∧ measure t < measure s)
    {fuel : Nat} {s : σ} (hFuel : measure s < fuel) : loop stuck body fuel s = .ok (spec s) := by
  have hRun : ∃ a, loop stuck body fuel s = .ok a ∧ a = spec s := by
    refine loop_total (fun t => spec t = spec s) (· = spec s) measure (fun t ht => ?_) rfl hFuel
    rcases hBody t with hDone | ⟨u, hAgain, hSpec, hLess⟩
    · exact .inl ⟨_, hDone, ht⟩
    · exact .inr ⟨u, hAgain, hSpec.trans ht, hLess⟩
  obtain ⟨a, hLoop, rfl⟩ := hRun
  exact hLoop

/-! ## Computations that may raise some errors -/

/-- An error that meets `E`, or a result that meets `Q`. -/
def Ends (E : ε → Prop) (Q : α → Prop) : Except ε α → Prop
  | .error e => E e
  | .ok a => Q a

section Ends

variable {β : Type*} {E : ε → Prop} {Q : α → Prop} {R : β → Prop}

theorem Ends.imp {E' : ε → Prop} {Q' : α → Prop} {x : Except ε α} (hx : Ends E Q x)
    (hError : ∀ e, E e → E' e) (hOk : ∀ a, Q a → Q' a) : Ends E' Q' x := by
  cases x with
  | error e => exact hError e hx
  | ok a => exact hOk a hx

theorem Ends.bind {x : Except ε α} {f : α → Except ε β} (hx : Ends E Q x)
    (hf : ∀ a, Q a → Ends E R (f a)) : Ends E R (x.bind f) := by
  cases x with
  | error e => exact hx
  | ok a => exact hf a hx

/-- The rule for a loop whose rounds may raise errors that meet `E`. -/
theorem loop_ends {stuck : ε} {body : σ → Except ε (Round σ α)} (Inv : σ → Prop)
    (measure : σ → Nat)
    (hBody : ∀ s, Inv s → Ends E (Round.Ok Q fun t => Inv t ∧ measure t < measure s) (body s))
    {fuel : Nat} {s : σ} (hInv : Inv s) (hFuel : measure s < fuel) :
    Ends E Q (loop stuck body fuel s) := by
  induction fuel generalizing s with
  | zero => omega
  | succ fuel ih =>
    have hRound := hBody s hInv
    rw [loop]
    cases hBodyEq : body s with
    | error e =>
      rw [hBodyEq] at hRound
      exact hRound
    | ok round =>
      rw [hBodyEq] at hRound
      cases round with
      | done a => exact hRound
      | again t => exact ih hRound.1 (by have := hRound.2; omega)

end Ends

end ArmRx.Lib
