import ArmRx.Lib.Literals

/-!
# Reordering inside windows, in programs that jump

A program is a list of cells: an effect on the state, a test that decides
whether the cell jumps, and the position it jumps to. An emitter may permute
straight-line neighbours inside small windows. Positions where the emitted
code has executed exactly the source's prefix are *cuts*; if every jump goes
from a cut to the same cut in both programs, the two programs compute the
same result in the same number of steps, however often they jump back.

* `runCells_congr` — programs with the same cells.
* `Windowed` — the emitted list is the source with windows permuted.
* `runCells_of_windowed` — the run lemma.
-/

namespace ArmRx.Lib

variable {S : Type}

/-- One instruction of a program. `jumps` is asked after `effect`. -/
structure Cell (S : Type) where
  effect : S → S
  jumps : S → Bool
  target : Nat

/-- Run from position `pc` until the end of the list, for at most `fuel`
cells; `none` when the fuel runs out. -/
def runCells (code : List (Cell S)) : Nat → Nat → S → Option S
  | fuel, pc, s =>
    match code[pc]? with
    | none => some s
    | some c =>
      match fuel with
      | 0 => none
      | fuel + 1 =>
        let s' := c.effect s
        runCells code fuel (if c.jumps s' then c.target else pc + 1) s'

theorem runCells_end {code : List (Cell S)} {pc : Nat} (h : code[pc]? = none) (fuel : Nat)
    (s : S) : runCells code fuel pc s = some s := by
  unfold runCells
  simp [h]

theorem runCells_zero {code : List (Cell S)} {pc : Nat} {c : Cell S}
    (h : code[pc]? = some c) (s : S) : runCells code 0 pc s = none := by
  unfold runCells
  simp [h]

theorem runCells_succ {code : List (Cell S)} {pc : Nat} {c : Cell S}
    (h : code[pc]? = some c) (fuel : Nat) (s : S) :
    runCells code (fuel + 1) pc s =
      runCells code fuel (if c.jumps (c.effect s) then c.target else pc + 1) (c.effect s) := by
  rw [runCells]
  simp [h]

/-- One cell, from a position and a state; behind the program nothing happens. -/
def stepCell (code : List (Cell S)) (p : Nat × S) : Nat × S :=
  match code[p.1]? with
  | none => p
  | some c => (if c.jumps (c.effect p.2) then c.target else p.1 + 1, c.effect p.2)

theorem runCells_step (code : List (Cell S)) (fuel : Nat) (p : Nat × S) :
    runCells code (fuel + 1) p.1 p.2 =
      runCells code fuel (stepCell code p).1 (stepCell code p).2 := by
  rw [stepCell]
  cases hc : code[p.1]? with
  | none => rw [runCells_end hc, runCells_end hc]
  | some c => rw [runCells_succ hc]

theorem runCells_iterate (code : List (Cell S)) (n fuel : Nat) (p : Nat × S) :
    runCells code (fuel + n) p.1 p.2 =
      runCells code fuel ((stepCell code)^[n] p).1 ((stepCell code)^[n] p).2 := by
  induction n generalizing p with
  | zero => rfl
  | succ n ih => rw [← Nat.add_assoc, runCells_step, ih, Function.iterate_succ_apply]

/-- A program whose remaining cells leave the state alone. -/
theorem runCells_idle {code : List (Cell S)} {s : S} {fuel pc : Nat}
    (hIdle : ∀ c ∈ code.drop pc, c.effect s = s ∧ c.jumps s = false)
    (hFuel : code.length ≤ pc + fuel) : runCells code fuel pc s = some s := by
  induction fuel generalizing pc with
  | zero => exact runCells_end (List.getElem?_eq_none hFuel) 0 s
  | succ fuel ih =>
    cases hc : code[pc]? with
    | none => exact runCells_end hc _ s
    | some c =>
      have hMem : c ∈ code.drop pc :=
        List.mem_of_getElem? (i := 0) (by rw [List.getElem?_drop, Nat.add_zero, hc])
      rw [runCells_succ hc, (hIdle c hMem).1, (hIdle c hMem).2, if_neg Bool.false_ne_true]
      refine ih (fun c hMem => hIdle c ?_) (by omega)
      rw [← List.tail_drop] at hMem
      exact List.mem_of_mem_tail hMem

/-- A run that reaches such cells after `n` steps ends in the state it has there. -/
theorem runCells_of_idle {code : List (Cell S)} {s : S} {n fuel pc : Nat}
    (hFront : ((stepCell code)^[n] (0, s)).1 = pc)
    (hIdle : ∀ c ∈ code.drop pc, ∀ s, c.effect s = s ∧ c.jumps s = false)
    (hFuel : code.length ≤ pc + fuel) :
    runCells code (fuel + n) 0 s = some ((stepCell code)^[n] (0, s)).2 := by
  rw [runCells_iterate code n fuel (0, s), hFront]
  exact runCells_idle (fun c hc => hIdle c hc _) hFuel

/-- The result does not depend on how much fuel was left. -/
theorem runCells_unique {code : List (Cell S)} {fuel fuel' pc : Nat} {s t t' : S}
    (h : runCells code fuel pc s = some t) (h' : runCells code fuel' pc s = some t') : t = t' := by
  induction fuel generalizing fuel' pc s with
  | zero =>
    cases hc : code[pc]? with
    | none =>
      rw [runCells_end hc] at h h'
      exact Option.some.inj (h.symm.trans h')
    | some c => simp [runCells_zero hc] at h
  | succ n ih =>
    cases hc : code[pc]? with
    | none =>
      rw [runCells_end hc] at h h'
      exact Option.some.inj (h.symm.trans h')
    | some c =>
      cases fuel' with
      | zero => simp [runCells_zero hc] at h'
      | succ m =>
        rw [runCells_succ hc] at h h'
        exact ih h h'

namespace Cell

/-- The cell never jumps. -/
def Straight (c : Cell S) : Prop := ∀ s, c.jumps s = false

/-- The effects of two cells may trade places. -/
def Commutes (c d : Cell S) : Prop := ∀ s, c.effect (d.effect s) = d.effect (c.effect s)

/-- Two cells that do the same, up to where they jump. -/
def SameAction (c d : Cell S) : Prop := c.effect = d.effect ∧ c.jumps = d.jumps

end Cell

/-- Two programs whose cells do the same at every position, and jump to the same
place where they can jump at all, run alike. -/
theorem runCells_congr {src em : List (Cell S)} (hLength : src.length = em.length)
    (hCells : ∀ (k : Nat) (c d : Cell S), src[k]? = some c → em[k]? = some d →
      c.SameAction d ∧ (¬c.Straight → d.target = c.target)) (fuel k : Nat) (s : S) :
    runCells src fuel k s = runCells em fuel k s := by
  have hNone (k : Nat) : src[k]? = none ↔ em[k]? = none := by
    rw [List.getElem?_eq_none_iff, List.getElem?_eq_none_iff, hLength]
  induction fuel generalizing k s with
  | zero =>
    cases hc : src[k]? with
    | none => rw [runCells_end hc, runCells_end ((hNone k).mp hc)]
    | some c =>
      cases hd : em[k]? with
      | none =>
        rw [(hNone k).mpr hd] at hc
        cases hc
      | some d => rw [runCells_zero hc, runCells_zero hd]
  | succ fuel ih =>
    cases hc : src[k]? with
    | none => rw [runCells_end hc, runCells_end ((hNone k).mp hc)]
    | some c =>
      cases hd : em[k]? with
      | none =>
        rw [(hNone k).mpr hd] at hc
        cases hc
      | some d =>
        obtain ⟨⟨hEffect, hJumps⟩, hTarget⟩ := hCells k c d hc hd
        rw [runCells_succ hc, runCells_succ hd, ← hEffect, ← hJumps]
        by_cases hj : c.jumps (c.effect s) = true
        · have hNot : ¬c.Straight := fun h => by simp [h (c.effect s)] at hj
          rw [if_pos hj, if_pos hj, hTarget hNot]
          exact ih _ _
        · rw [if_neg hj, if_neg hj]
          exact ih _ _

/-- A straight cell passes control to the next position. -/
theorem runCells_straight {code : List (Cell S)} {pc : Nat} {c : Cell S}
    (h : code[pc]? = some c) (hc : c.Straight) (fuel : Nat) (s : S) :
    runCells code (fuel + 1) pc s = runCells code fuel (pc + 1) (c.effect s) := by
  rw [runCells_succ h, hc (c.effect s)]
  rfl

/-- `Windowed src em`: `em` is `src` with windows permuted. A window swaps two
neighbours, or moves the third of three to the front. -/
inductive Windowed : List (Cell S) → List (Cell S) → Prop
  | nil : Windowed [] []
  | keep {c d : Cell S} {src em : List (Cell S)} :
      c.SameAction d → Windowed src em → Windowed (c :: src) (d :: em)
  | swap {c₁ c₂ d₁ d₂ : Cell S} {src em : List (Cell S)} :
      c₁.SameAction d₁ → c₂.SameAction d₂ → c₁.Straight → c₂.Straight → c₁.Commutes c₂ →
      Windowed src em → Windowed (c₁ :: c₂ :: src) (d₂ :: d₁ :: em)
  | rotate {c₁ c₂ c₃ d₁ d₂ d₃ : Cell S} {src em : List (Cell S)} :
      c₁.SameAction d₁ → c₂.SameAction d₂ → c₃.SameAction d₃ →
      c₁.Straight → c₂.Straight → c₃.Straight → c₁.Commutes c₃ → c₂.Commutes c₃ →
      Windowed src em → Windowed (c₁ :: c₂ :: c₃ :: src) (d₃ :: d₁ :: d₂ :: em)

/-- Position `k` is a cut: what follows it in the emitted list is what follows
it in the source, up to windows. -/
def Cut (src em : List (Cell S)) (k : Nat) : Prop := Windowed (src.drop k) (em.drop k)

theorem Cell.SameAction.straight {c d : Cell S} (h : c.SameAction d) (hc : c.Straight) :
    d.Straight := by
  intro s
  rw [← h.2]
  exact hc s

/-- The head of a suffix and what remains behind it. -/
theorem getElem?_of_drop_eq_cons {α : Type} {l rest : List α} {k : Nat} {a : α}
    (h : l.drop k = a :: rest) : l[k]? = some a ∧ l.drop (k + 1) = rest := by
  constructor
  · rw [← List.head?_drop, h]
    rfl
  · rw [← List.tail_drop, h]
    rfl

/-- **Run lemma.** If every jump from a cut goes to the same cut in source and
emitted code, whatever the source computes from a cut the emitted code
computes too, with the same fuel. -/
theorem runCells_of_windowed {src em : List (Cell S)}
    (hJump : ∀ k c d, src[k]? = some c → em[k]? = some d → c.SameAction d → Cut src em k →
      ¬c.Straight → d.target = c.target ∧ Cut src em c.target) :
    ∀ fuel k s t, Cut src em k → runCells src fuel k s = some t →
      runCells em fuel k s = some t := by
  intro fuel
  -- a window takes as much fuel as it has cells, so the induction is a strong one
  induction fuel using Nat.strongRecOn with
  | ind fuel ih =>
    intro k s t hCut hRun
    have hCut' := hCut
    unfold Cut at hCut'
    generalize hs : src.drop k = srcTail at hCut'
    generalize he : em.drop k = emTail at hCut'
    cases hCut' with
    | nil =>
      have hsNone : src[k]? = none := by rw [← List.head?_drop, hs]; rfl
      have heNone : em[k]? = none := by rw [← List.head?_drop, he]; rfl
      rw [runCells_end hsNone] at hRun
      rw [runCells_end heNone, hRun]
    | @keep c d src' em' hSame hTail =>
      obtain ⟨hsk, hs'⟩ := getElem?_of_drop_eq_cons hs
      obtain ⟨hek, he'⟩ := getElem?_of_drop_eq_cons he
      cases fuel with
      | zero => simp [runCells_zero hsk] at hRun
      | succ n =>
        have hNext : Cut src em (k + 1) := by
          unfold Cut
          rw [hs', he']
          exact hTail
        rw [runCells_succ hsk] at hRun
        rw [runCells_succ hek, ← hSame.1, ← hSame.2]
        by_cases hj : c.jumps (c.effect s) = true
        · have hNot : ¬c.Straight := fun h => by simp [h (c.effect s)] at hj
          obtain ⟨hTgt, hTgtCut⟩ := hJump k c d hsk hek hSame hCut hNot
          rw [if_pos hj] at hRun ⊢
          rw [hTgt]
          exact ih n (by omega) _ _ _ hTgtCut hRun
        · rw [if_neg hj] at hRun ⊢
          exact ih n (by omega) _ _ _ hNext hRun
    | @swap c₁ c₂ d₁ d₂ src' em' h₁ h₂ st₁ st₂ hComm hTail =>
      obtain ⟨hs₁, hs'⟩ := getElem?_of_drop_eq_cons hs
      obtain ⟨hs₂, hs''⟩ := getElem?_of_drop_eq_cons hs'
      obtain ⟨he₂, he'⟩ := getElem?_of_drop_eq_cons he
      obtain ⟨he₁, he''⟩ := getElem?_of_drop_eq_cons he'
      have hNext : Cut src em (k + 1 + 1) := by
        unfold Cut
        rw [hs'', he'']
        exact hTail
      -- inside the window the two programs are in different states
      match fuel with
      | 0 => simp [runCells_zero hs₁] at hRun
      | 1 =>
        rw [runCells_straight hs₁ st₁, runCells_zero hs₂] at hRun
        cases hRun
      | n + 2 =>
        rw [runCells_straight hs₁ st₁, runCells_straight hs₂ st₂] at hRun
        rw [runCells_straight he₂ (h₂.straight st₂), runCells_straight he₁ (h₁.straight st₁),
          ← h₁.1, ← h₂.1, hComm s]
        exact ih n (by omega) _ _ _ hNext hRun
    | @rotate c₁ c₂ c₃ d₁ d₂ d₃ src' em' h₁ h₂ h₃ st₁ st₂ st₃ hComm₁ hComm₂ hTail =>
      obtain ⟨hs₁, hs'⟩ := getElem?_of_drop_eq_cons hs
      obtain ⟨hs₂, hs''⟩ := getElem?_of_drop_eq_cons hs'
      obtain ⟨hs₃, hsTail⟩ := getElem?_of_drop_eq_cons hs''
      obtain ⟨he₃, he'⟩ := getElem?_of_drop_eq_cons he
      obtain ⟨he₁, he''⟩ := getElem?_of_drop_eq_cons he'
      obtain ⟨he₂, heTail⟩ := getElem?_of_drop_eq_cons he''
      have hNext : Cut src em (k + 1 + 1 + 1) := by
        unfold Cut
        rw [hsTail, heTail]
        exact hTail
      match fuel with
      | 0 => simp [runCells_zero hs₁] at hRun
      | 1 =>
        rw [runCells_straight hs₁ st₁, runCells_zero hs₂] at hRun
        cases hRun
      | 2 =>
        rw [runCells_straight hs₁ st₁, runCells_straight hs₂ st₂, runCells_zero hs₃] at hRun
        cases hRun
      | n + 3 =>
        rw [runCells_straight hs₁ st₁, runCells_straight hs₂ st₂,
          runCells_straight hs₃ st₃] at hRun
        rw [runCells_straight he₃ (h₃.straight st₃), runCells_straight he₁ (h₁.straight st₁),
          runCells_straight he₂ (h₂.straight st₂), ← h₁.1, ← h₂.1, ← h₃.1, hComm₁ s,
          hComm₂ (c₁.effect s)]
        exact ih n (by omega) _ _ _ hNext hRun

end ArmRx.Lib
