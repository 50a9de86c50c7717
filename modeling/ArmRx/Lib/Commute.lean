import ArmRx.Lib.Literals

/-!
# Effects with footprints

A *store* is any type observed through a family of locations. An effect on
the store has a footprint when it leaves every location outside its write
set alone and what it writes depends only on its read set. Two effects
whose footprints do not interfere commute.

Nothing here knows what the locations are: a register scheduler
instantiates them with its own register files.

* `HasFootprint.commute` — non-interfering effects commute.
-/

namespace ArmRx.Lib

/-! ## Footprints -/

section Footprint

variable {S Loc : Type} {V : Loc → Type} (obs : (l : Loc) → S → V l)

/-- `g` writes only `writes`, and the values it leaves there are determined
by the values of `reads`. -/
structure HasFootprint (g : S → S) (reads writes : Set Loc) : Prop where
  frame : ∀ s l, l ∉ writes → obs l (g s) = obs l s
  local_ : ∀ s t, (∀ l ∈ reads, obs l s = obs l t) →
    ∀ l ∈ writes, obs l (g s) = obs l (g t)

variable {obs}

/-- Widening either side of a footprint keeps it a footprint, provided what
is newly written is also newly read. -/
theorem HasFootprint.mono {g : S → S} {R W R' W' : Set Loc}
    (h : HasFootprint obs g R W) (hR : R ⊆ R') (hW : W ⊆ W')
    (hNew : ∀ l ∈ W', l ∉ W → l ∈ R') : HasFootprint obs g R' W' := by
  refine ⟨fun s l hl => h.frame s l (fun hlW => hl (hW hlW)), ?_⟩
  intro s t hst l hl
  by_cases hlW : l ∈ W
  · exact h.local_ s t (fun k hk => hst k (hR hk)) l hlW
  · rw [h.frame s l hlW, h.frame t l hlW]
    exact hst l (hNew l hl hlW)

/-- The identity has every read set and an empty write set. -/
theorem HasFootprint.id (R : Set Loc) : HasFootprint obs (fun s => s) R ∅ :=
  ⟨fun _ _ _ => rfl, fun _ _ _ l hl => absurd hl (Set.notMem_empty l)⟩

/-- An effect that touches one location, with a value determined by `R`. -/
theorem HasFootprint.single {g : S → S} {R : Set Loc} {d : Loc}
    (hOther : ∀ s l, l ≠ d → obs l (g s) = obs l s)
    (hVal : ∀ s t, (∀ l ∈ R, obs l s = obs l t) → obs d (g s) = obs d (g t)) :
    HasFootprint obs g R {d} := by
  refine ⟨fun s l hl => hOther s l hl, ?_⟩
  intro s t hst l hl
  rw [Set.mem_singleton_iff] at hl
  subst hl
  exact hVal s t hst

/-- Effects that neither read nor write what the other writes commute. -/
theorem HasFootprint.commute {g h : S → S} {R W R' W' : Set Loc}
    (hExt : ∀ s t : S, (∀ l, obs l s = obs l t) → s = t)
    (hg : HasFootprint obs g R W) (hh : HasFootprint obs h R' W')
    (hWR : ∀ l ∈ W, l ∉ R') (hRW : ∀ l ∈ W', l ∉ R) (hWW : ∀ l ∈ W, l ∉ W') (s : S) :
    g (h s) = h (g s) := by
  apply hExt
  intro l
  by_cases hl : l ∈ W
  · -- `g` owns the location: `h` neither changed it nor what `g` reads
    rw [hh.frame (g s) l (hWW l hl)]
    exact hg.local_ (h s) s (fun k hk => hh.frame s k (fun hk' => hRW k hk' hk)) l hl
  · rw [hg.frame (h s) l hl]
    by_cases hl' : l ∈ W'
    · exact hh.local_ s (g s) (fun k hk => (hg.frame s k (fun hk' => hWR k hk' hk)).symm) l hl'
    · rw [hh.frame s l hl', hh.frame (g s) l hl', hg.frame s l hl]

end Footprint

end ArmRx.Lib
