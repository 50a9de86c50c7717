import ArmRx.Lib.Literals

/-!
# Mixing four words at a time

A permutation of an array of words built from a function of four of them, applied
at one quadruple of places after another. Two applications at disjoint quadruples
may be made side by side, in the two lanes of a vector: both read before either
writes.

* `mixPair_eq` — the two lanes are two applications, one after the other.
-/

namespace ArmRx.Lib

variable {ι W : Type*} [DecidableEq ι]

/-- Replace the words at four places by a function of them. -/
def mixAt (g : W → W → W → W → W × W × W × W) (a b c d : ι) (v : ι → W) : ι → W :=
  let r := g (v a) (v b) (v c) (v d)
  Function.update (Function.update (Function.update (Function.update v a r.1) b r.2.1) c r.2.2.1)
    d r.2.2.2

/-- Two words as the lanes of a vector. -/
def gather (v : ι → W) (i j : ι) : Fin 2 → W
  | 0 => v i
  | 1 => v j

/-- The lanes of a vector written to two places. -/
def scatter (v : ι → W) (i j : ι) (x : Fin 2 → W) : ι → W :=
  Function.update (Function.update v i (x 0)) j (x 1)

/-- A function of four vectors at four pairs of places. -/
def mixPair (G : (Fin 2 → W) → (Fin 2 → W) → (Fin 2 → W) → (Fin 2 → W) →
      (Fin 2 → W) × (Fin 2 → W) × (Fin 2 → W) × (Fin 2 → W))
    (a b c d : ι × ι) (v : ι → W) : ι → W :=
  let r := G (gather v a.1 a.2) (gather v b.1 b.2) (gather v c.1 c.2) (gather v d.1 d.2)
  scatter (scatter (scatter (scatter v a.1 a.2 r.1) b.1 b.2 r.2.1) c.1 c.2 r.2.2.1)
    d.1 d.2 r.2.2.2

/-- `G` is `g l` in lane `l`. -/
def LaneWise (G : (Fin 2 → W) → (Fin 2 → W) → (Fin 2 → W) → (Fin 2 → W) →
      (Fin 2 → W) × (Fin 2 → W) × (Fin 2 → W) × (Fin 2 → W))
    (g : Fin 2 → W → W → W → W → W × W × W × W) : Prop :=
  ∀ a b c d l, ((G a b c d).1 l, (G a b c d).2.1 l, (G a b c d).2.2.1 l, (G a b c d).2.2.2 l) =
    g l (a l) (b l) (c l) (d l)

/-- The other words stay. -/
theorem mixAt_of_ne (g : W → W → W → W → W × W × W × W) {a b c d i : ι} (v : ι → W) (ha : i ≠ a)
    (hb : i ≠ b) (hc : i ≠ c) (hd : i ≠ d) : mixAt g a b c d v i = v i := by
  simp [mixAt, ha, hb, hc, hd]

/-- **Side by side.** At eight different places the two lanes are the function of
lane 0 followed by that of lane 1. -/
theorem mixPair_eq {G : (Fin 2 → W) → (Fin 2 → W) → (Fin 2 → W) → (Fin 2 → W) →
      (Fin 2 → W) × (Fin 2 → W) × (Fin 2 → W) × (Fin 2 → W)}
    {g : Fin 2 → W → W → W → W → W × W × W × W} (hG : LaneWise G g) {a b c d : ι × ι}
    (hNodup : [a.1, b.1, c.1, d.1, a.2, b.2, c.2, d.2].Nodup) (v : ι → W) :
    mixPair G a b c d v = mixAt (g 1) a.2 b.2 c.2 d.2 (mixAt (g 0) a.1 b.1 c.1 d.1 v) := by
  have h0 := hG (gather v a.1 a.2) (gather v b.1 b.2) (gather v c.1 c.2) (gather v d.1 d.2) 0
  have h1 := hG (gather v a.1 a.2) (gather v b.1 b.2) (gather v c.1 c.2) (gather v d.1 d.2) 1
  obtain ⟨a0, a1⟩ := a
  obtain ⟨b0, b1⟩ := b
  obtain ⟨c0, c1⟩ := c
  obtain ⟨d0, d1⟩ := d
  dsimp only [gather] at h0 h1 hNodup ⊢
  simp only [List.nodup_cons, List.mem_cons, List.not_mem_nil, or_false, not_or, List.nodup_nil,
    not_false_eq_true, and_true] at hNodup
  obtain ⟨⟨-, -, -, haa, hab, hac, had⟩, ⟨-, -, hba, hbb, hbc, hbd⟩, ⟨-, hca, hcb, hcc, hcd⟩,
    ⟨hda, hdb, hdc, hdd⟩, -⟩ := id hNodup
  -- the second application reads what the first has left
  rw [mixAt, mixAt_of_ne _ _ (Ne.symm haa) (Ne.symm hba) (Ne.symm hca) (Ne.symm hda),
    mixAt_of_ne _ _ (Ne.symm hab) (Ne.symm hbb) (Ne.symm hcb) (Ne.symm hdb),
    mixAt_of_ne _ _ (Ne.symm hac) (Ne.symm hbc) (Ne.symm hcc) (Ne.symm hdc),
    mixAt_of_ne _ _ (Ne.symm had) (Ne.symm hbd) (Ne.symm hcd) (Ne.symm hdd), ← h1, mixAt, ← h0,
    mixPair]
  dsimp only
  generalize G _ _ _ _ = r
  -- the same eight words, written in another order
  funext i
  simp only [scatter, Function.update_apply]
  grind

end ArmRx.Lib
