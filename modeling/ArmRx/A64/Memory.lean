import ArmRx.A64.State

/-!
# Memory regions

Which bytes a store changes and which loads see it, in terms of regions of the
address space. Addresses wrap: a region is an interval of offsets from its
base, so none of the lemmas asks that it does not cross the end of memory.

* `Frame` — two memories agree outside some regions.
* `Backs` — memory holds the bytes of a `ByteStore` from some address on.
* `Mem.stores` — several words stored relative to one base.
-/

namespace ArmRx.A64

open ArmRx.Lib

/-! ## Regions -/

/-- The `len` addresses from `base` on. -/
structure Region where
  base : BitVec 64
  len : Nat

namespace Region

variable {R S : Region} {x : BitVec 64} {off off' len len' : Nat}

def Has (R : Region) (x : BitVec 64) : Prop := (x - R.base).toNat < R.len

def Disjoint (R S : Region) : Prop := ∀ x, R.Has x → ¬S.Has x

/-- The `len` addresses from offset `off` of a region on. -/
def part (R : Region) (off len : Nat) : Region := ⟨R.base + BitVec.ofNat 64 off, len⟩

theorem Has.of_part (hIn : off + len ≤ R.len) (h : (R.part off len).Has x) : R.Has x := by
  unfold Has part at *
  simp only at h
  -- the offset from the part's base and the part's own offset add up without wrapping
  have hSplit : x - R.base = BitVec.ofNat 64 off + (x - (R.base + BitVec.ofNat 64 off)) := by
    bv_omega
  have hSmall := BitVec.isLt (x - (R.base + BitVec.ofNat 64 off))
  rw [hSplit, BitVec.toNat_add, BitVec.toNat_ofNat]
  omega

theorem Disjoint.part_left (h : R.Disjoint S) (hIn : off + len ≤ R.len) :
    (R.part off len).Disjoint S := fun x hx => h x (hx.of_part hIn)

end Region

/-! ## Frames -/

/-- `m'` differs from `m` in `rs` at most. -/
def Frame (rs : List Region) (m m' : Mem) : Prop := ∀ x, (∀ R ∈ rs, ¬R.Has x) → m' x = m x

namespace Frame

variable {rs rs' : List Region} {m m' m'' : Mem}

theorem refl (rs : List Region) (m : Mem) : Frame rs m m := fun _ _ => rfl

theorem trans (h : Frame rs m m') (h' : Frame rs m' m'') : Frame rs m m'' :=
  fun x hx => (h' x hx).trans (h x hx)

/-- Every changed region lies in one of `rs'`. -/
theorem mono (h : Frame rs m m') (hSub : ∀ R ∈ rs, ∃ S ∈ rs', ∀ x, R.Has x → S.Has x) :
    Frame rs' m m' := by
  intro x hx
  refine h x fun R hR hHas => ?_
  obtain ⟨S, hS, hIn⟩ := hSub R hR
  exact hx S hS (hIn x hHas)

theorem subset (h : Frame rs m m') (hSub : ∀ R ∈ rs, R ∈ rs') : Frame rs' m m' :=
  h.mono fun R hR => ⟨R, hSub R hR, fun _ hx => hx⟩

end Frame

/-! ## Loads and stores -/

namespace Mem

variable {m m' : Mem} {n : Nat} {a b : BitVec 64}

theorem store_apply_of_not_has {v : BitVec (8 * n)} {x : BitVec 64}
    (h : ¬(Region.mk a n).Has x) : m.store n a v x = m x := if_neg h

theorem frame_store (m : Mem) (a : BitVec 64) (v : BitVec (8 * n)) :
    Frame [⟨a, n⟩] m (m.store n a v) :=
  fun _ hx => store_apply_of_not_has (hx _ (List.mem_singleton_self _))

theorem load_congr (hn : n ≤ 2 ^ 64) (h : ∀ x, (Region.mk a n).Has x → m' x = m x) :
    m'.load n a = m.load n a := by
  refine leBytes_congr fun k hk => h _ ?_
  show (a + BitVec.ofNat 64 k - a).toNat < n
  rw [show a + BitVec.ofNat 64 k - a = BitVec.ofNat 64 k by bv_omega, BitVec.toNat_ofNat]
  omega

/-- A frame that avoids the loaded bytes does not change them. -/
theorem load_of_frame {rs : List Region} (hn : n ≤ 2 ^ 64) (h : Frame rs m m')
    (hDisjoint : ∀ R ∈ rs, (Region.mk a n).Disjoint R) : m'.load n a = m.load n a :=
  load_congr hn fun x hx => h x fun R hR hRx => hDisjoint R hR x hx hRx

theorem load_store_self (hn : n ≤ 2 ^ 64) (v : BitVec (8 * n)) : (m.store n a v).load n a = v := by
  conv_rhs => rw [← leBytes_byteOf v]
  refine leBytes_congr fun k hk => ?_
  have hOff : (a + BitVec.ofNat 64 k - a).toNat = k := by
    rw [show a + BitVec.ofNat 64 k - a = BitVec.ofNat 64 k by bv_omega, BitVec.toNat_ofNat]
    omega
  simp only [store, hOff, if_pos hk]

theorem frame_store64 (m : Mem) (a w : BitVec 64) : Frame [⟨a, 8⟩] m (m.store64 a w) :=
  frame_store (n := 8) m a w

theorem load64_of_frame {rs : List Region} (h : Frame rs m m')
    (hDisjoint : ∀ R ∈ rs, (Region.mk a 8).Disjoint R) : m'.load64 a = m.load64 a :=
  load_of_frame (n := 8) (by decide) h hDisjoint

theorem load64_store64_self (m : Mem) (a w : BitVec 64) : (m.store64 a w).load64 a = w :=
  load_store_self (n := 8) (by decide) w

/-- Store 64-bit words one behind the other. -/
def storeWords (m : Mem) (a : BitVec 64) : List (BitVec 64) → Mem
  | [] => m
  | w :: ws => storeWords (m.store64 a w) (a + 8) ws

theorem frame_storeWords (m : Mem) (a : BitVec 64) {ws : List (BitVec 64)}
    (hLen : 8 * ws.length ≤ 2 ^ 64) : Frame [⟨a, 8 * ws.length⟩] m (m.storeWords a ws) := by
  induction ws generalizing m a with
  | nil => exact Frame.refl _ _
  | cons w ws ih =>
    rw [List.length_cons] at *
    -- the first word and the words behind it are parts of the whole
    have hHead : Frame [⟨a, 8 * (ws.length + 1)⟩] m (m.store64 a w) := by
      refine (frame_store64 m a w).mono fun R hR => ?_
      rw [List.mem_singleton.mp hR]
      refine ⟨_, List.mem_singleton_self _, fun x hx => ?_⟩
      unfold Region.Has at *
      simp only at *
      omega
    have hTail : Frame [⟨a, 8 * (ws.length + 1)⟩] (m.store64 a w)
        ((m.store64 a w).storeWords (a + 8) ws) := by
      refine (ih (m.store64 a w) (a + 8) (by omega)).mono fun R hR => ?_
      rw [List.mem_singleton.mp hR]
      refine ⟨_, List.mem_singleton_self _, fun x hx => ?_⟩
      have hPart : ((Region.mk a (8 * (ws.length + 1))).part 8 (8 * ws.length)).Has x := hx
      exact hPart.of_part (by simp only; omega)
    exact hHead.trans hTail

/-- Each stored word can be loaded again. -/
theorem load64_storeWords (m : Mem) (a : BitVec 64) {ws : List (BitVec 64)} {i : Nat}
    (hi : i < ws.length) (hLen : 8 * ws.length ≤ 2 ^ 64) :
    (m.storeWords a ws).load64 (a + BitVec.ofNat 64 (8 * i)) = ws[i] := by
  induction ws generalizing m a i with
  | nil => cases hi
  | cons w ws ih =>
    rw [List.length_cons] at hi hLen
    cases i with
    | zero =>
      -- later words lie behind the first
      have hFrame : Frame [⟨a + 8, 8 * ws.length⟩] (m.store64 a w) _ :=
        frame_storeWords (m.store64 a w) (a + 8) (by omega)
      have hDisjoint : ∀ R ∈ [Region.mk (a + 8) (8 * ws.length)], (Region.mk a 8).Disjoint R := by
        intro R hR x hx hx'
        rw [List.mem_singleton.mp hR] at hx'
        unfold Region.Has at hx hx'
        simp only at hx hx'
        bv_omega
      rw [Nat.mul_zero, BitVec.add_zero, List.getElem_cons_zero]
      exact (load64_of_frame hFrame hDisjoint).trans (load64_store64_self m a w)
    | succ i =>
      have hAddr : a + BitVec.ofNat 64 (8 * (i + 1)) = a + 8 + BitVec.ofNat 64 (8 * i) := by
        bv_omega
      rw [hAddr, List.getElem_cons_succ]
      exact ih (m.store64 a w) (a + 8) (by omega) (by omega)

end Mem

/-! ## Byte stores in memory -/

/-- The first `len` bytes of `b` are in memory at `base`. -/
def Backs (base : BitVec 64) (len : Nat) (m : Mem) (b : ByteStore) : Prop :=
  ∀ k < len, m (base + BitVec.ofNat 64 k) = b k

namespace Backs

variable {base : BitVec 64} {len off n : Nat} {m m' : Mem} {b : ByteStore}

theorem load (h : Backs base len m b) (hIn : off + n ≤ len) :
    m.load n (base + BitVec.ofNat 64 off) = b.load n off := by
  refine leBytes_congr fun k hk => ?_
  rw [BitVec.add_assoc, ← BitVec.ofNat_add]
  exact h _ (by omega)

theorem load64 (h : Backs base len m b) (hIn : off + 8 ≤ len) :
    m.load64 (base + BitVec.ofNat 64 off) = b.load64 off := h.load (n := 8) hIn

theorem frame (h : Backs base len m b) {rs : List Region} (hFrame : Frame rs m m')
    (hLen : len ≤ 2 ^ 64) (hDisjoint : ∀ R ∈ rs, (Region.mk base len).Disjoint R) :
    Backs base len m' b := by
  intro k hk
  rw [← h k hk]
  refine hFrame _ fun R hR => hDisjoint R hR _ ?_
  show (base + BitVec.ofNat 64 k - base).toNat < len
  rw [show base + BitVec.ofNat 64 k - base = BitVec.ofNat 64 k by bv_omega, BitVec.toNat_ofNat]
  omega

end Backs

end ArmRx.A64
