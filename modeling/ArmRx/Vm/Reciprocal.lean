import ArmRx.Lib.Exact
import ArmRx.Vm.State

/-!
# The reciprocal of `IMUL_RCP`

`randomx_reciprocal` (`src/superscalar.cpp`) assembles a 64-bit quotient from two
divisions of 64-bit words. Written with operations that fail where a bit would be
lost, it never fails for a divisor that is neither zero nor a power of two, and it
is the quotient of `2 ^ (63 + b)` by the divisor, with `b` the divisor's bit
length.

* `randomxReciprocal_exact` — no step overflows, the quotient is exact, and its
  top bit is set.
-/

namespace ArmRx.Vm

open ArmRx.Lib

/-- `randomx_reciprocal` with the failing operations. A zero divisor fails, as it
does the source's `assert`. -/
def randomxReciprocalChecked (divisor : BitVec 32) : Option (BitVec 64) :=
  if divisor = 0 then none
  else do
    let d := divisor.setWidth 64
    let p2exp63 ← shiftLeftExact 1#64 63
    let shift := Nat.log2 divisor.toNat + 1
    let high ← shiftLeftExact (p2exp63 / d) shift
    let low ← shiftLeftExact (p2exp63 % d) shift
    addExact high (low / d)

/-! ## The quotient in two parts -/

/-- Long division by two digits: the quotient of the leading part, shifted, and the
quotient of its shifted remainder. -/
theorem quotient_split (n d s : Nat) (hd : 0 < d) :
    n * s / d = n / d * s + n % d * s / d := by
  calc n * s / d
      = ((d * (n / d) + n % d) * s) / d := by rw [Nat.div_add_mod]
    _ = (n % d * s + d * (n / d * s)) / d := by ring_nf
    _ = n / d * s + n % d * s / d := by rw [Nat.add_mul_div_left _ _ hd, Nat.add_comm]

/-- A number that is no power of two lies strictly between two of them. -/
theorem pow_log2_lt {d : Nat} (hPow : ∀ k, d ≠ 2 ^ k) (hd : d ≠ 0) : 2 ^ Nat.log2 d < d :=
  lt_of_le_of_ne (Nat.log2_self_le hd) (hPow _).symm

theorem size_eq_log2_succ {d : Nat} (hd : d ≠ 0) : d.size = Nat.log2 d + 1 := by
  refine le_antisymm (Nat.size_le.mpr Nat.lt_log2_self) ?_
  exact Nat.lt_size.mpr (Nat.log2_self_le hd)

/-- **The reciprocal.** For a divisor that is neither zero nor a power of two, with
bit length `b`, no step of `randomx_reciprocal` overflows, the result is the
quotient of `2 ^ (63 + b)` by the divisor, and it has its top bit set. -/
theorem randomxReciprocal_exact (divisor : BitVec 32) (hZero : divisor ≠ 0)
    (hPow : ∀ k, divisor.toNat ≠ 2 ^ k) :
    randomxReciprocalChecked divisor = some (randomxReciprocal divisor) ∧
      (randomxReciprocal divisor).toNat = 2 ^ (63 + divisor.toNat.size) / divisor.toNat ∧
      2 ^ 63 ≤ (randomxReciprocal divisor).toNat ∧ (randomxReciprocal divisor).toNat < 2 ^ 64 := by
  have hd : divisor.toNat ≠ 0 := fun h => hZero (BitVec.eq_of_toNat_eq h)
  have hPos : 0 < divisor.toNat := Nat.pos_of_ne_zero hd
  have hSize := size_eq_log2_succ hd
  have hLow : 2 ^ Nat.log2 divisor.toNat < divisor.toNat := pow_log2_lt hPow hd
  have hHigh : divisor.toNat < 2 ^ (Nat.log2 divisor.toNat + 1) := Nat.lt_log2_self
  have hLog : Nat.log2 divisor.toNat + 1 ≤ 32 := (Nat.log2_lt hd).mpr divisor.isLt
  have hWide : (divisor.setWidth 64).toNat = divisor.toNat := by
    rw [BitVec.toNat_setWidth, Nat.mod_eq_of_lt (lt_trans divisor.isLt (by decide))]
  have hOne : (1#64 <<< 63).toNat = 2 ^ 63 := by decide
  have hQ : (1#64 <<< 63 / divisor.setWidth 64).toNat = 2 ^ 63 / divisor.toNat := by
    rw [BitVec.toNat_udiv, hWide, hOne]
  have hR : (1#64 <<< 63 % divisor.setWidth 64).toNat = 2 ^ 63 % divisor.toNat := by
    rw [BitVec.toNat_umod, hWide, hOne]
  rw [randomxReciprocalChecked, randomxReciprocal, hSize, if_neg hZero, if_neg hZero]
  generalize Nat.log2 divisor.toNat = n at *
  generalize divisor.toNat = d at *
  -- both shifted parts are parts of the quotient, which is below `2 ^ 64`
  have hSplit := quotient_split (2 ^ 63) d (2 ^ (n + 1)) hPos
  have hLt : 2 ^ 63 * 2 ^ (n + 1) / d < 2 ^ 64 := by
    refine (Nat.div_lt_iff_lt_mul hPos).mpr ?_
    calc 2 ^ 63 * 2 ^ (n + 1) = 2 ^ 64 * 2 ^ n := by ring
      _ < 2 ^ 64 * d := Nat.mul_lt_mul_of_pos_left hLow (by decide)
  have hGe : 2 ^ 63 ≤ 2 ^ 63 * 2 ^ (n + 1) / d := by
    refine (Nat.le_div_iff_mul_le hPos).mpr (Nat.mul_le_mul_left _ hHigh.le)
  obtain ⟨hHighSome, hHighNat⟩ := shiftLeftExact_spec hQ
    (lt_of_le_of_lt (Nat.le_add_right _ _) (hSplit ▸ hLt))
  have hRlt : 2 ^ 63 % d * 2 ^ (n + 1) < 2 ^ 64 := by
    calc 2 ^ 63 % d * 2 ^ (n + 1)
        < 2 ^ (n + 1) * 2 ^ (n + 1) :=
          Nat.mul_lt_mul_of_pos_right (lt_trans (Nat.mod_lt _ hPos) hHigh) (Nat.two_pow_pos _)
      _ = 2 ^ (2 * (n + 1)) := by ring
      _ ≤ 2 ^ 64 := Nat.pow_le_pow_right (by decide) (by omega)
  obtain ⟨hLowSome, hLowNat⟩ := shiftLeftExact_spec hR hRlt
  have hLowPart : ((1#64 <<< 63 % divisor.setWidth 64) <<< (n + 1) / divisor.setWidth 64).toNat =
      2 ^ 63 % d * 2 ^ (n + 1) / d := by
    rw [BitVec.toNat_udiv, hWide, hLowNat]
  obtain ⟨hSumSome, hSumNat⟩ := addExact_spec hHighNat hLowPart (hSplit ▸ hLt)
  rw [← hSplit] at hSumNat
  have hFirst : shiftLeftExact 1#64 63 = some (1#64 <<< 63) := by decide
  refine ⟨?_, ?_, hSumNat ▸ hGe, hSumNat ▸ hLt⟩
  · simp only [hFirst, Option.bind_eq_bind, Option.bind_some, hHighSome, hLowSome]
    exact hSumSome
  · rw [hSumNat, ← pow_add]

/-- The reciprocal of three, the smallest divisor with one. -/
theorem randomxReciprocal_three :
    (randomxReciprocal 3).toNat = 2 ^ 65 / 3 ∧ 2 ^ 63 ≤ (randomxReciprocal 3).toNat := by
  have hPow : ∀ k, (3#32).toNat ≠ 2 ^ k := by
    intro k hk
    have hMod : k < 2 := by
      by_contra hLe
      have := Nat.pow_le_pow_right (n := 2) (by decide) (Nat.le_of_not_lt hLe)
      rw [← hk] at this
      exact absurd this (by decide)
    interval_cases k <;> exact absurd hk (by decide)
  obtain ⟨-, hExact, hGe, -⟩ := randomxReciprocal_exact 3#32 (by decide) hPow
  exact ⟨by rw [show (3 : BitVec 32) = 3#32 from rfl, hExact]; decide, hGe⟩

end ArmRx.Vm
