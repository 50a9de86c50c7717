import ArmRx.Lib.Digits

/-!
# Difficulty and target

Embeds `meets_target` (`include/armrx/mining_common.hpp`) and the two
`difficulty_to_target` functions (`src/miner_app.cpp`,
`src/stratum_client.cpp`). Both fill the target by the same schoolbook division
of `2^256 - 1`, most significant byte first, in 64-bit arithmetic.

The remainder is shifted left by a byte in each step, which loses bits once it
has more than 56 of them. `divisionLoop_loss` says how much the quotient then
falls short.

* `meetsTarget_iff` — the byte-wise comparison is the order of the numbers.
* `divisionTarget_exact_iff` — for which divisors the target is exact.
* `difficultyToTarget_exact_iff` — the same for the miner and the client.
-/

namespace ArmRx.Mining

open ArmRx.Lib

/-! ## The comparison -/

/-- `std::array<std::byte, 32>`: a hash, or the bytes of a `Target`. -/
structure Bytes32 where
  bytes : List (BitVec 8)
  length_eq : bytes.length = 32
  deriving DecidableEq

/-- The little-endian 256-bit number. -/
def Bytes32.value (b : Bytes32) : Nat := byteValue b.bytes

/-- The bytes of a 256-bit number. -/
def Bytes32.ofNat (v : Nat) : Bytes32 := ⟨bytesOfNat 32 v, bytesOfNat_length 32 v⟩

theorem Bytes32.value_ofNat {v : Nat} (h : v < 2 ^ 256) : (ofNat v).value = v :=
  byteValue_bytesOfNat h

/-- The loop of `meets_target`, most significant bytes first. -/
def compareDown : List (BitVec 8) → List (BitVec 8) → Bool
  | hashVal :: hash, targetVal :: target =>
    if hashVal < targetVal then true
    else if targetVal < hashVal then false
    else compareDown hash target
  | _, _ => true

/-- `meets_target`. -/
def meetsTarget (hash target : Bytes32) : Bool :=
  compareDown hash.bytes.reverse target.bytes.reverse

theorem compareDown_iff {hash target : List (BitVec 8)} (hLen : hash.length = target.length) :
    compareDown hash target = true ↔ byteValue hash.reverse ≤ byteValue target.reverse := by
  induction hash generalizing target with
  | nil =>
    rw [List.length_nil] at hLen
    rw [List.length_eq_zero_iff.mp hLen.symm]
    simp [compareDown]
  | cons x hash ih =>
    obtain _ | ⟨y, target⟩ := target
    · cases hLen
    have hLen' : hash.length = target.length := Nat.succ.inj hLen
    have hRev : hash.reverse.length = target.reverse.length := by simpa using hLen'
    rw [List.reverse_cons, List.reverse_cons, compareDown]
    -- the leading bytes decide unless they are equal
    by_cases hLt : x < y
    · have := byteValue_concat_lt hRev hLt
      simp only [hLt, if_true, true_iff]
      omega
    by_cases hGt : y < x
    · have := byteValue_concat_lt hRev.symm hGt
      simp only [hLt, hGt, if_true, if_false, Bool.false_eq_true, false_iff]
      omega
    · have hEq : x = y := BitVec.eq_of_toNat_eq (by
        rw [BitVec.lt_def] at hLt hGt
        omega)
      rw [if_neg hLt, if_neg hGt, ih hLen', hEq, byteValue_append, byteValue_append, hRev]
      omega

/-- The comparison is the order of the numbers. -/
theorem meetsTarget_iff (hash target : Bytes32) :
    meetsTarget hash target = true ↔ hash.value ≤ target.value := by
  have hLen : hash.bytes.reverse.length = target.bytes.reverse.length := by
    rw [List.length_reverse, List.length_reverse, hash.length_eq, target.length_eq]
  rw [meetsTarget, compareDown_iff hLen, List.reverse_reverse, List.reverse_reverse]
  exact Iff.rfl

/-! ## The division -/

/-- One iteration of the division loop: the remainder, and the target bytes
from the loop's index on. The index counts down, so the bytes grow at the
front. -/
def divisionStep (d : BitVec 64) (s : BitVec 64 × List (BitVec 8)) :
    BitVec 64 × List (BitVec 8) :=
  let val := s.1 <<< 8 ||| 0xff#64
  (val % d, (val / d).setWidth 8 :: s.2)

/-- The loop after `n` iterations. -/
def divisionLoop (d : BitVec 64) (n : Nat) : BitVec 64 × List (BitVec 8) :=
  (divisionStep d)^[n] (0, [])

theorem divisionLoop_succ (d : BitVec 64) (n : Nat) :
    divisionLoop d (n + 1) = divisionStep d (divisionLoop d n) :=
  Function.iterate_succ_apply' _ _ _

theorem divisionLoop_length (d : BitVec 64) (n : Nat) : (divisionLoop d n).2.length = n := by
  induction n with
  | zero => rfl
  | succ n ih => rw [divisionLoop_succ, divisionStep, List.length_cons, ih]

/-- The shifted remainder loses what it has above 56 bits. -/
theorem shifted_toNat (r : BitVec 64) :
    (r <<< 8 ||| 0xff#64).toNat = 256 * (r.toNat % 2 ^ 56) + 255 := by
  have hShift : r.toNat <<< 8 % 2 ^ 64 = 2 ^ 8 * (r.toNat % 2 ^ 56) := by
    rw [Nat.shiftLeft_eq]
    omega
  rw [BitVec.toNat_or, BitVec.toNat_shiftLeft, hShift, BitVec.toNat_ofNat,
    ← Nat.two_pow_add_eq_or_of_lt (by decide)]

/-- One step: quotient digit and remainder add up to the shifted remainder. -/
theorem divisionStep_spec {d : BitVec 64} (hd : 0 < d.toNat) {s : BitVec 64 × List (BitVec 8)}
    (hr : s.1.toNat < d.toNat) :
    (divisionStep d s).1.toNat < d.toNat ∧
      byteValue (divisionStep d s).2 * d.toNat + (divisionStep d s).1.toNat +
          2 ^ 64 * (s.1.toNat / 2 ^ 56) =
        256 * (byteValue s.2 * d.toNat + s.1.toNat) + 255 := by
  obtain ⟨r, bytes⟩ := s
  have hVal := shifted_toNat r
  generalize hv : r <<< 8 ||| 0xff#64 = val at hVal
  have hRem : (val % d).toNat = val.toNat % d.toNat := BitVec.toNat_umod
  have hSplit := Nat.div_add_mod val.toNat d.toNat
  -- the quotient is one digit: the remainder was below the divisor
  have hDigit : val.toNat / d.toNat < 256 := by
    rw [Nat.div_lt_iff_lt_mul hd]
    simp only at hr
    omega
  have hByte : ((val / d).setWidth 8).toNat = val.toNat / d.toNat := by
    rw [BitVec.toNat_setWidth, BitVec.toNat_udiv]
    exact Nat.mod_eq_of_lt hDigit
  simp only [divisionStep, hv, byteValue_cons, hByte, hRem]
  refine ⟨Nat.mod_lt _ hd, ?_⟩
  rw [Nat.add_mul, Nat.mul_comm (val.toNat / d.toNat), Nat.mul_assoc]
  omega

/-- The remainders of the exact division fit into 56 bits. -/
def RemaindersFit (d n : Nat) : Prop := ∀ k < n, (256 ^ k - 1) % d < 2 ^ 56

instance (d n : Nat) : Decidable (RemaindersFit d n) := by
  unfold RemaindersFit
  infer_instance

/-- What the first `n` iterations compute, and by how much it falls short. The
shortfall is nothing while every remainder fits, and more than the divisor from
the first one on that does not. -/
theorem divisionLoop_loss {d : BitVec 64} (hd : 0 < d.toNat) (n : Nat) :
    (divisionLoop d n).1.toNat < d.toNat ∧
      ∃ loss, byteValue (divisionLoop d n).2 * d.toNat + (divisionLoop d n).1.toNat + loss + 1 =
          256 ^ n ∧
        (loss = 0 ∨ 2 ^ 64 ≤ loss) ∧ (loss = 0 ↔ RemaindersFit d.toNat n) := by
  induction n with
  | zero => exact ⟨hd, 0, by simp [divisionLoop], Or.inl rfl, by simp [RemaindersFit]⟩
  | succ n ih =>
    obtain ⟨hr, loss, hSum, hGap, hFit⟩ := ih
    obtain ⟨hr', hStep⟩ := divisionStep_spec hd hr
    rw [divisionLoop_succ]
    refine ⟨hr', 256 * loss + 2 ^ 64 * ((divisionLoop d n).1.toNat / 2 ^ 56), ?_, ?_, ?_⟩
    · rw [Nat.pow_succ]
      omega
    · omega
    · have hSucc : RemaindersFit d.toNat (n + 1) ↔
          RemaindersFit d.toNat n ∧ (256 ^ n - 1) % d.toNat < 2 ^ 56 := by
        unfold RemaindersFit
        rw [Nat.forall_lt_succ_right]
      rw [hSucc, ← hFit]
      -- without a loss so far, the remainder is the exact one
      have hExact : loss = 0 → (divisionLoop d n).1.toNat = (256 ^ n - 1) % d.toNat := by
        intro hZero
        rw [← hSum, hZero, Nat.add_zero, Nat.add_sub_cancel, Nat.mul_comm,
          Nat.mul_add_mod, Nat.mod_eq_of_lt hr]
      constructor
      · intro hNone
        have hZero : loss = 0 := by omega
        exact ⟨hZero, by rw [← hExact hZero]; omega⟩
      · rintro ⟨hZero, hLow⟩
        rw [← hExact hZero] at hLow
        omega

/-- The target the loop leaves. -/
def divisionTarget (d : BitVec 64) : Bytes32 := ⟨(divisionLoop d 32).2, divisionLoop_length d 32⟩

/-- `difficulty_to_target` of the miner. -/
def difficultyToTarget (diff : BitVec 64) : Bytes32 :=
  divisionTarget (if diff = 0 then 1 else diff)

/-- **The target is exact when every remainder fits, and only then.** -/
theorem divisionTarget_exact_iff {d : BitVec 64} (hd : 0 < d.toNat) :
    (∀ hash : Bytes32, meetsTarget hash (divisionTarget d) = true ↔
        hash.value * d.toNat < 2 ^ 256) ↔ RemaindersFit d.toNat 32 := by
  obtain ⟨hr, loss, hSum, hGap, hFit⟩ := divisionLoop_loss hd 32
  have hValue : (divisionTarget d).value = byteValue (divisionLoop d 32).2 := rfl
  rw [← hValue] at hSum
  rw [← hFit]
  constructor
  · intro hAll
    by_contra hLoss
    -- the next larger hash still meets the difficulty, but not the target
    have hNext : ((divisionTarget d).value + 1) * d.toNat < 2 ^ 256 := by
      have hLt := d.isLt
      rw [Nat.add_mul, Nat.one_mul]
      omega
    have hSmall : (divisionTarget d).value + 1 < 2 ^ 256 :=
      lt_of_le_of_lt (Nat.le_mul_of_pos_right _ hd) hNext
    have hMeets := (hAll (Bytes32.ofNat ((divisionTarget d).value + 1))).mpr (by
      rwa [Bytes32.value_ofNat hSmall])
    rw [meetsTarget_iff, Bytes32.value_ofNat hSmall] at hMeets
    omega
  · intro hZero hash
    rw [meetsTarget_iff]
    constructor
    · intro hLe
      have := Nat.mul_le_mul_right d.toNat hLe
      omega
    · intro hLt
      by_contra hGt
      have := Nat.mul_le_mul_right d.toNat (Nat.succ_le_of_lt (Nat.lt_of_not_le hGt))
      rw [Nat.succ_mul] at this
      omega

/-! ## The client's difficulties are doubles -/

/-- The value of an IEEE 754 double; `none` for infinities and NaNs. -/
def doubleValue (bits : BitVec 64) : Option ℚ :=
  let exponent := (bits.extractLsb' 52 11).toNat
  let fraction := (bits.extractLsb' 0 52).toNat
  let sign : ℚ := if bits.msb then -1 else 1
  if exponent = 2047 then none
  else if exponent = 0 then some (sign * (fraction * 2 ^ (-1074 : ℤ)))
  else some (sign * ((2 ^ 52 + fraction : ℕ) * 2 ^ ((exponent : ℤ) - 1075)))

/-- `kLargestDoubleBelow2Pow64`. -/
def kLargestDoubleBelow2Pow64 : Nat := 18446744073709549568

/-- `StratumClient::difficulty_to_target`. -/
def StratumClient.difficultyToTarget (diff : BitVec 64) : Bytes32 :=
  match doubleValue diff with
  | none => ⟨List.replicate 32 0xFF#8, List.length_replicate⟩
  | some x =>
    if x ≤ 0 then ⟨List.replicate 32 0xFF#8, List.length_replicate⟩
    else
      let x := if x > kLargestDoubleBelow2Pow64 then (kLargestDoubleBelow2Pow64 : ℚ) else x
      let d := BitVec.ofNat 64 ⌊x⌋.toNat
      divisionTarget (if d = 0 then 1 else d)

/-- A double is a 53-bit number times a power of two. -/
theorem doubleValue_eq_some {bits : BitVec 64} {x : ℚ} (h : doubleValue bits = some x) :
    ∃ (m : ℕ) (e : ℤ), m < 2 ^ 53 ∧ (x = m * 2 ^ e ∨ x = -(m * 2 ^ e)) := by
  have hFraction := (bits.extractLsb' 0 52).isLt
  unfold doubleValue at h
  simp only at h
  split at h
  · cases h
  split at h
  · refine ⟨(bits.extractLsb' 0 52).toNat, -1074, by omega, ?_⟩
    obtain rfl := Option.some.inj h
    split <;> simp
  · refine ⟨2 ^ 52 + (bits.extractLsb' 0 52).toNat,
      ((bits.extractLsb' 52 11).toNat : ℤ) - 1075, by omega, ?_⟩
    obtain rfl := Option.some.inj h
    split <;> simp

/-- Whole doubles below `2 ^ 64` do not exceed the largest one. -/
theorem doubleValue_le {bits : BitVec 64} {d : Nat} (h : doubleValue bits = some (d : ℚ))
    (hd : 0 < d) (hLt : d < 2 ^ 64) : d ≤ kLargestDoubleBelow2Pow64 := by
  obtain ⟨m, e, hm, hx⟩ := doubleValue_eq_some h
  have hPow : (0 : ℚ) < 2 ^ e := by positivity
  have hPos : (d : ℚ) = m * 2 ^ e := by
    refine hx.resolve_right fun hNeg => ?_
    have hLeft : (0 : ℚ) < d := by exact_mod_cast hd
    have hRight : (0 : ℚ) ≤ m * 2 ^ e := by positivity
    linarith
  unfold kLargestDoubleBelow2Pow64
  rcases le_or_gt 11 e with hHigh | hLow
  · -- a multiple of 2 ^ 11
    obtain ⟨k, rfl⟩ := Int.eq_ofNat_of_zero_le (by omega : 0 ≤ e)
    have hNat : d = m * 2 ^ k := by
      rw [zpow_natCast] at hPos
      exact_mod_cast hPos
    obtain ⟨j, rfl⟩ := Nat.exists_eq_add_of_le (by omega : 11 ≤ k)
    have hMul : d = 2048 * (m * 2 ^ j) := by
      rw [hNat, Nat.pow_add]
      ring
    omega
  · have hScale : (2 : ℚ) ^ e ≤ 2 ^ (10 : ℤ) := zpow_le_zpow_right₀ (by norm_num) (by omega)
    rw [show (2 : ℚ) ^ (10 : ℤ) = 1024 by norm_num] at hScale
    have hBound : (d : ℚ) ≤ m * 1024 := by
      rw [hPos]
      exact mul_le_mul_of_nonneg_left hScale (by positivity)
    have : d ≤ m * 1024 := by exact_mod_cast hBound
    omega

/-- On a whole double the client runs the miner's division. -/
theorem StratumClient.difficultyToTarget_eq {d diff : BitVec 64} (hd : d ≠ 0)
    (h : doubleValue diff = some (d.toNat : ℚ)) :
    StratumClient.difficultyToTarget diff = Mining.difficultyToTarget d := by
  have hPos : 0 < d.toNat := Nat.pos_of_ne_zero fun hZero => hd (BitVec.eq_of_toNat_eq hZero)
  have hLe := doubleValue_le h hPos d.isLt
  have hNotLe : ¬(d.toNat : ℚ) ≤ 0 := by
    rw [not_le]
    exact_mod_cast hPos
  have hNotGt : ¬(d.toNat : ℚ) > kLargestDoubleBelow2Pow64 := by
    rw [gt_iff_lt, not_lt]
    exact_mod_cast hLe
  simp only [StratumClient.difficultyToTarget, h, if_neg hNotLe, if_neg hNotGt, Int.floor_natCast,
    Int.toNat_natCast, BitVec.ofNat_toNat, BitVec.setWidth_eq, Mining.difficultyToTarget]

/-! ## Which difficulties mean what they say -/

/-- **A difficulty `d` means `h * d < 2 ^ 256` exactly when no remainder of the
division outgrows 56 bits**, for the miner's function and for the client's. -/
theorem difficultyToTarget_exact_iff (d : BitVec 64) (hd : d ≠ 0) :
    ((∀ hash : Bytes32, meetsTarget hash (difficultyToTarget d) = true ↔
        hash.value * d.toNat < 2 ^ 256) ↔ RemaindersFit d.toNat 32) ∧
      ∀ diff : BitVec 64, doubleValue diff = some (d.toNat : ℚ) →
        ((∀ hash : Bytes32, meetsTarget hash (StratumClient.difficultyToTarget diff) = true ↔
          hash.value * d.toNat < 2 ^ 256) ↔ RemaindersFit d.toNat 32) := by
  have hPos : 0 < d.toNat := Nat.pos_of_ne_zero fun hZero => hd (BitVec.eq_of_toNat_eq hZero)
  have hMiner : difficultyToTarget d = divisionTarget d := by rw [difficultyToTarget, if_neg hd]
  refine ⟨?_, fun diff hDiff => ?_⟩
  · rw [hMiner]
    exact divisionTarget_exact_iff hPos
  · rw [StratumClient.difficultyToTarget_eq hd hDiff, hMiner]
    exact divisionTarget_exact_iff hPos

/-- A difficulty of 100, as an integer and as the double `100.0`. -/
theorem difficultyToTarget_exact_hundred :
    ((∀ hash : Bytes32, meetsTarget hash (difficultyToTarget 100) = true ↔
        hash.value * 100 < 2 ^ 256) ↔ RemaindersFit 100 32) ∧
      ((∀ hash : Bytes32,
          meetsTarget hash (StratumClient.difficultyToTarget 0x4059000000000000) = true ↔
            hash.value * 100 < 2 ^ 256) ↔ RemaindersFit 100 32) := by
  have hDouble : doubleValue 0x4059000000000000 = some ((100 : BitVec 64).toNat : ℚ) := by
    decide +kernel
  obtain ⟨hMiner, hClient⟩ := difficultyToTarget_exact_iff 100 (by decide)
  exact ⟨hMiner, hClient _ hDouble⟩

/-- At difficulty `2 ^ 57` the hash `2 ^ 199 - 1` is good enough and does not
meet the target. -/
theorem difficultyToTarget_two_pow_57 :
    ¬(meetsTarget (Bytes32.ofNat (2 ^ 199 - 1)) (difficultyToTarget (2 ^ 57)) = true ↔
      (Bytes32.ofNat (2 ^ 199 - 1)).value * (2 ^ 57 : BitVec 64).toNat < 2 ^ 256) := by
  decide +kernel

end ArmRx.Mining
