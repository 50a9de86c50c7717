import ArmRx.Jit.MemoryAccess
import ArmRx.Jit.Template
import ArmRx.Lib.Binary64
import ArmRx.Vm.RunInterpreted

/-!
# The mask of the E group

Before a division, the interpreter keeps the low 56 bits of a converted integer
and ORs the mask that `getFloatMask` draws from the entropy. The emitted code has
the mask in `v30`, a second one in `v29`, and `BIF` replaces the bits that are
clear in `v29`; these include the low 22 bits of the fraction, which the
interpreter keeps. They are clear in every converted 32-bit integer.

* `converted_low_zero` — the low 22 bits of a converted integer.
* `bif_eq_mask` — the two maskings agree.
* `masked_bounds` — the result is positive, normal and finite.
* `eMasking_agrees` — the code of `FDIV_M` and the interpreter.
* `hFdivM_emits`, `execAll_loadMasks` — where this code and its masks come from.
-/

namespace ArmRx.Jit

open ArmRx.Lib ArmRx.Vm ArmRx.A64

/-! ## Converted integers -/

theorem natAbs_toInt_le (x : BitVec 32) : x.toInt.natAbs ≤ 2 ^ 31 := by
  have := x.isLt
  rw [BitVec.toInt_eq_toNat_cond]
  split <;> omega

theorem natAbs_toInt_ne_zero {x : BitVec 32} (h : x ≠ 0) : x.toInt.natAbs ≠ 0 := by
  intro hZero
  refine h (BitVec.eq_of_toInt_eq ?_)
  rw [Int.natAbs_eq_zero.mp hZero]
  rfl

/-- A converted integer that is not zero, as a packed pattern. -/
theorem unsigned32ToSigned2sCompl_eq {x : BitVec 32} (h : x ≠ 0) :
    unsigned32ToSigned2sCompl x =
      Binary64.pack x.msb (Nat.log2 x.toInt.natAbs) x.toInt.natAbs := by
  rw [unsigned32ToSigned2sCompl, if_neg h]
  rfl

theorem log2_natAbs_le {x : BitVec 32} (h : x ≠ 0) :
    Nat.log2 x.toInt.natAbs ≤ 30 ∨ x.toInt.natAbs = 2 ^ Nat.log2 x.toInt.natAbs := by
  have hLe := natAbs_toInt_le x
  by_cases hMin : x.toInt.natAbs = 2 ^ 31
  · rw [hMin, Nat.log2_two_pow]
    exact .inr rfl
  · have hLog : Nat.log2 x.toInt.natAbs < 31 :=
      (Nat.log2_lt (natAbs_toInt_ne_zero h)).mpr (by omega)
    exact .inl (by omega)

theorem log2_natAbs_lt {x : BitVec 32} (h : x ≠ 0) : Nat.log2 x.toInt.natAbs < 32 :=
  (Nat.log2_lt (natAbs_toInt_ne_zero h)).mpr (by have := natAbs_toInt_le x; omega)

/-- **The conversion is exact.** -/
theorem unsigned32ToSigned2sCompl_value (x : BitVec 32) :
    Binary64.value (unsigned32ToSigned2sCompl x) = x.toInt := by
  by_cases h : x = 0
  · subst h
    exact Binary64.value_zero
  · have hNe := natAbs_toInt_ne_zero h
    have hLog := log2_natAbs_lt h
    rw [unsigned32ToSigned2sCompl_eq h, Binary64.value_pack (by omega) (Nat.log2_self_le hNe)
      Nat.lt_log2_self, BitVec.msb_eq_toInt]
    by_cases hNeg : x.toInt < 0
    · rw [decide_eq_true hNeg, if_pos rfl, Nat.cast_natAbs, abs_of_neg hNeg]
      push_cast
      ring
    · rw [decide_eq_false hNeg, if_neg Bool.false_ne_true, Nat.cast_natAbs,
        abs_of_nonneg (not_lt.mp hNeg)]

/-- **The low 22 bits of a converted integer are clear**, those of `-2 ^ 31`
included. -/
theorem converted_low_zero (x : BitVec 32) :
    (unsigned32ToSigned2sCompl x).toNat % 2 ^ 22 = 0 := by
  by_cases h : x = 0
  · subst h
    rfl
  · have hLog := log2_natAbs_lt h
    rw [unsigned32ToSigned2sCompl_eq h]
    exact Binary64.pack_low_zero (by omega) (by omega) Nat.lt_log2_self
      ((log2_natAbs_le h).imp_left fun hShort => by omega)

/-- `SXTL` and `SCVTF` convert as the interpreter does. -/
theorem scvtfLane_signExtend (fu : FloatUnit) (fpcr : BitVec 64) (x : BitVec 32) :
    scvtfLane fu fpcr (x.signExtend 64) = unsigned32ToSigned2sCompl x := by
  have hInt : (x.signExtend 64).toInt = x.toInt := BitVec.toInt_signExtend_of_le (by omega)
  have hLe := natAbs_toInt_le x
  have hMsb : (x.signExtend 64).msb = x.msb := by
    rw [BitVec.msb_eq_toInt, BitVec.msb_eq_toInt, hInt]
  have hZero : x.signExtend 64 = 0 ↔ x = 0 := by
    rw [← BitVec.toInt_inj, ← BitVec.toInt_inj, hInt]
    rfl
  rw [scvtfLane, hInt, if_pos (by omega)]
  unfold intToDouble unsigned32ToSigned2sCompl
  rw [hInt, hMsb]
  exact if_congr hZero rfl rfl

/-! ## The masks -/

/-- The mask in both lanes of `v29`. -/
def eAndMask : BitVec 64 := 0x00FFFFFFFFC00000

/-- One lane of `BIF`. -/
def bifLane (d n m : BitVec 64) : BitVec 64 := d &&& m ||| n &&& ~~~m

theorem eAndMask_bit {i : Nat} (hi : i < 64) :
    eAndMask.getLsbD i = decide (22 ≤ i ∧ i < 56) := by
  revert i
  decide

theorem dynamicMantissaMask_bit {i : Nat} (hi : i < 64) :
    dynamicMantissaMask.getLsbD i = decide (i < 56) := by
  revert i
  decide

theorem lowMask_bit {i : Nat} (hi : i < 64) :
    ((1#64 <<< 22) - 1).getLsbD i = decide (i < 22) := by
  revert i
  decide

theorem constExponent_bit {i : Nat} (hi : i < 4) : (0x300#64).getLsbD i = false := by
  revert i
  decide

/-- The mask leaves the bits that `v29` keeps to the operand. -/
theorem getFloatMask_bit (entropy : BitVec 64) {i : Nat} (hLow : 22 ≤ i) (hHigh : i < 56) :
    (getFloatMask entropy).getLsbD i = false := by
  have hExponent : (getStaticExponent entropy).getLsbD i = false := by
    unfold getStaticExponent mantissaSize dynamicExponentBits
    rw [BitVec.getLsbD_shiftLeft]
    by_cases hi : i < 52
    · simp [hi]
    · rw [BitVec.getLsbD_or, constExponent_bit (by omega), BitVec.getLsbD_shiftLeft]
      simp [show i - 52 < 4 by omega]
  rw [getFloatMask, BitVec.getLsbD_or, BitVec.getLsbD_and, lowMask_bit (by omega), hExponent]
  simp [show ¬i < 22 by omega]

theorem converted_bit (x : BitVec 32) {i : Nat} (hi : i < 22) :
    (unsigned32ToSigned2sCompl x).getLsbD i = false := by
  have hBit : ((unsigned32ToSigned2sCompl x).toNat % 2 ^ 22).testBit i = false := by
    rw [converted_low_zero]
    exact Nat.zero_testBit i
  rwa [Nat.testBit_mod_two_pow, decide_eq_true hi, Bool.true_and, BitVec.testBit_toNat] at hBit

/-- **The two maskings agree** on a converted integer. -/
theorem bif_eq_mask (x : BitVec 32) (entropy : BitVec 64) :
    bifLane (unsigned32ToSigned2sCompl x) (getFloatMask entropy) eAndMask =
      unsigned32ToSigned2sCompl x &&& dynamicMantissaMask ||| getFloatMask entropy := by
  apply BitVec.eq_of_getLsbD_eq
  intro i hi
  unfold bifLane
  rw [BitVec.getLsbD_or, BitVec.getLsbD_and, BitVec.getLsbD_and, BitVec.getLsbD_not,
    BitVec.getLsbD_or, BitVec.getLsbD_and, eAndMask_bit hi, dynamicMantissaMask_bit hi]
  by_cases hLow : i < 22
  · rw [converted_bit x hLow]
    simp [hi, show ¬22 ≤ i by omega]
  · by_cases hHigh : i < 56
    · simp [getFloatMask_bit entropy (show 22 ≤ i by omega) hHigh, hHigh, show 22 ≤ i by omega]
    · simp [hHigh, hi]

/-- **The masked operand is positive, normal and finite**: its sign is clear and
its exponent lies between `0x300` and `0x3FF`. -/
theorem masked_bounds (bits entropy : BitVec 64) :
    0x300 * 2 ^ 52 ≤ (bits &&& dynamicMantissaMask ||| getFloatMask entropy).toNat ∧
      (bits &&& dynamicMantissaMask ||| getFloatMask entropy).toNat < 0x400 * 2 ^ 52 := by
  have hExponent : (0x300#64 ||| (entropy >>> 60) <<< dynamicExponentBits).toNat < 2 ^ 10 := by
    have hNibble : (entropy >>> 60).toNat < 2 ^ 4 := by
      have := entropy.isLt
      rw [BitVec.toNat_ushiftRight, Nat.shiftRight_eq_div_pow]
      omega
    rw [BitVec.toNat_or]
    refine Nat.or_lt_two_pow (by decide) ?_
    rw [BitVec.toNat_shiftLeft, Nat.shiftLeft_eq, dynamicExponentBits]
    omega
  have hStatic : (getStaticExponent entropy).toNat =
      (0x300#64 ||| (entropy >>> 60) <<< dynamicExponentBits).toNat * 2 ^ 52 := by
    rw [getStaticExponent, mantissaSize, BitVec.toNat_shiftLeft, Nat.shiftLeft_eq]
    omega
  have hLeast : 0x300 ≤ (0x300#64 ||| (entropy >>> 60) <<< dynamicExponentBits).toNat := by
    rw [BitVec.toNat_or]
    exact Nat.left_le_or
  constructor
  · calc 0x300 * 2 ^ 52 ≤ (getStaticExponent entropy).toNat := by omega
      _ ≤ (getFloatMask entropy).toNat := by
        rw [getFloatMask, BitVec.toNat_or]
        exact Nat.right_le_or
      _ ≤ _ := by
        rw [BitVec.toNat_or]
        exact Nat.right_le_or
  · have hLow (y mask : BitVec 64) (hMask : mask.toNat < 2 ^ 62) : (y &&& mask).toNat < 2 ^ 62 := by
      rw [BitVec.toNat_and]
      exact Nat.lt_of_le_of_lt Nat.and_le_right hMask
    change _ < 2 ^ 62
    rw [BitVec.toNat_or]
    refine Nat.or_lt_two_pow (hLow _ _ (by decide)) ?_
    rw [getFloatMask, BitVec.toNat_or]
    exact Nat.or_lt_two_pow (hLow _ _ (by decide)) (by omega)

/-- Positive, normal and finite, with the exponent of the E group. -/
def InGroupE (b : BitVec 64) : Prop :=
  Binary64.sign b = false ∧ Binary64.IsNormal b ∧ 0x300 ≤ Binary64.exponent b ∧
    Binary64.exponent b ≤ 0x3FF

theorem masked_inGroupE (bits entropy : BitVec 64) :
    InGroupE (bits &&& dynamicMantissaMask ||| getFloatMask entropy) := by
  obtain ⟨hLow, hHigh⟩ := masked_bounds bits entropy
  generalize bits &&& dynamicMantissaMask ||| getFloatMask entropy = b at hLow hHigh
  have hSign : Binary64.sign b = false := by
    rw [Binary64.sign, BitVec.msb_eq_decide, decide_eq_false_iff_not]
    omega
  have hExponent : 0x300 ≤ Binary64.exponent b ∧ Binary64.exponent b ≤ 0x3FF := by
    unfold Binary64.exponent
    omega
  exact ⟨hSign, ⟨by omega, by omega⟩, hExponent⟩

/-! ## The code -/

/-- What `FDIV_M` does to the loaded words before it divides. -/
def maskOperand : List Insn := [.sshll 28 28, .scvtf 28 28, .bifV 28 30 29]

theorem laneD_packD_zero (lo hi : BitVec 64) : laneD (packD lo hi) 0 = lo :=
  BitVec.extractLsb'_append_eq_right

theorem laneD_packD_one (lo hi : BitVec 64) : laneD (packD lo hi) 1 = hi :=
  BitVec.extractLsb'_append_eq_left

theorem bif_packD (d₀ d₁ n₀ n₁ m₀ m₁ : BitVec 64) :
    (packD d₀ d₁ &&& packD m₀ m₁ ||| packD n₀ n₁ &&& ~~~packD m₀ m₁) =
      packD (bifLane d₀ n₀ m₀) (bifLane d₁ n₁ m₁) := by
  unfold packD bifLane
  rw [BitVec.not_append, BitVec.and_append, BitVec.and_append, BitVec.or_append]

/-- The masks as the prologue leaves them, for two words of entropy. -/
structure MasksLoaded (entropyLo entropyHi : BitVec 64) (s : State) : Prop where
  and : s.v 29 = packD eAndMask eAndMask
  or : s.v 30 = packD (getFloatMask entropyLo) (getFloatMask entropyHi)

/-- The two words in `v28` as the interpreter converts them. -/
def convertedWords (s : State) : FloatRegister :=
  ⟨unsigned32ToSigned2sCompl (laneS (s.v 28) 0), unsigned32ToSigned2sCompl (laneS (s.v 28) 1)⟩

/-- The operand the interpreter divides by. -/
def maskedWords (entropyLo entropyHi : BitVec 64) (s : State) : FloatRegister :=
  maskFloat ⟨getFloatMask entropyLo, getFloatMask entropyHi⟩ (convertedWords s)

theorem execAll_maskOperand (fu : FloatUnit) (code : Code) (s : State) :
    (execAll fu code maskOperand s).v 28 =
      (packD (convertedWords s).lo (convertedWords s).hi &&& s.v 29 |||
        s.v 30 &&& ~~~s.v 29) := by
  have hConvert : mapLanes (scvtfLane fu s.fpcr) (packD ((laneS (s.v 28) 0).signExtend 64)
      ((laneS (s.v 28) 1).signExtend 64)) =
      packD (convertedWords s).lo (convertedWords s).hi := by
    rw [mapLanes, laneD_packD_zero, laneD_packD_one, scvtfLane_signExtend, scvtfLane_signExtend]
    rfl
  rw [← hConvert]
  rfl

/-- The emitted code leaves in `v28` what the interpreter divides by. -/
theorem maskOperand_agrees (fu : FloatUnit) (code : Code) {s : State}
    {entropyLo entropyHi : BitVec 64} (hMasks : MasksLoaded entropyLo entropyHi s) :
    (execAll fu code maskOperand s).v 28 = packD (maskedWords entropyLo entropyHi s).lo
      (maskedWords entropyLo entropyHi s).hi := by
  rw [execAll_maskOperand, hMasks.and, hMasks.or, bif_packD]
  exact congrArg₂ packD (bif_eq_mask _ _) (bif_eq_mask _ _)

/-- A state with two scratchpad words in `v28` and the masks of two words of entropy
in place. -/
def maskingState (s : State) (lo hi : BitVec 32) (entropyLo entropyHi : BitVec 64) : State :=
  ((s.setV 28 (packD (hi ++ lo) 0)).setV 29 (packD eAndMask eAndMask)).setV 30
    (packD (getFloatMask entropyLo) (getFloatMask entropyHi))

theorem laneS_loaded (lo hi : BitVec 32) :
    laneS (packD (hi ++ lo) 0) 0 = lo ∧ laneS (packD (hi ++ lo) 0) 1 = hi := by
  have hLane (i : Nat) (hi' : 32 * i + 32 ≤ 64) :
      laneS (packD (hi ++ lo) 0) i = (hi ++ lo).extractLsb' (32 * i) 32 :=
    BitVec.extractLsb'_append_eq_of_add_le hi'
  rw [hLane 0 (by omega), hLane 1 (by omega)]
  exact ⟨BitVec.extractLsb'_append_eq_right, BitVec.extractLsb'_append_eq_left⟩

/-- **The masking of the E group agrees bit for bit**, for any two scratchpad words
and any two words of entropy: the emitted code leaves in `v28` what the interpreter
divides by. The words are converted exactly, and the masked operands are positive,
normal and finite. -/
theorem eMasking_agrees (fu : FloatUnit) (code : Code) (s : State) (lo hi : BitVec 32)
    (entropyLo entropyHi : BitVec 64) :
    let converted : FloatRegister := ⟨unsigned32ToSigned2sCompl lo, unsigned32ToSigned2sCompl hi⟩
    let eMask : FloatRegister := ⟨getFloatMask entropyLo, getFloatMask entropyHi⟩
    Binary64.value converted.lo = lo.toInt ∧ Binary64.value converted.hi = hi.toInt ∧
      (execAll fu code maskOperand (maskingState s lo hi entropyLo entropyHi)).v 28 =
        packD (maskFloat eMask converted).lo (maskFloat eMask converted).hi ∧
      InGroupE (maskFloat eMask converted).lo ∧ InGroupE (maskFloat eMask converted).hi := by
  have hMasks : MasksLoaded entropyLo entropyHi (maskingState s lo hi entropyLo entropyHi) :=
    ⟨rfl, rfl⟩
  obtain ⟨hLo, hHi⟩ := laneS_loaded lo hi
  have hWords : convertedWords (maskingState s lo hi entropyLo entropyHi) =
      ⟨unsigned32ToSigned2sCompl lo, unsigned32ToSigned2sCompl hi⟩ := by
    change FloatRegister.mk (unsigned32ToSigned2sCompl (laneS (packD (hi ++ lo) 0) 0))
      (unsigned32ToSigned2sCompl (laneS (packD (hi ++ lo) 0) 1)) = _
    rw [hLo, hHi]
  have hCode := maskOperand_agrees fu code hMasks
  rw [maskedWords, hWords] at hCode
  exact ⟨unsigned32ToSigned2sCompl_value lo, unsigned32ToSigned2sCompl_value hi, hCode,
    masked_inGroupE _ _, masked_inGroupE _ _⟩

/-! ## Where the code and the masks come from -/

/-- The part of the prologue that loads the masks. -/
def loadMasks : List Insn := [.orrImm 16 31 eAndMask, .insD 29 0 16, .insD 29 1 16, .ldrQ 30 0 64]

theorem loadRegisters_masks :
    loadRegisters = loadRegisters.take 5 ++ loadMasks ++ loadRegisters.drop 9 := rfl

/-- `v29` is set from a constant, `v30` is loaded from the slot of `f[0]`. -/
theorem execAll_loadMasks (fu : FloatUnit) (code : Code) (s : State) :
    (execAll fu code loadMasks s).v 29 = packD eAndMask eAndMask ∧
      (execAll fu code loadMasks s).v 30 = s.mem.load128 (s.x 0 + 64) := by
  have hAnd : (execAll fu code loadMasks s).v 29 =
      packD (laneD (packD (0 ||| eAndMask) (laneD (s.v 29) 1)) 0) (0 ||| eAndMask) := rfl
  refine ⟨?_, rfl⟩
  rw [hAnd, laneD_packD_zero, show 0 ||| eAndMask = eAndMask from BitVec.zero_or]

/-- The code `h_FDIV_M` emits masks its operand so. -/
theorem hFdivM_emits {em : Emitter} (instr : Instruction) (hEm : em.Ready) :
    ∃ front, Emits em (JitCompilerA64.hFdivM instr em) (front ++ maskOperand ++
      [.fdivV ((fregOf instr.dst).val + 20) ((fregOf instr.dst).val + 20) 28]) := by
  have hSrc := srcReg_range instr
  have hRoom := hEm.room
  have hLoad : Emits em (emitMemLoadFP (srcReg instr) instr em) _ :=
    emitMemLoadFP_emits (by omega) (by omega) hEm.literalPos_le
  have hCode := hLoad.trans (hFdivM_emits_rest instr hEm)
  refine ⟨(if maskedImm instr ≠ 0 then
    addInsns em.num32bitLiterals 19 (srcReg instr) (maskedImm instr) else []) ++
      [.andImm 19 19 (offsetMask 64 (levelBits instr)), .ldrDReg 28 2 19], ?_⟩
  simpa only [memLoadFPInsns, maskOperand, List.append_assoc, List.cons_append, List.nil_append]
    using hCode

end ArmRx.Jit
