import ArmRx.Lib.Bytes
import ArmRx.Lib.Literals
import ArmRx.Vm.Instruction

/-!
# VM state

The register file, scratchpad and rounding mode a RandomX program works on,
with the arithmetic helpers at the top of `src/vm.cpp`. Floating-point values
are their 64-bit patterns; the five rounded operations are parameters
(`FpOps`), everything the source does on bit patterns is computed.
-/

namespace ArmRx.Vm

open ArmRx.Lib

/-- `struct FloatRegister`: two doubles, as bit patterns. -/
@[ext] structure FloatRegister where
  lo : BitVec 64
  hi : BitVec 64
  deriving DecidableEq, Repr

/-- The rounded floating-point operations. Each takes the rounding mode
(0 nearest, 1 down, 2 up, 3 toward zero) and its operands' bit patterns. -/
structure FpOps where
  add : BitVec 2 → BitVec 64 → BitVec 64 → BitVec 64
  sub : BitVec 2 → BitVec 64 → BitVec 64 → BitVec 64
  mul : BitVec 2 → BitVec 64 → BitVec 64 → BitVec 64
  div : BitVec 2 → BitVec 64 → BitVec 64 → BitVec 64
  sqrt : BitVec 2 → BitVec 64 → BitVec 64

/-- Operations that return their first operand, for the cases where any will do. -/
def leftOps : FpOps :=
  ⟨fun _ x _ => x, fun _ x _ => x, fun _ x _ => x, fun _ x _ => x, fun _ x => x⟩

/-- `RegisterFile`, scratchpad and rounding mode. `roundingHistory` lists every
mode `CFROUND` has selected, latest first. -/
@[ext] structure VmState where
  r : Fin 8 → BitVec 64
  f : Fin 4 → FloatRegister
  e : Fin 4 → FloatRegister
  a : Fin 4 → FloatRegister
  scratchpad : ByteStore
  lastRoundingMode : BitVec 2
  roundingHistory : List (BitVec 2)

namespace VmState

def setR (s : VmState) (i : Fin 8) (v : BitVec 64) : VmState :=
  { s with r := Function.update s.r i v }

def setF (s : VmState) (i : Fin 4) (v : FloatRegister) : VmState :=
  { s with f := Function.update s.f i v }

def setE (s : VmState) (i : Fin 4) (v : FloatRegister) : VmState :=
  { s with e := Function.update s.e i v }

@[simp] theorem setR_r (s : VmState) (i : Fin 8) (v : BitVec 64) :
    (s.setR i v).r = Function.update s.r i v := rfl

@[simp] theorem setR_scratchpad (s : VmState) (i : Fin 8) (v : BitVec 64) :
    (s.setR i v).scratchpad = s.scratchpad := rfl

end VmState

/-! ## Configuration constants -/

/-- `scratchpad_mask`. -/
def scratchpadMask (bytes alignment : Nat) : BitVec 32 :=
  BitVec.ofNat 32 ((bytes / alignment - 1) * alignment)

def kRandomXScratchpadL1Bytes : Nat := 16 * 1024
def kRandomXScratchpadL2Bytes : Nat := 256 * 1024
def kRandomXScratchpadBytes : Nat := 2 * 1024 * 1024

def kScratchpadL1Mask : BitVec 32 := scratchpadMask kRandomXScratchpadL1Bytes 8
def kScratchpadL2Mask : BitVec 32 := scratchpadMask kRandomXScratchpadL2Bytes 8
def kScratchpadL3Mask : BitVec 32 := scratchpadMask kRandomXScratchpadBytes 8
def kScratchpadL3Mask64 : BitVec 32 := scratchpadMask kRandomXScratchpadBytes 64

/-! ## Arithmetic helpers -/

/-- `signExtend2sCompl`. -/
def signExtend2sCompl (x : BitVec 32) : BitVec 64 := x.signExtend 64

/-- `rotr`. -/
def rotr (value : BitVec 64) (shift : Nat) : BitVec 64 := value.rotateRight shift

/-- `std::rotl`. -/
def rotl (value : BitVec 64) (shift : Nat) : BitVec 64 := value.rotateLeft shift

/-- `mulh`: the high half of the unsigned 128-bit product. -/
def mulh (a b : BitVec 64) : BitVec 64 :=
  ((a.setWidth 128 * b.setWidth 128) >>> 64).setWidth 64

/-- `smulh`: the high half of the signed 128-bit product. -/
def smulh (a b : BitVec 64) : BitVec 64 :=
  ((a.signExtend 128 * b.signExtend 128).sshiftRight 64).setWidth 64

/-- `isZeroOrPowerOf2`. -/
def isZeroOrPowerOf2 (x : BitVec 64) : Bool := x &&& (x - 1) == 0

/-- The same test on 32 bits, as the compilers make it. -/
theorem isZeroOrPowerOf2_setWidth (x : BitVec 32) :
    isZeroOrPowerOf2 (x.setWidth 64) = (x &&& (x - 1) == 0) := by
  unfold isZeroOrPowerOf2
  by_cases hZero : x = 0
  · subst hZero
    decide
  · have hPos : 1 ≤ x.toNat := Nat.one_le_iff_ne_zero.mpr fun h => hZero (BitVec.eq_of_toNat_eq h)
    have hSub : x.setWidth 64 - 1 = (x - 1).setWidth 64 := by
      have hLt := x.isLt
      apply BitVec.eq_of_toNat_eq
      rw [BitVec.toNat_sub, BitVec.toNat_setWidth, BitVec.toNat_setWidth, BitVec.toNat_sub]
      simp only [BitVec.ofNat_eq_ofNat, BitVec.toNat_ofNat]
      omega
    rw [hSub, ← BitVec.setWidth_and, Bool.eq_iff_iff, beq_iff_eq, beq_iff_eq]
    constructor
    · intro h
      apply BitVec.eq_of_toNat_eq
      have hNat := congrArg BitVec.toNat h
      have hLt := (x &&& (x - 1)).isLt
      rw [BitVec.toNat_setWidth] at hNat
      simp only [BitVec.ofNat_eq_ofNat, BitVec.toNat_ofNat] at hNat ⊢
      omega
    · intro h
      rw [h]
      rfl

/-- `randomx_reciprocal` (`src/superscalar.cpp`). The shift is the bit length
of the divisor, `64 - clz(divisor)`. -/
def randomxReciprocal (divisor : BitVec 32) : BitVec 64 :=
  let d := divisor.setWidth 64
  let p2exp63 := 1#64 <<< 63
  let q := p2exp63 / d
  let r := p2exp63 % d
  let shift := if divisor = 0 then 0 else Nat.log2 divisor.toNat + 1
  (q <<< shift) + (r <<< shift) / d

def mantissaSize : Nat := 52
def dynamicExponentBits : Nat := 4

/-- `dynamicMantissaMask`: the mantissa and the four low exponent bits. -/
def dynamicMantissaMask : BitVec 64 := (1#64 <<< (mantissaSize + dynamicExponentBits)) - 1

/-- `unsigned32ToSigned2sCompl`: the double equal to `x` read as a signed
32-bit integer. Every such integer is a double, so no rounding mode enters. -/
def unsigned32ToSigned2sCompl (x : BitVec 32) : BitVec 64 :=
  if x = 0 then 0
  else
    let sign : BitVec 1 := BitVec.ofBool x.msb
    let magnitude := x.toInt.natAbs
    let exponent := Nat.log2 magnitude
    -- drop the leading one, left-align the rest in the mantissa field
    let mantissa := (magnitude - 2 ^ exponent) * 2 ^ (52 - exponent)
    sign ++ BitVec.ofNat 11 (1023 + exponent) ++ BitVec.ofNat 52 mantissa

/-- `rx_set_rounding_mode`. The source skips the `fesetround` when the mode is
already selected, which leaves the same mode in force. -/
def rxSetRoundingMode (mode : BitVec 2) (s : VmState) : VmState :=
  { s with
    lastRoundingMode := mode
    roundingHistory := mode :: s.roundingHistory }

end ArmRx.Vm
