import ArmRx.A64.State

/-!
# A64 instructions and their execution

The A64 instructions the JIT emits and its assembly template uses, with one
execution function. Branch and literal targets are absolute offsets into the
code buffer. The rounded floating-point operations are parameters
(`FloatUnit`); conversions of integers that are exactly representable are
computed.

`Insn.address` names the data address an instruction accesses, so that a
block's accesses can be read off its execution.
-/

namespace ArmRx.A64

open ArmRx.Lib

/-- The rounded double-precision operations, under a value of `FPCR`.
`scvtfInexact` is asked only for integers that are not representable. -/
structure FloatUnit where
  add : BitVec 64 → BitVec 64 → BitVec 64 → BitVec 64
  sub : BitVec 64 → BitVec 64 → BitVec 64 → BitVec 64
  mul : BitVec 64 → BitVec 64 → BitVec 64 → BitVec 64
  div : BitVec 64 → BitVec 64 → BitVec 64 → BitVec 64
  sqrt : BitVec 64 → BitVec 64 → BitVec 64
  scvtfInexact : BitVec 64 → BitVec 64 → BitVec 64

/-- A unit that returns its first operand, for the cases where any will do. -/
def leftUnit : FloatUnit :=
  ⟨fun _ x _ => x, fun _ x _ => x, fun _ x _ => x, fun _ x _ => x, fun _ x => x, fun _ x => x⟩

inductive Cond where
  | eq | ne | hs
  deriving DecidableEq, Repr

def Cond.holds : Cond → Flags → Bool
  | .eq, f => f.z
  | .ne, f => !f.z
  | .hs, f => f.c

/-- Instructions. `d`, `n`, `m`, `t` are register numbers. -/
inductive Insn where
  | movz (d : Nat) (imm : BitVec 16) (hw : Nat)
  | movn (d : Nat) (imm : BitVec 16) (hw : Nat)
  | movk (d : Nat) (imm : BitVec 16) (hw : Nat)
  | orrImm (d n : Nat) (mask : BitVec 64)
  | addImm (d n : Nat) (imm : BitVec 64)
  | subImm (d n : Nat) (imm : BitVec 64)
  | subsImm (d n : Nat) (imm : BitVec 64)
  | addReg (d n m shift : Nat)
  | subReg (d n m shift : Nat)
  | subsReg (d n m : Nat)
  | eorReg (d n m : Nat)
  | eorReg32 (d n m : Nat)
  | orrReg (d n m : Nat)
  | orrReg32 (d n m : Nat)
  | andImm (d n : Nat) (mask : BitVec 64)
  | andImm32 (d n : Nat) (mask : BitVec 32)
  | andsImm (d n : Nat) (mask : BitVec 64)
  | madd (d n m a : Nat)
  | umulh (d n m : Nat)
  | smulh (d n m : Nat)
  | rorv (d n m : Nat)
  | extr (d n m lsb : Nat)
  | ubfx (d n lsb width : Nat)
  | bfi (d n lsb width : Nat)
  | rbit (d n : Nat)
  | mrsFpcr (d : Nat)
  | msrFpcr (n : Nat)
  | ldr (t n : Nat) (off : BitVec 64)
  | str (t n : Nat) (off : BitVec 64)
  | ldrW (t n : Nat) (off : BitVec 64)
  | strPre (t n : Nat) (off : BitVec 64)
  | ldrPost (t n : Nat) (off : BitVec 64)
  | ldrReg (t n m shift : Nat)
  | strReg (t n m : Nat)
  | ldp (t u n : Nat) (off : BitVec 64)
  | stp (t u n : Nat) (off : BitVec 64)
  | ldrD (t n : Nat) (off : BitVec 64)
  | ldrDReg (t n m : Nat)
  | ldpD (t u n : Nat) (off : BitVec 64)
  | stpD (t u n : Nat) (off : BitVec 64)
  | ldrQ (t n : Nat) (off : BitVec 64)
  | ldpQ (t u n : Nat) (off : BitVec 64)
  | stpQ (t u n : Nat) (off : BitVec 64)
  | ldrLit (t target : Nat)
  | ldrLitQ (t target : Nat)
  | prfm
  | nop
  | b (target : Nat)
  | bCond (c : Cond) (target : Nat)
  | cbzW (t target : Nat)
  | bl (target : Nat)
  | ret
  | insD (d lane n : Nat)
  | smovS (d n lane : Nat)
  | umovS (d n lane : Nat)
  | sshll (d n : Nat)
  | scvtf (d n : Nat)
  | bifV (d n m : Nat)
  | eorV (d n m : Nat)
  | extV (d n m : Nat)
  | faddV (d n m : Nat)
  | fsubV (d n m : Nat)
  | fmulV (d n m : Nat)
  | fdivV (d n m : Nat)
  | fsqrtV (d n : Nat)
  deriving DecidableEq, Repr

/-- A code buffer: instructions by offset, the data words between them, and
the address it is loaded at. -/
structure Code where
  insn : Nat → Option Insn
  word : Nat → BitVec 32
  base : BitVec 64

/-! ## Operations -/

/-- Lane `i` of a vector of 64-bit lanes. -/
def laneD (v : BitVec 128) (i : Nat) : BitVec 64 := v.extractLsb' (64 * i) 64

/-- Lane `i` of a vector of 32-bit lanes. -/
def laneS (v : BitVec 128) (i : Nat) : BitVec 32 := v.extractLsb' (32 * i) 32

/-- The vector with 64-bit lanes `lo` and `hi`. -/
def packD (lo hi : BitVec 64) : BitVec 128 := hi ++ lo

/-- Apply an operation to both 64-bit lanes. -/
def mapLanes (f : BitVec 64 → BitVec 64) (v : BitVec 128) : BitVec 128 :=
  packD (f (laneD v 0)) (f (laneD v 1))

def zipLanes (f : BitVec 64 → BitVec 64 → BitVec 64) (v w : BitVec 128) : BitVec 128 :=
  packD (f (laneD v 0) (laneD w 0)) (f (laneD v 1) (laneD w 1))

/-- The double equal to a signed integer of magnitude below `2 ^ 53`. -/
def intToDouble (x : BitVec 64) : BitVec 64 :=
  if x = 0 then 0
  else
    let sign : BitVec 1 := BitVec.ofBool x.msb
    let magnitude := x.toInt.natAbs
    let exponent := Nat.log2 magnitude
    let mantissa := (magnitude - 2 ^ exponent) * 2 ^ (52 - exponent)
    sign ++ BitVec.ofNat 11 (1023 + exponent) ++ BitVec.ofNat 52 mantissa

/-- `SCVTF` on one lane: exact where a double can be. -/
def scvtfLane (fu : FloatUnit) (fpcr x : BitVec 64) : BitVec 64 :=
  if x.toInt.natAbs < 2 ^ 53 then intToDouble x else fu.scvtfInexact fpcr x

/-- High half of the unsigned product. -/
def umulhi (a b : BitVec 64) : BitVec 64 :=
  ((a.setWidth 128 * b.setWidth 128) >>> 64).setWidth 64

/-- High half of the signed product. -/
def smulhi (a b : BitVec 64) : BitVec 64 :=
  ((a.signExtend 128 * b.signExtend 128).sshiftRight 64).setWidth 64

/-- `EXTR`: 64 bits of `n : m` from bit `lsb` on. -/
def extract (n m : BitVec 64) (lsb : Nat) : BitVec 64 := (n ++ m).extractLsb' lsb 64

/-- Flags of `a - b`. -/
def subFlags (a b : BitVec 64) : Flags :=
  { n := (a - b).msb
    z := a - b == 0
    c := decide (b.toNat ≤ a.toNat)
    v := a.ssubOverflow b }

/-- Flags of a logical result. -/
def logicFlags (r : BitVec 64) : Flags := { n := r.msb, z := r == 0, c := false, v := false }

/-- Bits of a bit-field insert. -/
def insertField (d n : BitVec 64) (lsb width : Nat) : BitVec 64 :=
  let mask := ((1#64 <<< width) - 1) <<< lsb
  d &&& ~~~mask ||| (n <<< lsb) &&& mask

/-! ## Execution -/

/-- Execute one instruction. -/
def exec (fu : FloatUnit) (code : Code) (i : Insn) (s : State) : State :=
  match i with
  | .movz d imm hw => (s.setX d (imm.setWidth 64 <<< (16 * hw))).next
  | .movn d imm hw => (s.setX d (~~~(imm.setWidth 64 <<< (16 * hw)))).next
  | .movk d imm hw =>
    (s.setX d (insertField (s.getX d) (imm.setWidth 64) (16 * hw) 16)).next
  | .orrImm d n mask => (s.setX d (s.getX n ||| mask)).next
  | .addImm d n imm => (s.setXsp d (s.getXsp n + imm)).next
  | .subImm d n imm => (s.setXsp d (s.getXsp n - imm)).next
  | .subsImm d n imm =>
    ((s.setFlags (subFlags (s.getXsp n) imm)).setX d (s.getXsp n - imm)).next
  | .addReg d n m shift => (s.setX d (s.getX n + s.getX m <<< shift)).next
  | .subReg d n m shift => (s.setX d (s.getX n - s.getX m <<< shift)).next
  | .subsReg d n m =>
    ((s.setFlags (subFlags (s.getX n) (s.getX m))).setX d (s.getX n - s.getX m)).next
  | .eorReg d n m => (s.setX d (s.getX n ^^^ s.getX m)).next
  | .eorReg32 d n m =>
    (s.setX d (((s.getX n).setWidth 32 ^^^ (s.getX m).setWidth 32).setWidth 64)).next
  | .orrReg d n m => (s.setX d (s.getX n ||| s.getX m)).next
  | .orrReg32 d n m =>
    (s.setX d (((s.getX n).setWidth 32 ||| (s.getX m).setWidth 32).setWidth 64)).next
  | .andImm d n mask => (s.setX d (s.getX n &&& mask)).next
  | .andImm32 d n mask => (s.setX d (((s.getX n).setWidth 32 &&& mask).setWidth 64)).next
  | .andsImm d n mask =>
    ((s.setFlags (logicFlags (s.getX n &&& mask))).setX d (s.getX n &&& mask)).next
  | .madd d n m a => (s.setX d (s.getX a + s.getX n * s.getX m)).next
  | .umulh d n m => (s.setX d (umulhi (s.getX n) (s.getX m))).next
  | .smulh d n m => (s.setX d (smulhi (s.getX n) (s.getX m))).next
  | .rorv d n m => (s.setX d ((s.getX n).rotateRight ((s.getX m).toNat % 64))).next
  | .extr d n m lsb => (s.setX d (extract (s.getX n) (s.getX m) lsb)).next
  | .ubfx d n lsb width => (s.setX d (((s.getX n).extractLsb' lsb width).setWidth 64)).next
  | .bfi d n lsb width => (s.setX d (insertField (s.getX d) (s.getX n) lsb width)).next
  | .rbit d n => (s.setX d (s.getX n).reverse).next
  | .mrsFpcr d => (s.setX d s.fpcr).next
  | .msrFpcr n => (s.setFpcr (s.getX n)).next
  | .ldr t n off => (s.setX t (s.mem.load64 (s.getXsp n + off))).next
  | .str t n off => (s.setMem (s.mem.store64 (s.getXsp n + off) (s.getX t))).next
  | .ldrW t n off => (s.setX t ((s.mem.load32 (s.getXsp n + off)).setWidth 64)).next
  | .strPre t n off =>
    ((s.setMem (s.mem.store64 (s.getXsp n + off) (s.getX t))).setXsp n (s.getXsp n + off)).next
  | .ldrPost t n off =>
    ((s.setX t (s.mem.load64 (s.getXsp n))).setXsp n (s.getXsp n + off)).next
  | .ldrReg t n m shift =>
    (s.setX t (s.mem.load64 (s.getXsp n + s.getX m <<< shift))).next
  | .strReg t n m => (s.setMem (s.mem.store64 (s.getXsp n + s.getX m) (s.getX t))).next
  | .ldp t u n off =>
    ((s.setX t (s.mem.load64 (s.getXsp n + off))).setX u
      (s.mem.load64 (s.getXsp n + off + 8))).next
  | .stp t u n off =>
    (s.setMem ((s.mem.store64 (s.getXsp n + off) (s.getX t)).store64
      (s.getXsp n + off + 8) (s.getX u))).next
  | .ldrD t n off => (s.setV t (packD (s.mem.load64 (s.getXsp n + off)) 0)).next
  | .ldrDReg t n m => (s.setV t (packD (s.mem.load64 (s.getXsp n + s.getX m)) 0)).next
  | .ldpD t u n off =>
    ((s.setV t (packD (s.mem.load64 (s.getXsp n + off)) 0)).setV u
      (packD (s.mem.load64 (s.getXsp n + off + 8)) 0)).next
  | .stpD t u n off =>
    (s.setMem ((s.mem.store64 (s.getXsp n + off) (laneD (s.v t) 0)).store64
      (s.getXsp n + off + 8) (laneD (s.v u) 0))).next
  | .ldrQ t n off => (s.setV t (s.mem.load128 (s.getXsp n + off))).next
  | .ldpQ t u n off =>
    ((s.setV t (s.mem.load128 (s.getXsp n + off))).setV u
      (s.mem.load128 (s.getXsp n + off + 16))).next
  | .stpQ t u n off =>
    (s.setMem ((s.mem.store128 (s.getXsp n + off) (s.v t)).store128
      (s.getXsp n + off + 16) (s.v u))).next
  | .ldrLit t target => (s.setX t (code.word (target + 4) ++ code.word target)).next
  | .ldrLitQ t target =>
    (s.setV t (packD (code.word (target + 4) ++ code.word target)
      (code.word (target + 12) ++ code.word (target + 8)))).next
  | .prfm => s.next
  | .nop => s.next
  | .b target => s.jump target
  | .bCond c target => if c.holds s.flags then s.jump target else s.next
  | .cbzW t target => if (s.getX t).setWidth 32 = 0 then s.jump target else s.next
  | .bl target => (s.setX 30 (code.base + BitVec.ofNat 64 (s.pc + 4))).jump target
  | .ret => s.jump (s.getX 30 - code.base).toNat
  | .insD d lane n =>
    (s.setV d (if lane = 0 then packD (s.getX n) (laneD (s.v d) 1)
      else packD (laneD (s.v d) 0) (s.getX n))).next
  | .smovS d n lane => (s.setX d ((laneS (s.v n) lane).signExtend 64)).next
  | .umovS d n lane => (s.setX d ((laneS (s.v n) lane).setWidth 64)).next
  | .sshll d n =>
    (s.setV d (packD ((laneS (s.v n) 0).signExtend 64) ((laneS (s.v n) 1).signExtend 64))).next
  | .scvtf d n => (s.setV d (mapLanes (scvtfLane fu s.fpcr) (s.v n))).next
  | .bifV d n m => (s.setV d (s.v d &&& s.v m ||| s.v n &&& ~~~(s.v m))).next
  | .eorV d n m => (s.setV d (s.v n ^^^ s.v m)).next
  | .extV d n m => (s.setV d (packD (laneD (s.v n) 1) (laneD (s.v m) 0))).next
  | .faddV d n m => (s.setV d (zipLanes (fu.add s.fpcr) (s.v n) (s.v m))).next
  | .fsubV d n m => (s.setV d (zipLanes (fu.sub s.fpcr) (s.v n) (s.v m))).next
  | .fmulV d n m => (s.setV d (zipLanes (fu.mul s.fpcr) (s.v n) (s.v m))).next
  | .fdivV d n m => (s.setV d (zipLanes (fu.div s.fpcr) (s.v n) (s.v m))).next
  | .fsqrtV d n => (s.setV d (mapLanes (fu.sqrt s.fpcr) (s.v n))).next

/-- The data address an instruction accesses. -/
def Insn.address (i : Insn) (s : State) : Option (BitVec 64) :=
  match i with
  | .ldr _ n off | .str _ n off | .ldrW _ n off | .strPre _ n off | .ldp _ _ n off
  | .stp _ _ n off | .ldrD _ n off | .ldpD _ _ n off | .stpD _ _ n off | .ldrQ _ n off
  | .ldpQ _ _ n off | .stpQ _ _ n off => some (s.getXsp n + off)
  | .ldrPost _ n _ => some (s.getXsp n)
  | .ldrReg _ n m shift => some (s.getXsp n + s.getX m <<< shift)
  | .strReg _ n m | .ldrDReg _ n m => some (s.getXsp n + s.getX m)
  | _ => none

end ArmRx.A64
