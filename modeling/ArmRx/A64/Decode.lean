import ArmRx.A64.Run
import ArmRx.Lib.Literals

/-!
# Decoding A64 words

`decode` reads the fields of a 32-bit word by division and remainder, which
keeps it executable and lets linear arithmetic evaluate it on words that are
put together from symbolic fields. Encodings outside the JIT's repertoire
decode to `none`.

* `or_field_toNat` — fields that do not overlap add up.
* `decode_*` — what the emitted instruction forms decode to, for all registers
  and immediates.
-/

namespace ArmRx.A64

/-- Target of a PC-relative word offset of the given width. -/
def branchTarget (pc imm width : Nat) : Nat :=
  if imm < 2 ^ (width - 1) then pc + 4 * imm else pc + 4 * imm - 4 * 2 ^ width

/-- `count` ones, rotated right: the logical immediates with a full-width
element. -/
def bitmask (w count rot : Nat) : BitVec w := ((1#w <<< count) - 1).rotateRight rot

/-- Decode the word at offset `pc`. -/
def decode (pc : Nat) (w : BitVec 32) : Option Insn :=
  let n := w.toNat
  let rd := n % 32
  let rn := n / 2 ^ 5 % 32
  let rm := n / 2 ^ 16 % 32
  let ra := n / 2 ^ 10 % 32
  let imm6 := n / 2 ^ 10 % 64
  let immr := n / 2 ^ 16 % 64
  let imm12 := n / 2 ^ 10 % 2 ^ 12
  let imm16 := BitVec.ofNat 16 (n / 2 ^ 5 % 2 ^ 16)
  let hw := n / 2 ^ 21 % 4
  match n / 2 ^ 24 with
  -- data processing, immediate
  | 0x91 =>
    match n / 2 ^ 22 % 4 with
    | 0 => some (.addImm rd rn (BitVec.ofNat 64 imm12))
    | 1 => some (.addImm rd rn (BitVec.ofNat 64 (imm12 * 2 ^ 12)))
    | _ => none
  | 0xD2 => if n / 2 ^ 23 % 2 = 1 then some (.movz rd imm16 hw) else none
  | 0x92 =>
    if n / 2 ^ 23 % 2 = 1 then some (.movn rd imm16 hw)
    else if n / 2 ^ 22 % 2 = 1 then some (.andImm rd rn (bitmask 64 (imm6 + 1) immr))
    else none
  | 0xF2 =>
    if n / 2 ^ 23 % 2 = 1 then some (.movk rd imm16 hw)
    else if n / 2 ^ 22 % 2 = 1 then some (.andsImm rd rn (bitmask 64 (imm6 + 1) immr))
    else none
  | 0x12 =>
    if n / 2 ^ 22 % 4 = 0 ∧ imm6 < 31 ∧ immr < 32 then
      some (.andImm32 rd rn (bitmask 32 (imm6 + 1) immr))
    else none
  | 0xD3 =>
    if n / 2 ^ 22 % 4 = 1 ∧ immr ≤ imm6 then some (.ubfx rd rn immr (imm6 - immr + 1)) else none
  | 0xB3 =>
    if n / 2 ^ 22 % 4 = 1 ∧ imm6 < immr then some (.bfi rd rn (64 - immr) (imm6 + 1)) else none
  | 0x93 => if n / 2 ^ 21 % 8 = 6 then some (.extr rd rn rm imm6) else none
  -- data processing, register
  | 0x8B => if n / 2 ^ 21 % 8 = 0 then some (.addReg rd rn rm imm6) else none
  | 0xCB => if n / 2 ^ 21 % 8 = 0 then some (.subReg rd rn rm imm6) else none
  | 0xCA => if n / 2 ^ 21 % 8 = 0 ∧ imm6 = 0 then some (.eorReg rd rn rm) else none
  | 0x4A => if n / 2 ^ 21 % 8 = 0 ∧ imm6 = 0 then some (.eorReg32 rd rn rm) else none
  | 0xAA => if n / 2 ^ 21 % 8 = 0 ∧ imm6 = 0 then some (.orrReg rd rn rm) else none
  | 0x9A => if n / 2 ^ 21 % 8 = 6 ∧ imm6 = 11 then some (.rorv rd rn rm) else none
  | 0x9B =>
    if n / 2 ^ 15 % 2 = 1 then none
    else
      match n / 2 ^ 21 % 8 with
      | 0 => some (.madd rd rn rm ra)
      | 6 => some (.umulh rd rn rm)
      | 2 => some (.smulh rd rn rm)
      | _ => none
  | 0xDA => if n / 2 ^ 10 % 2 ^ 14 = 0x3000 then some (.rbit rd rn) else none
  | 0xD5 => if n / 2 ^ 5 % 2 ^ 19 = 0x1B4400 / 2 ^ 5 then some (.msrFpcr rd) else none
  -- loads and stores
  | 0x58 => some (.ldrLit rd (branchTarget pc (n / 2 ^ 5 % 2 ^ 19) 19))
  | 0xF8 =>
    match n / 2 ^ 21 % 8, n / 2 ^ 10 % 64 with
    | 3, 0x1A => some (.ldrReg rd rn rm 0)
    | 3, 0x1E => some (.ldrReg rd rn rm 3)
    | 1, 0x1A => some (.strReg rd rn rm)
    | _, _ => none
  | 0xFC =>
    if n / 2 ^ 21 % 8 = 3 ∧ n / 2 ^ 10 % 64 = 0x1A then some (.ldrDReg rd rn rm) else none
  -- branches
  | 0x14 | 0x15 | 0x16 | 0x17 => some (.b (branchTarget pc (n % 2 ^ 26) 26))
  | 0x54 =>
    match n % 32 with
    | 0 => some (.bCond .eq (branchTarget pc (n / 2 ^ 5 % 2 ^ 19) 19))
    | 1 => some (.bCond .ne (branchTarget pc (n / 2 ^ 5 % 2 ^ 19) 19))
    | 2 => some (.bCond .hs (branchTarget pc (n / 2 ^ 5 % 2 ^ 19) 19))
    | _ => none
  -- vectors
  | 0x0E =>
    if n / 2 ^ 21 % 8 = 0 ∧ n / 2 ^ 16 % 8 = 4 ∧ n / 2 ^ 10 % 64 = 0x0F then
      some (.umovS rd rn (n / 2 ^ 19 % 4))
    else none
  | 0x0F => if n / 2 ^ 10 % 2 ^ 14 = 0x829 then some (.sshll rd rn) else none
  | 0x4E =>
    match n / 2 ^ 21 % 8, n / 2 ^ 10 % 64 with
    | 0, 0x0B => if n / 2 ^ 16 % 8 = 4 then some (.smovS rd rn (n / 2 ^ 19 % 4)) else none
    | 3, 0x35 => some (.faddV rd rn rm)
    | 7, 0x35 => some (.fsubV rd rn rm)
    | 3, 0x36 => if rm = 1 then some (.scvtf rd rn) else none
    | _, _ => none
  | 0x6E =>
    match n / 2 ^ 21 % 8, n / 2 ^ 10 % 64 with
    | 0, 0x10 => some (.extV rd rn rm)
    | 1, 0x07 => some (.eorV rd rn rm)
    | 7, 0x07 => some (.bifV rd rn rm)
    | 3, 0x37 => some (.fmulV rd rn rm)
    | 3, 0x3F => some (.fdivV rd rn rm)
    | 7, 0x3E => if rm = 1 then some (.fsqrtV rd rn) else none
    | _, _ => none
  | _ => none

/-! ## Words put together from fields -/

/-- A number as a field of an instruction word. -/
def u32 (k : Nat) : BitVec 32 := BitVec.ofNat 32 k

theorem u32_toNat {k : Nat} (h : k < 2 ^ 32) : (u32 k).toNat = k := by
  rw [u32, BitVec.toNat_ofNat, Nat.mod_eq_of_lt h]

theorem shiftLeft_toNat {y : BitVec 32} (lo len : Nat) (hy : y.toNat < 2 ^ len)
    (hLen : lo + len ≤ 32) : (y <<< lo).toNat = y.toNat * 2 ^ lo := by
  have hPow : y.toNat * 2 ^ lo < 2 ^ 32 :=
    calc y.toNat * 2 ^ lo < 2 ^ len * 2 ^ lo := Nat.mul_lt_mul_of_pos_right hy (Nat.two_pow_pos lo)
      _ = 2 ^ (lo + len) := by rw [← Nat.pow_add, Nat.add_comm]
      _ ≤ 2 ^ 32 := Nat.pow_le_pow_right (by omega) hLen
  rw [BitVec.toNat_shiftLeft, Nat.shiftLeft_eq, Nat.mod_eq_of_lt hPow]

/-- A field that is zero in `x` can be filled by adding. -/
theorem or_field_toNat {x y : BitVec 32} (lo len : Nat) (hy : y.toNat < 2 ^ len)
    (hLen : lo + len ≤ 32) (hx : x.toNat / 2 ^ lo % 2 ^ len = 0) :
    (x ||| y <<< lo).toNat = x.toNat + y.toNat * 2 ^ lo := by
  have hShift := shiftLeft_toNat lo len hy hLen
  have hDisjoint : x &&& y <<< lo = 0#32 := by
    apply BitVec.eq_of_getLsbD_eq
    intro i hi
    rw [BitVec.getLsbD_and, BitVec.getLsbD_zero]
    by_cases hIn : lo ≤ i ∧ i < lo + len
    · have hBit : x.getLsbD i = false := by
        have h := congrArg (Nat.testBit · (i - lo)) hx
        rw [Nat.zero_testBit, Nat.testBit_mod_two_pow, Nat.testBit_div_two_pow] at h
        simp only [Bool.and_eq_false_iff, decide_eq_false_iff_not] at h
        rcases h with h | h
        · omega
        · rwa [show i - lo + lo = i by omega] at h
      rw [hBit, Bool.false_and]
    · have hBit : (y <<< lo).getLsbD i = false := by
        rw [← BitVec.testBit_toNat, hShift]
        rcases Nat.lt_or_ge i lo with hlt | hge
        · rw [Nat.mul_comm, Nat.testBit_two_pow_mul]
          simp [hlt]
        · apply Nat.testBit_lt_two_pow
          calc y.toNat * 2 ^ lo < 2 ^ len * 2 ^ lo :=
                Nat.mul_lt_mul_of_pos_right hy (Nat.two_pow_pos lo)
            _ = 2 ^ (lo + len) := by rw [← Nat.pow_add, Nat.add_comm]
            _ ≤ 2 ^ i := Nat.pow_le_pow_right (by omega) (by omega)
      rw [hBit, Bool.and_false]
  rw [BitVec.toNat_or, ← hShift, ← BitVec.toNat_or,
    BitVec.toNat_add_of_and_eq_zero hDisjoint |>.symm,
    BitVec.add_eq_or_of_and_eq_zero _ _ hDisjoint]

theorem or_reg_toNat {x : BitVec 32} {d : Nat} (hd : d < 32) (hx : x.toNat % 32 = 0) :
    (x ||| u32 d).toNat = x.toNat + d := by
  have h := or_field_toNat (x := x) (y := u32 d) 0 5 (by rw [u32_toNat] <;> omega) (by omega)
    (by omega)
  rw [BitVec.shiftLeft_zero, u32_toNat (by omega)] at h
  omega

/-- Two registers and a field from bit 10 on. -/
theorem dnImm_toNat (op : BitVec 32) {y : BitVec 32} {d n : Nat} (len : Nat) (hd : d < 32)
    (hn : n < 32) (hLen : 10 + len ≤ 32) (hy : y.toNat < 2 ^ len) (hOp : op.toNat % 2 ^ 10 = 0)
    (hImm : op.toNat / 2 ^ 10 % 2 ^ len = 0) :
    (op ||| u32 d ||| u32 n <<< 5 ||| y <<< 10).toNat =
      op.toNat + d + n * 2 ^ 5 + y.toNat * 2 ^ 10 := by
  have hD := or_reg_toNat (x := op) hd (by omega)
  have hN : (op ||| u32 d ||| u32 n <<< 5).toNat = op.toNat + d + n * 2 ^ 5 := by
    rw [or_field_toNat 5 5 (by rw [u32_toNat] <;> omega) (by omega) (by rw [hD]; omega), hD,
      u32_toNat (by omega)]
  have hHigh : (op.toNat + d + n * 2 ^ 5) / 2 ^ 10 = op.toNat / 2 ^ 10 := by omega
  rw [or_field_toNat 10 len hy hLen (by rw [hN, hHigh, hImm]), hN]

/-- Three registers. -/
theorem dnm_toNat (op : BitVec 32) {d n m : Nat} (hd : d < 32) (hn : n < 32) (hm : m < 32)
    (hOp : op.toNat % 2 ^ 10 = 0) (hM : op.toNat / 2 ^ 16 % 2 ^ 5 = 0) :
    (op ||| u32 d ||| u32 n <<< 5 ||| u32 m <<< 16).toNat =
      op.toNat + d + n * 2 ^ 5 + m * 2 ^ 16 := by
  have hDn := dnImm_toNat op (y := 0#32) 0 hd hn (by omega) (by decide) hOp (by omega)
  rw [BitVec.zero_shiftLeft, BitVec.or_zero] at hDn
  rw [or_field_toNat 16 5 (by rw [u32_toNat] <;> omega) (by omega) (by rw [hDn]; simp; omega),
    hDn, u32_toNat (by omega)]
  simp

/-- Three registers and a six-bit field. -/
theorem dnImmM_toNat (op : BitVec 32) {y : BitVec 32} {d n m : Nat} (hd : d < 32) (hn : n < 32)
    (hm : m < 32) (hy : y.toNat < 2 ^ 6) (hOp : op.toNat % 2 ^ 21 = 0) :
    (op ||| u32 d ||| u32 n <<< 5 ||| y <<< 10 ||| u32 m <<< 16).toNat =
      op.toNat + d + n * 2 ^ 5 + y.toNat * 2 ^ 10 + m * 2 ^ 16 := by
  have hDn := dnImm_toNat op 6 hd hn (by omega) hy (by omega) (by omega)
  rw [or_field_toNat 16 5 (by rw [u32_toNat] <;> omega) (by omega) (by rw [hDn]; omega),
    hDn, u32_toNat (by omega)]

/-- A register and a field from bit 5 on. -/
theorem dImm_toNat (op : BitVec 32) {y : BitVec 32} {d : Nat} (len : Nat) (hd : d < 32)
    (hLen : 5 + len ≤ 32) (hy : y.toNat < 2 ^ len) (hOp : op.toNat % 2 ^ 5 = 0)
    (hImm : op.toNat / 2 ^ 5 % 2 ^ len = 0) :
    (op ||| u32 d ||| y <<< 5).toNat = op.toNat + d + y.toNat * 2 ^ 5 := by
  have hD := or_reg_toNat (x := op) hd (by omega)
  have hHigh : (op.toNat + d) / 2 ^ 5 = op.toNat / 2 ^ 5 := by omega
  rw [or_field_toNat 5 len hy hLen (by rw [hD, hHigh, hImm]), hD]

/-! ## The emitted forms -/

/-- The operations encoded as an opcode and three registers. -/
inductive RegOp where
  | add | sub | eor | orr | mul | umulh | smulh | ror
  | fadd | fsub | fmul | fdiv | eorV | bifV | ext
  deriving DecidableEq, Repr

namespace RegOp

/-- The opcode word, register fields zero. -/
def word : RegOp → BitVec 32
  | add => 0x8B000000
  | sub => 0xCB000000
  | eor => 0xCA000000
  | orr => 0xAA000000
  | mul => 0x9B007C00
  | umulh => 0x9BC07C00
  | smulh => 0x9B407C00
  | ror => 0x9AC02C00
  | fadd => 0x4E60D400
  | fsub => 0x4EE0D400
  | fmul => 0x6E60DC00
  | fdiv => 0x6E60FC00
  | eorV => 0x6E201C00
  | bifV => 0x6EE01C00
  | ext => 0x6E004000

/-- The instruction on destination `d` and operands `n`, `m`. -/
def insn (o : RegOp) (d n m : Nat) : Insn :=
  match o with
  | add => .addReg d n m 0
  | sub => .subReg d n m 0
  | eor => .eorReg d n m
  | orr => .orrReg d n m
  | mul => .madd d n m 31
  | umulh => .umulh d n m
  | smulh => .smulh d n m
  | ror => .rorv d n m
  | fadd => .faddV d n m
  | fsub => .fsubV d n m
  | fmul => .fmulV d n m
  | fdiv => .fdivV d n m
  | eorV => .eorV d n m
  | bifV => .bifV d n m
  | ext => .extV d n m

end RegOp

section Forms

variable {pc d n m : Nat} {y : BitVec 32}

theorem decode_regOp (o : RegOp) (hd : d < 32) (hn : n < 32) (hm : m < 32) :
    decode pc (o.word ||| u32 d ||| u32 n <<< 5 ||| u32 m <<< 16) = some (o.insn d n m) := by
  have hw := dnm_toNat o.word hd hn hm (by cases o <;> decide) (by cases o <;> decide)
  generalize o.word ||| u32 d ||| u32 n <<< 5 ||| u32 m <<< 16 = w at hw
  have hOp : o.word.toNat % 2 ^ 10 = 0 ∧ o.word.toNat / 2 ^ 16 % 2 ^ 5 = 0 := by
    cases o <;> decide
  have hTop : w.toNat / 2 ^ 24 = o.word.toNat / 2 ^ 24 := by omega
  have hOpc : w.toNat / 2 ^ 21 % 8 = o.word.toNat / 2 ^ 21 % 8 := by omega
  have hBit : w.toNat / 2 ^ 15 % 2 = o.word.toNat / 2 ^ 15 % 2 := by omega
  have hImm : w.toNat / 2 ^ 10 % 64 = o.word.toNat / 2 ^ 10 % 64 := by omega
  have hRa : w.toNat / 2 ^ 10 % 32 = o.word.toNat / 2 ^ 10 % 32 := by omega
  have hD : w.toNat % 32 = d := by omega
  have hN : w.toNat / 2 ^ 5 % 32 = n := by omega
  have hM : w.toNat / 2 ^ 16 % 32 = m := by omega
  cases o <;> simp only [decode, hTop, hOpc, hBit, hImm, hRa, hD, hN, hM] <;> rfl

theorem or_swap (a b c : BitVec 32) : a ||| b ||| c = a ||| c ||| b := by
  rw [BitVec.or_assoc, BitVec.or_comm b, ← BitVec.or_assoc]

theorem decode_movReg (hd : d < 32) (hm : m < 32) :
    decode pc (0xAA0003E0#32 ||| u32 d ||| u32 m <<< 16) = some (.orrReg d 31 m) := by
  rw [show (0xAA0003E0#32) = RegOp.orr.word ||| u32 31 <<< 5 from by decide,
    or_swap _ (u32 31 <<< 5)]
  exact decode_regOp .orr hd (by omega) hm

theorem decode_addReg_shift (hd : d < 32) (hn : n < 32) (hm : m < 32) (hy : y.toNat < 64) :
    decode pc (0x8B000000#32 ||| u32 d ||| u32 n <<< 5 ||| y <<< 10 ||| u32 m <<< 16) =
      some (.addReg d n m y.toNat) := by
  have hw := dnImmM_toNat 0x8B000000#32 hd hn hm hy (by decide)
  generalize 0x8B000000#32 ||| u32 d ||| u32 n <<< 5 ||| y <<< 10 ||| u32 m <<< 16 = w at hw
  rw [BitVec.toNat_ofNat] at hw
  have hTop : w.toNat / 2 ^ 24 = 0x8B := by omega
  have hOp : w.toNat / 2 ^ 21 % 8 = 0 := by omega
  have hD : w.toNat % 32 = d := by omega
  have hN : w.toNat / 2 ^ 5 % 32 = n := by omega
  have hM : w.toNat / 2 ^ 16 % 32 = m := by omega
  have hY : w.toNat / 2 ^ 10 % 64 = y.toNat := by omega
  simp only [decode, hTop, hOp, hD, hN, hM, hY, if_true]

theorem decode_extr (hd : d < 32) (hn : n < 32) (hm : m < 32) (hy : y.toNat < 64) :
    decode pc (0x93C00000#32 ||| u32 d ||| u32 n <<< 5 ||| y <<< 10 ||| u32 m <<< 16) =
      some (.extr d n m y.toNat) := by
  have hw := dnImmM_toNat 0x93C00000#32 hd hn hm hy (by decide)
  generalize 0x93C00000#32 ||| u32 d ||| u32 n <<< 5 ||| y <<< 10 ||| u32 m <<< 16 = w at hw
  rw [BitVec.toNat_ofNat] at hw
  have hTop : w.toNat / 2 ^ 24 = 0x93 := by omega
  have hOp : w.toNat / 2 ^ 21 % 8 = 6 := by omega
  have hD : w.toNat % 32 = d := by omega
  have hN : w.toNat / 2 ^ 5 % 32 = n := by omega
  have hM : w.toNat / 2 ^ 16 % 32 = m := by omega
  have hY : w.toNat / 2 ^ 10 % 64 = y.toNat := by omega
  simp only [decode, hTop, hOp, hD, hN, hM, hY, if_true]

theorem decode_addImm_lo (hd : d < 32) (hn : n < 32) (hy : y.toNat < 2 ^ 12) :
    decode pc (0x91000000#32 ||| u32 d ||| u32 n <<< 5 ||| y <<< 10) =
      some (.addImm d n (y.setWidth 64)) := by
  have hw := dnImm_toNat 0x91000000#32 12 hd hn (by omega) hy (by decide) (by decide)
  generalize 0x91000000#32 ||| u32 d ||| u32 n <<< 5 ||| y <<< 10 = w at hw
  rw [BitVec.toNat_ofNat] at hw
  have hTop : w.toNat / 2 ^ 24 = 0x91 := by omega
  have hSh : w.toNat / 2 ^ 22 % 4 = 0 := by omega
  have hD : w.toNat % 32 = d := by omega
  have hN : w.toNat / 2 ^ 5 % 32 = n := by omega
  have hY : w.toNat / 2 ^ 10 % 2 ^ 12 = y.toNat := by omega
  simp only [decode, hTop, hSh, hD, hN, hY, BitVec.ofNat_toNat]

theorem decode_addImm_hi (hd : d < 32) (hn : n < 32) (hy : y.toNat < 2 ^ 12) :
    decode pc (0x91400000#32 ||| u32 d ||| u32 n <<< 5 ||| y <<< 10) =
      some (.addImm d n (y.setWidth 64 <<< 12)) := by
  have hw := dnImm_toNat 0x91400000#32 12 hd hn (by omega) hy (by decide) (by decide)
  generalize 0x91400000#32 ||| u32 d ||| u32 n <<< 5 ||| y <<< 10 = w at hw
  rw [BitVec.toNat_ofNat] at hw
  have hTop : w.toNat / 2 ^ 24 = 0x91 := by omega
  have hSh : w.toNat / 2 ^ 22 % 4 = 1 := by omega
  have hD : w.toNat % 32 = d := by omega
  have hN : w.toNat / 2 ^ 5 % 32 = n := by omega
  have hY : w.toNat / 2 ^ 10 % 2 ^ 12 = y.toNat := by omega
  have hImm : BitVec.ofNat 64 (y.toNat * 2 ^ 12) = y.setWidth 64 <<< 12 := by
    apply BitVec.eq_of_toNat_eq
    rw [BitVec.toNat_ofNat, BitVec.toNat_shiftLeft, BitVec.toNat_setWidth, Nat.shiftLeft_eq]
    omega
  simp only [decode, hTop, hSh, hD, hN, hY, hImm]

theorem decode_andImm {k : Nat} (hd : d < 32) (hn : n < 32) (hk : k < 64) :
    decode pc (0x927D0000#32 ||| u32 d ||| u32 n <<< 5 ||| u32 k <<< 10) =
      some (.andImm d n (bitmask 64 (k + 1) 61)) := by
  have hy : (u32 k).toNat = k := u32_toNat (by omega)
  have hw := dnImm_toNat 0x927D0000#32 (y := u32 k) 6 hd hn (by omega) (by omega) (by decide)
    (by decide)
  generalize 0x927D0000#32 ||| u32 d ||| u32 n <<< 5 ||| u32 k <<< 10 = w at hw
  rw [BitVec.toNat_ofNat, hy] at hw
  have hTop : w.toNat / 2 ^ 24 = 0x92 := by omega
  have hMov : w.toNat / 2 ^ 23 % 2 = 0 := by omega
  have hBit : w.toNat / 2 ^ 22 % 2 = 1 := by omega
  have hRot : w.toNat / 2 ^ 16 % 64 = 61 := by omega
  have hD : w.toNat % 32 = d := by omega
  have hN : w.toNat / 2 ^ 5 % 32 = n := by omega
  have hK : w.toNat / 2 ^ 10 % 64 = k := by omega
  simp only [decode, hTop, hMov, hBit, hRot, hD, hN, hK]
  rfl

theorem decode_movz (hd : d < 32) (hy : y.toNat < 2 ^ 16) :
    decode pc (0xD2800000#32 ||| u32 d ||| y <<< 5) = some (.movz d (y.setWidth 16) 0) := by
  have hw := dImm_toNat 0xD2800000#32 16 hd (by omega) hy (by decide) (by decide)
  generalize 0xD2800000#32 ||| u32 d ||| y <<< 5 = w at hw
  rw [BitVec.toNat_ofNat] at hw
  have hTop : w.toNat / 2 ^ 24 = 0xD2 := by omega
  have hBit : w.toNat / 2 ^ 23 % 2 = 1 := by omega
  have hHw : w.toNat / 2 ^ 21 % 4 = 0 := by omega
  have hD : w.toNat % 32 = d := by omega
  have hY : w.toNat / 2 ^ 5 % 2 ^ 16 = y.toNat := by omega
  simp only [decode, hTop, hBit, hHw, hD, hY]
  rfl

theorem decode_movz_hi (hd : d < 32) (hy : y.toNat < 2 ^ 16) :
    decode pc (0xD2800000#32 ||| u32 d ||| u32 1 <<< 21 ||| y <<< 5) =
      some (.movz d (y.setWidth 16) 1) := by
  rw [or_swap (0xD2800000#32)]
  have hw := dImm_toNat (0xD2800000#32 ||| u32 1 <<< 21) 16 hd (by omega) hy (by decide)
    (by decide)
  generalize 0xD2800000#32 ||| u32 1 <<< 21 ||| u32 d ||| y <<< 5 = w at hw
  rw [show (0xD2800000#32 ||| u32 1 <<< 21).toNat = 0xD2A00000 from by decide] at hw
  have hTop : w.toNat / 2 ^ 24 = 0xD2 := by omega
  have hBit : w.toNat / 2 ^ 23 % 2 = 1 := by omega
  have hHw : w.toNat / 2 ^ 21 % 4 = 1 := by omega
  have hD : w.toNat % 32 = d := by omega
  have hY : w.toNat / 2 ^ 5 % 2 ^ 16 = y.toNat := by omega
  simp only [decode, hTop, hBit, hHw, hD, hY]
  rfl

theorem decode_movn_hi (hd : d < 32) (hy : y.toNat < 2 ^ 16) :
    decode pc (0x92800000#32 ||| u32 d ||| u32 1 <<< 21 ||| y <<< 5) =
      some (.movn d (y.setWidth 16) 1) := by
  rw [or_swap (0x92800000#32)]
  have hw := dImm_toNat (0x92800000#32 ||| u32 1 <<< 21) 16 hd (by omega) hy (by decide)
    (by decide)
  generalize 0x92800000#32 ||| u32 1 <<< 21 ||| u32 d ||| y <<< 5 = w at hw
  rw [show (0x92800000#32 ||| u32 1 <<< 21).toNat = 0x92A00000 from by decide] at hw
  have hTop : w.toNat / 2 ^ 24 = 0x92 := by omega
  have hBit : w.toNat / 2 ^ 23 % 2 = 1 := by omega
  have hHw : w.toNat / 2 ^ 21 % 4 = 1 := by omega
  have hD : w.toNat % 32 = d := by omega
  have hY : w.toNat / 2 ^ 5 % 2 ^ 16 = y.toNat := by omega
  simp only [decode, hTop, hBit, hHw, hD, hY]
  rfl

theorem decode_movk (hd : d < 32) (hy : y.toNat < 2 ^ 16) :
    decode pc (0xF2800000#32 ||| u32 d ||| y <<< 5) = some (.movk d (y.setWidth 16) 0) := by
  have hw := dImm_toNat 0xF2800000#32 16 hd (by omega) hy (by decide) (by decide)
  generalize 0xF2800000#32 ||| u32 d ||| y <<< 5 = w at hw
  rw [BitVec.toNat_ofNat] at hw
  have hTop : w.toNat / 2 ^ 24 = 0xF2 := by omega
  have hBit : w.toNat / 2 ^ 23 % 2 = 1 := by omega
  have hHw : w.toNat / 2 ^ 21 % 4 = 0 := by omega
  have hD : w.toNat % 32 = d := by omega
  have hY : w.toNat / 2 ^ 5 % 2 ^ 16 = y.toNat := by omega
  simp only [decode, hTop, hBit, hHw, hD, hY]
  rfl

theorem decode_ldrLit (hd : d < 32) (hy : y.toNat < 2 ^ 19) :
    decode pc (0x58000000#32 ||| u32 d ||| y <<< 5) =
      some (.ldrLit d (branchTarget pc y.toNat 19)) := by
  have hw := dImm_toNat 0x58000000#32 19 hd (by omega) hy (by decide) (by decide)
  generalize 0x58000000#32 ||| u32 d ||| y <<< 5 = w at hw
  rw [BitVec.toNat_ofNat] at hw
  have hTop : w.toNat / 2 ^ 24 = 0x58 := by omega
  have hD : w.toNat % 32 = d := by omega
  have hY : w.toNat / 2 ^ 5 % 2 ^ 19 = y.toNat := by omega
  simp only [decode, hTop, hD, hY]

/-- The fields of a lane move. -/
theorem lane_toNat (op : BitVec 32) {q l : Nat} (hd : d < 32) (hq : q < 16)
    (hl : l < 4) (hOp : op.toNat % 2 ^ 10 = 0) (hLane : op.toNat / 2 ^ 19 % 2 ^ 2 = 0) :
    (op ||| u32 d ||| u32 q <<< 5 ||| u32 l <<< 19).toNat =
      op.toNat + d + q * 2 ^ 5 + l * 2 ^ 19 := by
  have hN : (u32 q).toNat = q := u32_toNat (by omega)
  have hL : (u32 l).toNat = l := u32_toNat (by omega)
  have hDn := dImm_toNat op (y := u32 q) 5 hd (by omega) (by omega) (by omega) (by omega)
  rw [or_field_toNat 19 2 (by omega) (by omega) (by rw [hDn, hN]; omega), hDn, hN, hL]

theorem decode_smov {q l : Nat} (hd : d < 32) (hq : q < 16) (hl : l < 4) :
    decode pc (0x4E042C00#32 ||| u32 d ||| u32 q <<< 5 ||| u32 l <<< 19) =
      some (.smovS d q l) := by
  have hw := lane_toNat 0x4E042C00#32 hd hq hl (by decide) (by decide)
  generalize 0x4E042C00#32 ||| u32 d ||| u32 q <<< 5 ||| u32 l <<< 19 = w at hw
  rw [BitVec.toNat_ofNat] at hw
  have hTop : w.toNat / 2 ^ 24 = 0x4E := by omega
  have hOpc : w.toNat / 2 ^ 21 % 8 = 0 := by omega
  have hImm : w.toNat / 2 ^ 10 % 64 = 0x0B := by omega
  have hSize : w.toNat / 2 ^ 16 % 8 = 4 := by omega
  have hD : w.toNat % 32 = d := by omega
  have hN : w.toNat / 2 ^ 5 % 32 = q := by omega
  have hLane : w.toNat / 2 ^ 19 % 4 = l := by omega
  simp only [decode, hTop, hOpc, hImm, hSize, hD, hN, hLane, if_true]

theorem decode_umov {q l : Nat} (hd : d < 32) (hq : q < 16) (hl : l < 4) :
    decode pc (0x0E043C00#32 ||| u32 d ||| u32 q <<< 5 ||| u32 l <<< 19) =
      some (.umovS d q l) := by
  have hw := lane_toNat 0x0E043C00#32 hd hq hl (by decide) (by decide)
  generalize 0x0E043C00#32 ||| u32 d ||| u32 q <<< 5 ||| u32 l <<< 19 = w at hw
  rw [BitVec.toNat_ofNat] at hw
  have hTop : w.toNat / 2 ^ 24 = 0x0E := by omega
  have hOpc : w.toNat / 2 ^ 21 % 8 = 0 := by omega
  have hImm : w.toNat / 2 ^ 10 % 64 = 0x0F := by omega
  have hSize : w.toNat / 2 ^ 16 % 8 = 4 := by omega
  have hD : w.toNat % 32 = d := by omega
  have hN : w.toNat / 2 ^ 5 % 32 = q := by omega
  have hLane : w.toNat / 2 ^ 19 % 4 = l := by omega
  simp only [decode, hTop, hOpc, hImm, hSize, hD, hN, hLane, and_self, if_true]

/-- `str m, [x2, x20]`, as the source's `LDR_32_REG` encodes it. -/
theorem decode_strReg (hd : d < 32) :
    decode pc (0xF8206840#32 ||| u32 d ||| u32 20 <<< 16) = some (.strReg d 2 20) := by
  rw [or_swap]
  have hw := or_reg_toNat (x := 0xF8206840#32 ||| u32 20 <<< 16) hd (by decide)
  generalize 0xF8206840#32 ||| u32 20 <<< 16 ||| u32 d = w at hw
  rw [show (0xF8206840#32 ||| u32 20 <<< 16).toNat = 0xF8346840 from by decide] at hw
  have hTop : w.toNat / 2 ^ 24 = 0xF8 := by omega
  have hOpc : w.toNat / 2 ^ 21 % 8 = 1 := by omega
  have hImm : w.toNat / 2 ^ 10 % 64 = 0x1A := by omega
  have hD : w.toNat % 32 = d := by omega
  have hN : w.toNat / 2 ^ 5 % 32 = 2 := by omega
  have hM : w.toNat / 2 ^ 16 % 32 = 20 := by omega
  simp only [decode, hTop, hOpc, hImm, hD, hN, hM]

/-- `tst n, #(0xFF << (8 + c))`. -/
theorem decode_tst {c : Nat} (hn : n < 32) (hc : c < 16) :
    decode pc ((0xF2781C1F#32 - u32 c <<< 16) ||| u32 n <<< 5) =
      some (.andsImm 31 n (bitmask 64 8 (56 - c))) := by
  have hShift : (u32 c <<< 16).toNat = c * 2 ^ 16 := by
    rw [shiftLeft_toNat 16 4 (by rw [u32_toNat] <;> omega) (by omega), u32_toNat (by omega)]
  have hSub : (0xF2781C1F#32 - u32 c <<< 16).toNat = 0xF2781C1F - c * 2 ^ 16 := by
    rw [BitVec.toNat_sub_of_le (by rw [BitVec.le_def, hShift, BitVec.toNat_ofNat]; omega), hShift]
    rfl
  have hw := or_field_toNat (x := 0xF2781C1F#32 - u32 c <<< 16) (y := u32 n) 5 5
    (by rw [u32_toNat] <;> omega) (by omega) (by rw [hSub]; omega)
  generalize (0xF2781C1F#32 - u32 c <<< 16) ||| u32 n <<< 5 = w at hw
  rw [hSub, u32_toNat (by omega)] at hw
  have hTop : w.toNat / 2 ^ 24 = 0xF2 := by omega
  have hMov : w.toNat / 2 ^ 23 % 2 = 0 := by omega
  have hBit : w.toNat / 2 ^ 22 % 2 = 1 := by omega
  have hD : w.toNat % 32 = 31 := by omega
  have hN : w.toNat / 2 ^ 5 % 32 = n := by omega
  have hLen : w.toNat / 2 ^ 10 % 64 = 7 := by omega
  have hRot : w.toNat / 2 ^ 16 % 64 = 56 - c := by omega
  simp only [decode, hTop, hMov, hBit, hRot, hD, hN, hLen]
  rfl

theorem decode_b (hy : y.toNat < 2 ^ 26) :
    decode pc (0x14000000#32 ||| y) = some (.b (branchTarget pc y.toNat 26)) := by
  have hw := or_field_toNat (x := 0x14000000#32) (y := y) 0 26 hy (by omega) (by decide)
  rw [BitVec.shiftLeft_zero] at hw
  generalize 0x14000000#32 ||| y = w at hw
  rw [BitVec.toNat_ofNat] at hw
  have hY : w.toNat % 2 ^ 26 = y.toNat := by omega
  have hTop : w.toNat / 2 ^ 24 = 0x14 ∨ w.toNat / 2 ^ 24 = 0x15 ∨ w.toNat / 2 ^ 24 = 0x16 ∨
      w.toNat / 2 ^ 24 = 0x17 := by omega
  rcases hTop with hTop | hTop | hTop | hTop <;> simp only [decode, hTop, hY]

end Forms

end ArmRx.A64
