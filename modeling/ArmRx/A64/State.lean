import ArmRx.Lib.Bytes
import ArmRx.Lib.Literals

/-!
# AArch64 machine state

General-purpose, vector and system registers, byte memory and a program
counter. The program counter is an offset into one code buffer (`Code`); data
memory is separate from it. Register number 31 is the zero register or the
stack pointer, as the instruction says.
-/

namespace ArmRx.A64

open ArmRx.Lib

/-- Byte-addressed data memory. -/
abbrev Mem : Type := BitVec 64 → BitVec 8

namespace Mem

/-- The `n`-byte little-endian word at `a`. -/
def load (n : Nat) (m : Mem) (a : BitVec 64) : BitVec (8 * n) :=
  leBytes n fun k => m (a + BitVec.ofNat 64 k)

/-- Overwrite the `n` bytes at `a`. -/
def store (n : Nat) (m : Mem) (a : BitVec 64) (v : BitVec (8 * n)) : Mem :=
  fun x => if (x - a).toNat < n then byteOf v (x - a).toNat else m x

def load32 (m : Mem) (a : BitVec 64) : BitVec 32 := load 4 m a
def load64 (m : Mem) (a : BitVec 64) : BitVec 64 := load 8 m a
def load128 (m : Mem) (a : BitVec 64) : BitVec 128 := load 16 m a
def store64 (m : Mem) (a : BitVec 64) (v : BitVec 64) : Mem := store 8 m a v
def store128 (m : Mem) (a : BitVec 64) (v : BitVec 128) : Mem := store 16 m a v

end Mem

/-- The condition flags. -/
structure Flags where
  n : Bool
  z : Bool
  c : Bool
  v : Bool
  deriving DecidableEq, Repr

/-- Machine state. `x 31` is a slot nothing reads: `getX` and `getXsp` give
register 31 its meaning. -/
@[ext] structure State where
  x : Nat → BitVec 64
  sp : BitVec 64
  v : Nat → BitVec 128
  flags : Flags
  fpcr : BitVec 64
  mem : Mem
  pc : Nat

namespace State

/-- Read a register, 31 being zero. -/
def getX (s : State) (r : Nat) : BitVec 64 := if r = 31 then 0 else s.x r

/-- Read a register, 31 being the stack pointer. -/
def getXsp (s : State) (r : Nat) : BitVec 64 := if r = 31 then s.sp else s.x r

def setX (s : State) (r : Nat) (v : BitVec 64) : State :=
  { s with x := Function.update s.x r v }

def setXsp (s : State) (r : Nat) (v : BitVec 64) : State :=
  if r = 31 then { s with sp := v } else s.setX r v

def setV (s : State) (r : Nat) (v : BitVec 128) : State :=
  { s with v := Function.update s.v r v }

def setMem (s : State) (m : Mem) : State := { s with mem := m }

def setFlags (s : State) (f : Flags) : State := { s with flags := f }

def setFpcr (s : State) (v : BitVec 64) : State := { s with fpcr := v }

/-- Continue with the next instruction. -/
def next (s : State) : State := { s with pc := s.pc + 4 }

def jump (s : State) (target : Nat) : State := { s with pc := target }

theorem getX_of_ne {s : State} {r : Nat} (h : r ≠ 31) : s.getX r = s.x r := if_neg h

theorem getXsp_of_ne {s : State} {r : Nat} (h : r ≠ 31) : s.getXsp r = s.x r := if_neg h

section Updates

variable (s : State) (r : Nat) (w : BitVec 64) (q : BitVec 128)

@[simp] theorem setX_x : (s.setX r w).x = Function.update s.x r w := rfl
@[simp] theorem setX_sp : (s.setX r w).sp = s.sp := rfl
@[simp] theorem setX_v : (s.setX r w).v = s.v := rfl
@[simp] theorem setX_flags : (s.setX r w).flags = s.flags := rfl
@[simp] theorem setX_fpcr : (s.setX r w).fpcr = s.fpcr := rfl
@[simp] theorem setX_mem : (s.setX r w).mem = s.mem := rfl
@[simp] theorem setX_pc : (s.setX r w).pc = s.pc := rfl

@[simp] theorem setXsp_31 : s.setXsp 31 w = { s with sp := w } := rfl

theorem setXsp_of_ne {s : State} {r : Nat} {w : BitVec 64} (h : r ≠ 31) :
    s.setXsp r w = s.setX r w := if_neg h

@[simp] theorem setXsp_pc : (s.setXsp r w).pc = s.pc := by
  unfold setXsp
  split <;> rfl

@[simp] theorem setV_x : (s.setV r q).x = s.x := rfl
@[simp] theorem setV_sp : (s.setV r q).sp = s.sp := rfl
@[simp] theorem setV_v : (s.setV r q).v = Function.update s.v r q := rfl
@[simp] theorem setV_flags : (s.setV r q).flags = s.flags := rfl
@[simp] theorem setV_fpcr : (s.setV r q).fpcr = s.fpcr := rfl
@[simp] theorem setV_mem : (s.setV r q).mem = s.mem := rfl
@[simp] theorem setV_pc : (s.setV r q).pc = s.pc := rfl

variable (m : Mem) (f : Flags)

@[simp] theorem setMem_x : (s.setMem m).x = s.x := rfl
@[simp] theorem setMem_sp : (s.setMem m).sp = s.sp := rfl
@[simp] theorem setMem_v : (s.setMem m).v = s.v := rfl
@[simp] theorem setMem_flags : (s.setMem m).flags = s.flags := rfl
@[simp] theorem setMem_fpcr : (s.setMem m).fpcr = s.fpcr := rfl
@[simp] theorem setMem_mem : (s.setMem m).mem = m := rfl
@[simp] theorem setMem_pc : (s.setMem m).pc = s.pc := rfl

@[simp] theorem setFlags_x : (s.setFlags f).x = s.x := rfl
@[simp] theorem setFlags_sp : (s.setFlags f).sp = s.sp := rfl
@[simp] theorem setFlags_v : (s.setFlags f).v = s.v := rfl
@[simp] theorem setFlags_flags : (s.setFlags f).flags = f := rfl
@[simp] theorem setFlags_fpcr : (s.setFlags f).fpcr = s.fpcr := rfl
@[simp] theorem setFlags_mem : (s.setFlags f).mem = s.mem := rfl
@[simp] theorem setFlags_pc : (s.setFlags f).pc = s.pc := rfl

@[simp] theorem setFpcr_x : (s.setFpcr w).x = s.x := rfl
@[simp] theorem setFpcr_sp : (s.setFpcr w).sp = s.sp := rfl
@[simp] theorem setFpcr_v : (s.setFpcr w).v = s.v := rfl
@[simp] theorem setFpcr_flags : (s.setFpcr w).flags = s.flags := rfl
@[simp] theorem setFpcr_fpcr : (s.setFpcr w).fpcr = w := rfl
@[simp] theorem setFpcr_mem : (s.setFpcr w).mem = s.mem := rfl
@[simp] theorem setFpcr_pc : (s.setFpcr w).pc = s.pc := rfl

@[simp] theorem next_x : s.next.x = s.x := rfl
@[simp] theorem next_sp : s.next.sp = s.sp := rfl
@[simp] theorem next_v : s.next.v = s.v := rfl
@[simp] theorem next_flags : s.next.flags = s.flags := rfl
@[simp] theorem next_fpcr : s.next.fpcr = s.fpcr := rfl
@[simp] theorem next_mem : s.next.mem = s.mem := rfl
@[simp] theorem next_pc : s.next.pc = s.pc + 4 := rfl

variable (t : Nat)

@[simp] theorem jump_x : (s.jump t).x = s.x := rfl
@[simp] theorem jump_sp : (s.jump t).sp = s.sp := rfl
@[simp] theorem jump_v : (s.jump t).v = s.v := rfl
@[simp] theorem jump_flags : (s.jump t).flags = s.flags := rfl
@[simp] theorem jump_fpcr : (s.jump t).fpcr = s.fpcr := rfl
@[simp] theorem jump_mem : (s.jump t).mem = s.mem := rfl
@[simp] theorem jump_pc : (s.jump t).pc = t := rfl

/-! Normal form: register updates inside, the program counter last. -/

theorem next_eq_jump : s.next = s.jump (s.pc + 4) := rfl
@[simp] theorem jump_jump (u : Nat) : (s.jump t).jump u = s.jump u := rfl
@[simp] theorem jump_setX : (s.jump t).setX r w = (s.setX r w).jump t := rfl
@[simp] theorem jump_setV : (s.jump t).setV r q = (s.setV r q).jump t := rfl
@[simp] theorem jump_setMem : (s.jump t).setMem m = (s.setMem m).jump t := rfl
@[simp] theorem jump_setFlags : (s.jump t).setFlags f = (s.setFlags f).jump t := rfl
@[simp] theorem jump_setFpcr : (s.jump t).setFpcr w = (s.setFpcr w).jump t := rfl

@[simp] theorem setX_setX (w' : BitVec 64) : (s.setX r w).setX r w' = s.setX r w' := by
  simp [setX]

theorem setX_comm {s : State} {r r' : Nat} {w w' : BitVec 64} (h : r ≠ r') :
    (s.setX r w).setX r' w' = (s.setX r' w').setX r w := by
  simp [setX, Function.update_comm h]

@[simp] theorem setX_self : s.setX r (s.x r) = s := by simp [setX]

end Updates

end State

end ArmRx.A64
