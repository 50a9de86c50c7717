import ArmRx.A64.Pairs

/-!
# Frames of called functions

A called function saves registers below the stack pointer, pair by pair, and
restores them before it returns. Both ends are stated over any list of pairs,
so that each function only says which registers it saves.

* `execAll_enter` — the state behind the code that saves.
* `leave_reaches` — the code that restores, and the return to the caller.
-/

namespace ArmRx.A64

/-- Make room for a frame and save the registers of `ps` in it. -/
def enter (size : BitVec 64) (ps : List (Nat × Nat)) : List Insn :=
  .subImm 31 31 size :: stpAll 31 0 ps

/-- Restore the registers of `ps` and give the frame up. -/
def leave (size : BitVec 64) (ps : List (Nat × Nat)) : List Insn :=
  ldpAll 31 0 ps ++ [.addImm 31 31 size]

section Call

variable {fu : FloatUnit} {code : Code} {size : BitVec 64} {ps : List (Nat × Nat)} {s : State}

/-- The registers of `ps` lie in a frame of `size` bytes, and the program counter
is at `k`. -/
def entered (size : BitVec 64) (ps : List (Nat × Nat)) (k : Nat) (s : State) : State :=
  { s with
    sp := s.sp - size
    mem := s.mem.storeWords (s.sp - size) ((regsOf ps).map s.x)
    pc := k }

theorem execAll_enter (fu : FloatUnit) (code : Code) (size : BitVec 64) (s : State)
    (hZero : 31 ∉ regsOf ps) :
    execAll fu code (enter size ps) s = entered size ps (s.pc + 4 + 4 * ps.length) s := by
  have hRegs (t : State) : (regsOf ps).map t.getX = (regsOf ps).map t.x :=
    List.map_congr_left fun r hr => State.getX_of_ne fun h => hZero (h ▸ hr)
  rw [enter, execAll_cons, execAll_stpAll, hRegs]
  have hBase : s.sp - size + BitVec.ofNat 64 0 = s.sp - size := BitVec.add_zero _
  exact congrArg (fun a => ({ s with
    sp := s.sp - size, mem := s.mem.storeWords a ((regsOf ps).map s.x),
    pc := s.pc + 4 + 4 * ps.length } : State)) hBase

/-- What a caller finds when a function that saved `ps` is back: `saved` holds
the values the registers of `ps` had. -/
structure Left (size : BitVec 64) (ps : List (Nat × Nat)) (saved : Nat → BitVec 64) (base : BitVec 64)
    (s t : State) : Prop where
  pc : t.pc = (s.x 30 - base).toNat
  restored : ∀ r ∈ regsOf ps, t.x r = saved r
  x : ∀ r, r ∉ regsOf ps → t.x r = s.x r
  sp : t.sp = s.sp + size
  v : t.v = s.v
  flags : t.flags = s.flags
  fpcr : t.fpcr = s.fpcr
  mem : t.mem = s.mem

theorem leave_straight (size : BitVec 64) (ps : List (Nat × Nat)) :
    ∀ i ∈ leave size ps, i.straight = true := by
  have hLoads (off : Nat) : ∀ i ∈ ldpAll 31 off ps, i.straight = true := by
    induction ps generalizing off with
    | nil => exact nofun
    | cons p ps ih =>
      intro i hi
      rcases List.mem_cons.mp hi with rfl | hi
      · rfl
      · exact ih (off + 16) i hi
  intro i hi
  rcases List.mem_append.mp hi with hi | hi
  · exact hLoads 0 i hi
  · rw [List.mem_singleton.mp hi]
    rfl

theorem exec_ret (s : State) : exec fu code .ret s = s.jump (s.x 30 - code.base).toNat := by
  rw [exec, State.getX_of_ne (by decide)]

theorem exec_addSp (imm : BitVec 64) (s : State) :
    exec fu code (.addImm 31 31 imm) s = ({ s with sp := s.sp + imm } : State).next := rfl

/-- The registers come back from the words they were saved to, and control
returns to the caller. -/
theorem leave_reaches {saved : Nat → BitVec 64} (hBlock : Block code s.pc (leave size ps))
    (hRet : code.insn (s.pc + 4 * (leave size ps).length) = some .ret)
    (hSp : 31 ∉ regsOf ps) (hLink : 30 ∉ regsOf ps)
    (hSaved : ∀ i (hi : i < (regsOf ps).length),
      s.mem.load64 (s.sp + BitVec.ofNat 64 (8 * i)) = saved (regsOf ps)[i]) :
    ∃ t, Reaches fu code s t ∧ Left size ps saved code.base s t := by
  have hReach : Reaches fu code s _ := hBlock.reaches (leave_straight size ps)
  have hPc : (execAll fu code (leave size ps) s).pc = s.pc + 4 * (leave size ps).length :=
    Block.execAll_pc (leave_straight size ps)
  have hStep : Reaches fu code (execAll fu code (leave size ps) s)
      (exec fu code .ret (execAll fu code (leave size ps) s)) := Reaches.step (hPc ▸ hRet)
  refine ⟨_, hReach.trans hStep, ?_⟩
  -- the loads, then the stack pointer
  have hKeeps := execAll_ldpAll_keeps fu code 31 0 ps s
  have hRestored (r : Nat) (hr : r ∈ regsOf ps) :
      (execAll fu code (ldpAll 31 0 ps) s).x r = saved r :=
    execAll_ldpAll fu code hSp (fun i hi => by rw [Nat.zero_add]; exact hSaved i hi) hr
  rw [exec_ret, leave, execAll_append, execAll_cons, execAll_nil]
  generalize execAll fu code (ldpAll 31 0 ps) s = s₁ at hKeeps hRestored ⊢
  rw [exec_addSp]
  exact {
    pc := congrArg (fun a => (a - code.base).toNat) (hKeeps.x 30 hLink)
    restored := hRestored
    x := hKeeps.x
    sp := congrArg (· + size) hKeeps.sp
    v := hKeeps.v
    flags := hKeeps.flags
    fpcr := hKeeps.fpcr
    mem := hKeeps.mem }

/-- A register's word among the stored ones. -/
theorem load64_storeRegs (m : Mem) (a : BitVec 64) (x : Nat → BitVec 64) {i r : Nat}
    (hr : (regsOf ps)[i]? = some r) (hLen : 8 * (regsOf ps).length ≤ 2 ^ 64) :
    (m.storeWords a ((regsOf ps).map x)).load64 (a + BitVec.ofNat 64 (8 * i)) = x r := by
  obtain ⟨hi, rfl⟩ := List.getElem?_eq_some_iff.mp hr
  rw [Mem.load64_storeWords m a (by simpa using hi) (by simpa using hLen), List.getElem_map]

theorem frame_storeRegs (m : Mem) (a : BitVec 64) (x : Nat → BitVec 64) (ps : List (Nat × Nat))
    (hLen : 8 * (regsOf ps).length ≤ 2 ^ 64) :
    Frame [⟨a, 8 * (regsOf ps).length⟩] m (m.storeWords a ((regsOf ps).map x)) := by
  have hFrame := Mem.frame_storeWords m a
    (by simpa using hLen : 8 * ((regsOf ps).map x).length ≤ 2 ^ 64)
  rwa [List.length_map] at hFrame

/-- Saving writes the frame only. -/
theorem frame_entered (size : BitVec 64) (ps : List (Nat × Nat)) (k : Nat) (s : State)
    (hLen : 8 * (regsOf ps).length ≤ 2 ^ 64) :
    Frame [⟨s.sp - size, 8 * (regsOf ps).length⟩] s.mem (entered size ps k s).mem :=
  frame_storeRegs s.mem (s.sp - size) s.x ps hLen

/-- The saved words are in the frame as long as nothing is written there. -/
theorem entered_saved {m : Mem} {rs : List Region} (size : BitVec 64) (ps : List (Nat × Nat)) (k : Nat)
    (s : State) (hFrame : Frame rs (entered size ps k s).mem m)
    (hLen : 8 * (regsOf ps).length ≤ 2 ^ 64)
    (hApart : ∀ R ∈ rs, (Region.mk (s.sp - size) (8 * (regsOf ps).length)).Disjoint R) (i : Nat)
    (hi : i < (regsOf ps).length) :
    m.load64 (s.sp - size + BitVec.ofNat 64 (8 * i)) = s.x (regsOf ps)[i] := by
  have hIn : 8 * i + 8 ≤ (Region.mk (s.sp - size) (8 * (regsOf ps).length)).len := by
    show 8 * i + 8 ≤ 8 * (regsOf ps).length
    omega
  have hPart (R : Region) (hR : R ∈ rs) :
      (Region.mk (s.sp - size + BitVec.ofNat 64 (8 * i)) 8).Disjoint R :=
    (hApart R hR).part_left hIn
  rw [Mem.load64_of_frame hFrame hPart]
  exact load64_storeRegs s.mem (s.sp - size) s.x (List.getElem?_eq_getElem hi) hLen

end Call

end ArmRx.A64
