import ArmRx.A64.Effects
import ArmRx.A64.Memory

/-!
# Register pairs and memory

Runs of `stp` and `ldp` over consecutive words: what is saved, what is restored
from it, and a line of memory that is mixed into registers pair by pair.

* `execAll_stpAll` — the run stores the registers' words.
* `execAll_ldpAll` — the run restores registers from such words.
* `execAll_xorPairs` — the run xors a line of memory into registers.
-/

namespace ArmRx.A64

/-- The registers of a list of pairs, in order. -/
def regsOf (ps : List (Nat × Nat)) : List Nat := ps.flatMap fun p => [p.1, p.2]

@[simp] theorem regsOf_nil : regsOf [] = [] := rfl

@[simp] theorem regsOf_cons (p : Nat × Nat) (ps : List (Nat × Nat)) :
    regsOf (p :: ps) = p.1 :: p.2 :: regsOf ps := rfl

/-- Store the pairs behind `n`, from offset `off` on. -/
def stpAll (n : Nat) : Nat → List (Nat × Nat) → List Insn
  | _, [] => []
  | off, p :: ps => .stp p.1 p.2 n (BitVec.ofNat 64 off) :: stpAll n (off + 16) ps

/-- Load the pairs behind `n`, from offset `off` on. -/
def ldpAll (n : Nat) : Nat → List (Nat × Nat) → List Insn
  | _, [] => []
  | off, p :: ps => .ldp p.1 p.2 n (BitVec.ofNat 64 off) :: ldpAll n (off + 16) ps

/-- Xor the words behind `n` into the pairs, by way of `t` and `u`. -/
def xorPairs (t u n : Nat) : Nat → List (Nat × Nat) → List Insn
  | _, [] => []
  | off, p :: ps =>
    .ldp t u n (BitVec.ofNat 64 off) :: .eorReg p.1 p.1 t :: .eorReg p.2 p.2 u ::
      xorPairs t u n (off + 16) ps

section Pairs

variable (fu : FloatUnit) (code : Code) {n t u off : Nat} {ps : List (Nat × Nat)} {s : State}

theorem execAll_stpAll (n off : Nat) (ps : List (Nat × Nat)) (s : State) :
    execAll fu code (stpAll n off ps) s =
      (s.setMem (s.mem.storeWords (s.getXsp n + BitVec.ofNat 64 off)
        ((regsOf ps).map s.getX))).jump (s.pc + 4 * ps.length) := by
  induction ps generalizing off s with
  | nil => rfl
  | cons p ps ih =>
    have hAddr : s.getXsp n + BitVec.ofNat 64 (off + 16) =
        s.getXsp n + BitVec.ofNat 64 off + 8 + 8 := by bv_omega
    have hPc : s.pc + 4 + 4 * ps.length = s.pc + 4 * (ps.length + 1) := by omega
    rw [stpAll, execAll_cons, ih, List.length_cons, ← hPc, regsOf_cons, List.map_cons,
      List.map_cons, Mem.storeWords, Mem.storeWords, ← hAddr]
    rfl

theorem ldpAll_registersOnly (n off : Nat) (ps : List (Nat × Nat)) :
    (ldpAll n off ps).all Insn.registersOnly = true := by
  induction ps generalizing off with
  | nil => rfl
  | cons p ps ih => exact ih (off + 16)

theorem ldpAll_xDests (n off : Nat) (ps : List (Nat × Nat)) :
    (ldpAll n off ps).flatMap Insn.xDests = regsOf ps := by
  induction ps generalizing off with
  | nil => rfl
  | cons p ps ih =>
    rw [ldpAll, List.flatMap_cons, ih]
    rfl

theorem execAll_ldpAll_keeps (n off : Nat) (ps : List (Nat × Nat)) (s : State) :
    Keeps (regsOf ps) s (execAll fu code (ldpAll n off ps) s) :=
  execAll_keeps fu code s (ldpAll_registersOnly n off ps) fun r hr => by
    rwa [ldpAll_xDests] at hr

/-- Registers are restored from the words they were saved to. -/
theorem execAll_ldpAll {saved : Nat → BitVec 64} (hn : n ∉ regsOf ps)
    (hSaved : ∀ i (hi : i < (regsOf ps).length),
      s.mem.load64 (s.getXsp n + BitVec.ofNat 64 (off + 8 * i)) = saved (regsOf ps)[i]) {r : Nat}
    (hr : r ∈ regsOf ps) : (execAll fu code (ldpAll n off ps) s).x r = saved r := by
  induction ps generalizing off s with
  | nil => cases hr
  | cons p ps ih =>
    simp only [regsOf_cons, List.mem_cons, not_or] at hn
    have hFirst : s.mem.load64 (s.getXsp n + BitVec.ofNat 64 off) = saved p.1 :=
      hSaved 0 (by simp)
    have hSecond : s.mem.load64 (s.getXsp n + BitVec.ofNat 64 off + 8) = saved p.2 := by
      have := hSaved 1 (by simp)
      rwa [show s.getXsp n + BitVec.ofNat 64 (off + 8 * 1) =
        s.getXsp n + BitVec.ofNat 64 off + 8 by bv_omega] at this
    rw [ldpAll, execAll_cons]
    generalize hs₁ : exec fu code (.ldp p.1 p.2 n (BitVec.ofNat 64 off)) s = s₁
    have hx₁ : s₁.x = Function.update (Function.update s.x p.1 (saved p.1)) p.2 (saved p.2) := by
      rw [← hs₁, ← hFirst, ← hSecond]
      rfl
    by_cases hIn : r ∈ regsOf ps
    · -- loaded again later: the base register still points at the saved words
      refine ih hn.2.2 (fun i hi => ?_) hIn
      have hBase : s₁.getXsp n = s.getXsp n := by
        unfold State.getXsp
        rw [hx₁, Function.update_of_ne hn.2.1, Function.update_of_ne hn.1, ← hs₁]
        rfl
      have hMem : s₁.mem = s.mem := by
        rw [← hs₁]
        rfl
      have := hSaved (i + 2) (by simp only [regsOf_cons, List.length_cons]; omega)
      rw [hMem, hBase, show off + 16 + 8 * i = off + 8 * (i + 2) by omega]
      exact this
    · rw [(execAll_ldpAll_keeps fu code n (off + 16) ps s₁).x r hIn, hx₁]
      simp only [regsOf_cons, List.mem_cons, hIn, or_false] at hr
      by_cases hEq : r = p.2
      · rw [hEq, Function.update_self]
      · rw [Function.update_of_ne hEq, hr.resolve_right hEq, Function.update_self]

theorem xorPairs_registersOnly (t u n off : Nat) (ps : List (Nat × Nat)) :
    (xorPairs t u n off ps).all Insn.registersOnly = true := by
  induction ps generalizing off with
  | nil => rfl
  | cons p ps ih => exact ih (off + 16)

theorem mem_xorPairs_xDests {r : Nat} (h : r ∈ (xorPairs t u n off ps).flatMap Insn.xDests) :
    r ∈ t :: u :: regsOf ps := by
  induction ps generalizing off with
  | nil => cases h
  | cons p ps ih =>
    simp only [xorPairs, List.flatMap_cons, Insn.xDests, List.mem_append, List.mem_cons,
      List.not_mem_nil, or_false] at h
    simp only [regsOf_cons, List.mem_cons]
    rcases h with (h | h) | h | h | h
    · exact Or.inl h
    · exact Or.inr (Or.inl h)
    · exact Or.inr (Or.inr (Or.inl h))
    · exact Or.inr (Or.inr (Or.inr (Or.inl h)))
    · have := ih h
      simp only [List.mem_cons] at this
      tauto

theorem execAll_xorPairs_keeps (t u n off : Nat) (ps : List (Nat × Nat)) (s : State) :
    Keeps (t :: u :: regsOf ps) s (execAll fu code (xorPairs t u n off ps) s) :=
  execAll_keeps fu code s (xorPairs_registersOnly t u n off ps) fun _ => mem_xorPairs_xDests

/-- One pair of words is mixed into two registers. -/
theorem execAll_xorPair {a b : Nat} {o : BitVec 64} (hNodup : [t, u, a, b].Nodup)
    (hZero : 31 ∉ [t, u, a, b]) (s : State) :
    (execAll fu code [.ldp t u n o, .eorReg a a t, .eorReg b b u] s).x a =
        s.x a ^^^ s.mem.load64 (s.getXsp n + o) ∧
      (execAll fu code [.ldp t u n o, .eorReg a a t, .eorReg b b u] s).x b =
        s.x b ^^^ s.mem.load64 (s.getXsp n + o + 8) := by
  simp only [List.nodup_cons, List.mem_cons, List.not_mem_nil, or_false, not_or] at hNodup hZero
  obtain ⟨⟨hTU, hTA, hTB⟩, ⟨hUA, hUB⟩, hAB, -⟩ := hNodup
  obtain ⟨hT, hU, hA, hB⟩ := hZero
  simp only [execAll_cons, execAll_nil, exec, State.getX, State.next_x, State.setX_x,
    Ne.symm hT, Ne.symm hU, Ne.symm hA, Ne.symm hB, if_false]
  constructor
  · rw [Function.update_of_ne hAB, Function.update_self, Function.update_of_ne (Ne.symm hUA),
      Function.update_of_ne (Ne.symm hTA), Function.update_of_ne hTU, Function.update_self]
  · rw [Function.update_self, Function.update_of_ne (Ne.symm hAB),
      Function.update_of_ne (Ne.symm hUB), Function.update_of_ne (Ne.symm hTB),
      Function.update_of_ne hUA, Function.update_self]

/-- A line of memory is mixed into registers word by word. -/
theorem execAll_xorPairs (off : Nat) (hNodup : (t :: u :: n :: regsOf ps).Nodup)
    (hZero : 31 ∉ t :: u :: regsOf ps) {i r : Nat} (hr : (regsOf ps)[i]? = some r) :
    (execAll fu code (xorPairs t u n off ps) s).x r =
      s.x r ^^^ s.mem.load64 (s.getXsp n + BitVec.ofNat 64 (off + 8 * i)) := by
  induction ps generalizing off s i with
  | nil => cases hr
  | cons p ps ih =>
    obtain ⟨a, b⟩ := p
    have hRest : (t :: u :: n :: regsOf ps).Nodup := by
      simp only [regsOf_cons, List.nodup_cons, List.mem_cons, not_or] at hNodup ⊢
      tauto
    have hFour : [t, u, a, b].Nodup := by
      simp only [regsOf_cons, List.nodup_cons, List.mem_cons, List.not_mem_nil, not_or,
        or_false] at hNodup ⊢
      tauto
    have hApart : n ∉ [t, u, a, b] ∧ a ∉ t :: u :: regsOf ps ∧ b ∉ t :: u :: regsOf ps := by
      simp only [regsOf_cons, List.nodup_cons, List.mem_cons, List.not_mem_nil, not_or,
        or_false] at hNodup ⊢
      grind
    have hZeroRest : 31 ∉ t :: u :: regsOf ps ∧ 31 ∉ [t, u, a, b] := by
      simp only [regsOf_cons, List.mem_cons, List.not_mem_nil, not_or, or_false] at hZero ⊢
      tauto
    -- the first pair, then the rest in the state behind it
    rw [show xorPairs t u n off ((a, b) :: ps) =
      [.ldp t u n (BitVec.ofNat 64 off), .eorReg a a t, .eorReg b b u] ++
        xorPairs t u n (off + 16) ps from rfl, execAll_append]
    obtain ⟨hxa, hxb⟩ := execAll_xorPair fu code (n := n) (o := BitVec.ofNat 64 off) hFour
      hZeroRest.2 s
    have hKeeps : Keeps [t, u, a, b] s
        (execAll fu code [.ldp t u n (BitVec.ofNat 64 off), .eorReg a a t, .eorReg b b u] s) :=
      execAll_keeps fu code s rfl fun r hr => hr
    generalize execAll fu code [.ldp t u n (BitVec.ofNat 64 off), .eorReg a a t, .eorReg b b u] s
      = s₁ at hxa hxb hKeeps ⊢
    have hLater := (execAll_xorPairs_keeps fu code t u n (off + 16) ps s₁).x
    have hBase : s₁.getXsp n = s.getXsp n := by
      unfold State.getXsp
      rw [hKeeps.sp, hKeeps.x n hApart.1]
    match i with
    | 0 =>
      cases hr
      exact (hLater a hApart.2.1).trans hxa
    | 1 =>
      cases hr
      rw [show s.getXsp n + BitVec.ofNat 64 (off + 8 * 1) =
        s.getXsp n + BitVec.ofNat 64 off + 8 by bv_omega]
      exact (hLater b hApart.2.2).trans hxb
    | i + 2 =>
      have hr' : (regsOf ps)[i]? = some r := hr
      have hOld : s₁.x r = s.x r := by
        refine hKeeps.x _ fun hIn => ?_
        have hMem := List.mem_of_getElem? hr'
        simp only [regsOf_cons, List.nodup_cons, List.mem_cons, List.not_mem_nil, not_or,
          or_false] at hNodup hIn
        grind
      have := ih (off + 16) (s := s₁) hRest hZeroRest.1 hr'
      rw [hBase, hKeeps.mem, hOld, show off + 16 + 8 * i = off + 8 * (i + 2) by omega] at this
      exact this

end Pairs

end ArmRx.A64
