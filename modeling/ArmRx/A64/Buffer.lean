import ArmRx.A64.Decode

/-!
# Code buffers

A code buffer as a compiler fills it: four-byte slots that hold either an
instruction of an assembled template or a word the compiler wrote, which
decodes to one. Everything written into a buffer (a `memcpy` of template code,
a single word) is `Buffer.place`, and what a later reader relies on is
`Buffer.At`.
-/

namespace ArmRx.A64

/-- One slot of a code buffer. -/
inductive Slot where
  | asm (i : Insn)
  | word (w : BitVec 32)
  deriving DecidableEq, Repr

/-- The instruction in a slot at offset `k`. -/
def Slot.insn (k : Nat) : Slot → Option Insn
  | .asm i => some i
  | .word w => decode k w

/-- The data in a slot. -/
def Slot.data : Slot → BitVec 32
  | .asm _ => 0
  | .word w => w

/-- Slots by byte offset. -/
abbrev Buffer : Type := Nat → Slot

namespace Buffer

variable {b : Buffer} {off off' : Nat} {xs ys : List Slot}

/-- Copy `xs` to offset `off`. -/
def place (b : Buffer) (off : Nat) (xs : List Slot) : Buffer := fun k =>
  if off ≤ k ∧ k < off + 4 * xs.length ∧ (k - off) % 4 = 0 then
    xs.getD ((k - off) / 4) (.word 0)
  else b k

/-- The buffer, loaded at `base`. -/
def code (b : Buffer) (base : BitVec 64) : Code :=
  { insn k := (b k).insn k, word k := (b k).data, base }

/-- The slots `xs` lie at offset `off`. -/
def At (b : Buffer) (off : Nat) (xs : List Slot) : Prop :=
  ∀ j (h : j < xs.length), b (off + 4 * j) = xs[j]

theorem At.of_eq (h : b.At off xs) (hOff : off = off') : b.At off' xs := hOff ▸ h

theorem place_self (b : Buffer) (off : Nat) (xs : List Slot) : (b.place off xs).At off xs := by
  intro j hj
  have hIn : off ≤ off + 4 * j ∧ off + 4 * j < off + 4 * xs.length ∧
      (off + 4 * j - off) % 4 = 0 := by omega
  rw [place, if_pos hIn, show (off + 4 * j - off) / 4 = j by omega, List.getD_eq_getElem _ _ hj]

theorem At.append_left (h : b.At off (xs ++ ys)) : b.At off xs := by
  intro j hj
  rw [h j (by rw [List.length_append]; omega), List.getElem_append_left hj]

theorem At.append_right (h : b.At off (xs ++ ys)) : b.At (off + 4 * xs.length) ys := by
  intro j hj
  have := h (xs.length + j) (by rw [List.length_append]; omega)
  rw [List.getElem_append_right (by omega)] at this
  simp only [Nat.add_sub_cancel_left] at this
  rw [← this]
  congr 1
  omega

/-- Slots that hold instructions are a block of code. -/
theorem At.block {is : List Insn} (h : b.At off xs) (base : BitVec 64)
    (hLen : xs.length = is.length)
    (hInsn : ∀ j (hj : j < xs.length) (hj' : j < is.length),
      xs[j].insn (off + 4 * j) = some is[j]) : Block (b.code base) off is := by
  intro j hj
  show (b (off + 4 * j)).insn (off + 4 * j) = _
  rw [h j (by omega)]
  exact hInsn j (by omega) hj

theorem At.block_asm {is : List Insn} (h : b.At off (is.map .asm)) (base : BitVec 64) :
    Block (b.code base) off is := by
  refine h.block base (List.length_map _) fun j hj hj' => ?_
  rw [List.getElem_map]
  rfl

theorem At.head {x : Slot} (h : b.At off (x :: xs)) : b off = x := by
  have := h 0 (Nat.succ_pos _)
  rwa [Nat.mul_zero, Nat.add_zero] at this

theorem At.insn_asm {i : Insn} (h : b.At off (.asm i :: xs)) (base : BitVec 64) :
    (b.code base).insn off = some i := by
  show (b off).insn off = some i
  rw [h.head]
  rfl

theorem At.insn_word {w : BitVec 32} {i : Insn} (h : b.At off (.word w :: xs)) (base : BitVec 64)
    (hDecode : decode off w = some i) : (b.code base).insn off = some i := by
  show (b off).insn off = some i
  rw [h.head]
  exact hDecode

/-! ## Words that decode to given instructions -/

/-- The words `ws`, from offset `k` on, decode to `is`. -/
def Decodes : Nat → List (BitVec 32) → List Insn → Prop
  | _, [], [] => True
  | k, w :: ws, i :: is => decode k w = some i ∧ Decodes (k + 4) ws is
  | _, _, _ => False

theorem Decodes.length_eq {k : Nat} {ws : List (BitVec 32)} {is : List Insn}
    (h : Decodes k ws is) : ws.length = is.length := by
  induction ws generalizing k is with
  | nil =>
    cases is with
    | nil => rfl
    | cons i is => exact h.elim
  | cons w ws ih =>
    cases is with
    | nil => exact h.elim
    | cons i is => rw [List.length_cons, List.length_cons, ih h.2]

theorem Decodes.append {k : Nat} {ws ws' : List (BitVec 32)} {is is' : List Insn}
    (h : Decodes k ws is) (h' : Decodes (k + 4 * ws.length) ws' is') :
    Decodes k (ws ++ ws') (is ++ is') := by
  induction ws generalizing k is with
  | nil =>
    cases is with
    | nil => exact h'
    | cons i is => exact h.elim
  | cons w ws ih =>
    cases is with
    | nil => exact h.elim
    | cons i is =>
      refine ⟨h.1, ih h.2 ?_⟩
      rwa [List.length_cons, show k + 4 * (ws.length + 1) = k + 4 + 4 * ws.length by omega] at h'

/-- Words that decode to `is` are a block of code. -/
theorem At.block_words {ws : List (BitVec 32)} {is : List Insn} (h : b.At off (ws.map .word))
    (base : BitVec 64) (hDecodes : Decodes off ws is) : Block (b.code base) off is := by
  induction ws generalizing off is with
  | nil =>
    cases is with
    | nil => exact fun j hj => absurd hj (Nat.not_lt_zero j)
    | cons i is => exact hDecodes.elim
  | cons w ws ih =>
    cases is with
    | nil => exact hDecodes.elim
    | cons i is =>
      have hSplit : b.At off ([.word w] ++ ws.map .word) := h
      exact block_cons (h.insn_word base hDecodes.1) (ih hSplit.append_right hDecodes.2)

end Buffer

end ArmRx.A64
