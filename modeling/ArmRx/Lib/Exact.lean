import ArmRx.Lib.Literals

/-!
# Machine arithmetic that refuses to overflow

Each operation is the machine operation where its mathematical value fits the
word, and fails elsewhere. A computation written with these operations that
returns a value is one in which no step lost a bit, and the value is the one the
machine computes.
-/

namespace ArmRx.Lib

variable {w : Nat}

/-- `a + b`, if there is no carry. -/
def addExact (a b : BitVec w) : Option (BitVec w) :=
  if a.toNat + b.toNat < 2 ^ w then some (a + b) else none

/-- `a - b`, if there is no borrow. -/
def subExact (a b : BitVec w) : Option (BitVec w) :=
  if b.toNat ≤ a.toNat then some (a - b) else none

/-- `a * b`, if the product fits. -/
def mulExact (a b : BitVec w) : Option (BitVec w) :=
  if a.toNat * b.toNat < 2 ^ w then some (a * b) else none

/-- `a << n`, if no bit leaves the word. -/
def shiftLeftExact (a : BitVec w) (n : Nat) : Option (BitVec w) :=
  if a.toNat * 2 ^ n < 2 ^ w then some (a <<< n) else none

/-! Each operation with the values of its operands known. -/

theorem addExact_spec {a b : BitVec w} {m n : Nat} (ha : a.toNat = m) (hb : b.toNat = n)
    (h : m + n < 2 ^ w) : addExact a b = some (a + b) ∧ (a + b).toNat = m + n := by
  subst ha hb
  exact ⟨if_pos h, BitVec.toNat_add_of_lt h⟩

theorem subExact_spec {a b : BitVec w} {m n : Nat} (ha : a.toNat = m) (hb : b.toNat = n)
    (h : n ≤ m) : subExact a b = some (a - b) ∧ (a - b).toNat = m - n := by
  subst ha hb
  exact ⟨if_pos h, BitVec.toNat_sub_of_le h⟩

theorem mulExact_spec {a b : BitVec w} {m n : Nat} (ha : a.toNat = m) (hb : b.toNat = n)
    (h : m * n < 2 ^ w) : mulExact a b = some (a * b) ∧ (a * b).toNat = m * n := by
  subst ha hb
  exact ⟨if_pos h, BitVec.toNat_mul_of_lt h⟩

theorem shiftLeftExact_spec {a : BitVec w} {m n : Nat} (ha : a.toNat = m) (h : m * 2 ^ n < 2 ^ w) :
    shiftLeftExact a n = some (a <<< n) ∧ (a <<< n).toNat = m * 2 ^ n := by
  subst ha
  refine ⟨if_pos h, ?_⟩
  rw [BitVec.toNat_shiftLeft, Nat.shiftLeft_eq, Nat.mod_eq_of_lt h]

end ArmRx.Lib
