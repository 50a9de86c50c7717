import Mathlib

/-!
# Literals of small index types

Register files, vector lanes and state words are functions on `Fin n`, and
their indices are written as literals. A literal of `Fin n` carries a proof that
`n` is not zero; for the sizes in use the proof is the one named here, so that
a literal means the same term wherever it stands.
-/

namespace ArmRx.Lib

instance neZero_one : NeZero 1 := ⟨by decide⟩

instance neZero_two : NeZero 2 := ⟨by decide⟩

instance neZero_four : NeZero 4 := ⟨by decide⟩

instance neZero_eight : NeZero 8 := ⟨by decide⟩

instance neZero_sixteen : NeZero 16 := ⟨by decide⟩

end ArmRx.Lib
