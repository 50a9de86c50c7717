import ArmRx.Lib.Json.Text

/-!
# Serialisations of one value

Two texts are serialisations of one value when they differ only in white space
outside strings and in the order of object members. `DocStep` is one such
change, anywhere in a document, and `Members.Same` any number of them. Members
of one name keep their order.

What is looked up by name, or asked of all strings at once, is the same in every
serialisation.
-/

namespace ArmRx.Lib.Json

mutual

/-- One change of layout or member order inside a value. -/
inductive DocStep : Doc → Doc → Prop
  | array {i j : Items} (h : ItemsStep i j) : DocStep (.array i) (.array j)
  | object {m n : Members} (h : MembersStep m n) : DocStep (.object m) (.object n)

inductive ItemsStep : Items → Items → Prop
  | nil (inner inner' : Space) : ItemsStep (.nil inner) (.nil inner')
  | space (a a' : Space) (v : Doc) (b b' : Space) (i : Items) :
    ItemsStep (.cons a v b i) (.cons a' v b' i)
  | value (a b : Space) (i : Items) {v w : Doc} (h : DocStep v w) :
    ItemsStep (.cons a v b i) (.cons a w b i)
  | rest (a b : Space) (v : Doc) {i j : Items} (h : ItemsStep i j) :
    ItemsStep (.cons a v b i) (.cons a v b j)

inductive MembersStep : Members → Members → Prop
  | nil (inner inner' : Space) : MembersStep (.nil inner) (.nil inner')
  | space (a a' b b' c c' d d' : Space) (name : Spelling) (v : Doc) (m : Members) :
    MembersStep (.cons a name b c v d m) (.cons a' name b' c' v d' m)
  | value (a b c d : Space) (name : Spelling) (m : Members) {v w : Doc} (h : DocStep v w) :
    MembersStep (.cons a name b c v d m) (.cons a name b c w d m)
  | rest (a b c d : Space) (name : Spelling) (v : Doc) {m n : Members} (h : MembersStep m n) :
    MembersStep (.cons a name b c v d m) (.cons a name b c v d n)
  | swap (a b c d a' b' c' d' : Space) (name name' : Spelling) (v v' : Doc) (m : Members)
      (h : name.decode ≠ name'.decode) :
    MembersStep (.cons a name b c v d (.cons a' name' b' c' v' d' m))
      (.cons a' name' b' c' v' d' (.cons a name b c v d m))

end

/-- The objects differ only in white space and in the order of members. -/
def Members.Same : Members → Members → Prop := Relation.ReflTransGen MembersStep

/-- What does not change in a step is the same in every serialisation. -/
theorem Members.Same.eq {α : Type} {f : Members → α}
    (hStep : ∀ {m n}, MembersStep m n → f m = f n) {m n : Members} (h : m.Same n) : f m = f n := by
  induction h with
  | refl => rfl
  | tail _ hLast ih => exact ih.trans (hStep hLast)

/-! ## Looking up -/

/-- Both are absent, equal, or one change apart. -/
def StepOrEq (v w : Option Doc) : Prop := v = w ∨ ∃ v' w', v = some v' ∧ w = some w' ∧ DocStep v' w'

theorem lookup_step (key : Bytes) : {m n : Members} → MembersStep m n →
    StepOrEq (m.lookup key) (n.lookup key)
  | _, _, .nil .. => .inl rfl
  | _, _, .space .. => .inl rfl
  | _, _, .value _ _ _ _ name m h => by
    by_cases hName : name.decode = key
    · refine .inr ⟨_, _, ?_, ?_, h⟩ <;> rw [Members.lookup, if_pos hName]
    · left
      rw [Members.lookup, Members.lookup, if_neg hName, if_neg hName]
  | _, _, .rest _ _ _ _ name v h => by
    rw [Members.lookup, Members.lookup]
    split
    · exact .inl rfl
    · exact lookup_step key h
  | _, _, .swap _ _ _ _ _ _ _ _ name name' v v' m h => by
    left
    simp only [Members.lookup]
    by_cases hName : name.decode = key
    · have hName' : ¬ name'.decode = key := fun h' => h (hName.trans h'.symm)
      rw [if_pos hName, if_neg hName', if_pos hName]
    · rw [if_neg hName, if_neg hName]

/-- A question about a member that no step inside its value changes. -/
theorem StepOrEq.eq {α : Type} {f : Option Doc → α}
    (hStep : ∀ {v w}, DocStep v w → f (some v) = f (some w)) {v w : Option Doc}
    (h : StepOrEq v w) : f v = f w := by
  rcases h with rfl | ⟨v', w', rfl, rfl, h⟩
  · rfl
  · exact hStep h

/-! ## Asking all strings -/

mutual

/-- Some string of the value, names included, satisfies the test. -/
def Doc.anyString (p : Spelling → Bool) : Doc → Bool
  | .scalar _ => false
  | .string s => p s
  | .array items => items.anyString p
  | .object members => members.anyString p

def Items.anyString (p : Spelling → Bool) : Items → Bool
  | .nil _ => false
  | .cons _ value _ more => value.anyString p || more.anyString p

def Members.anyString (p : Spelling → Bool) : Members → Bool
  | .nil _ => false
  | .cons _ name _ _ value _ more => p name || value.anyString p || more.anyString p

end

mutual

theorem Doc.anyString_step (p : Spelling → Bool) : {v w : Doc} → DocStep v w →
    v.anyString p = w.anyString p
  | _, _, .array h => Items.anyString_step p h
  | _, _, .object h => Members.anyString_step p h

theorem Items.anyString_step (p : Spelling → Bool) : {i j : Items} → ItemsStep i j →
    i.anyString p = j.anyString p
  | _, _, .nil .. => rfl
  | _, _, .space .. => rfl
  | _, _, .value _ _ _ h => by
    rw [Items.anyString, Items.anyString, Doc.anyString_step p h]
  | _, _, .rest _ _ _ h => by
    rw [Items.anyString, Items.anyString, Items.anyString_step p h]

theorem Members.anyString_step (p : Spelling → Bool) : {m n : Members} → MembersStep m n →
    m.anyString p = n.anyString p
  | _, _, .nil .. => rfl
  | _, _, .space .. => rfl
  | _, _, .value _ _ _ _ _ _ h => by
    rw [Members.anyString, Members.anyString, Doc.anyString_step p h]
  | _, _, .rest _ _ _ _ _ _ h => by
    rw [Members.anyString, Members.anyString, Members.anyString_step p h]
  | _, _, .swap .. => by
    simp only [Members.anyString]
    exact Bool.or_left_comm _ _ _

end

/-! ## Asking strings and members -/

mutual

/-- Some string value satisfies `str`, or some member `mem`. -/
def Doc.anyPart (str : Spelling → Bool) (mem : Spelling → Space → Space → Doc → Bool) : Doc → Bool
  | .scalar _ => false
  | .string s => str s
  | .array items => items.anyPart str mem
  | .object members => members.anyPart str mem

def Items.anyPart (str : Spelling → Bool) (mem : Spelling → Space → Space → Doc → Bool) :
    Items → Bool
  | .nil _ => false
  | .cons _ value _ more => value.anyPart str mem || more.anyPart str mem

def Members.anyPart (str : Spelling → Bool) (mem : Spelling → Space → Space → Doc → Bool) :
    Members → Bool
  | .nil _ => false
  | .cons _ name afterName beforeValue value _ more =>
    mem name afterName beforeValue value || value.anyPart str mem ||
      more.anyPart str mem

end

mutual

theorem Doc.anyPart_string (p : Spelling → Bool) :
    (v : Doc) → v.anyPart p (fun name _ _ _ => p name) = v.anyString p
  | .scalar _ => rfl
  | .string _ => rfl
  | .array items => Items.anyPart_string p items
  | .object members => Members.anyPart_string p members

theorem Items.anyPart_string (p : Spelling → Bool) :
    (items : Items) → items.anyPart p (fun name _ _ _ => p name) = items.anyString p
  | .nil _ => rfl
  | .cons _ value _ more => by
    rw [Items.anyPart, Items.anyString, Doc.anyPart_string p value, Items.anyPart_string p more]

theorem Members.anyPart_string (p : Spelling → Bool) :
    (members : Members) → members.anyPart p (fun name _ _ _ => p name) = members.anyString p
  | .nil _ => rfl
  | .cons _ name _ _ value _ more => by
    rw [Members.anyPart, Members.anyString, Doc.anyPart_string p value,
      Members.anyPart_string p more]

end

end ArmRx.Lib.Json
