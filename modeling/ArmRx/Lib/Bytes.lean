import ArmRx.Lib.Literals

/-!
# Little-endian words in bytes

A word of `n` bytes and the function giving its bytes determine each other.
A byte store over natural-number offsets is read and written through that
correspondence; a wider address space reuses the same codec.
-/

namespace ArmRx.Lib

/-- The word whose byte `k` (counting from the least significant) is `b k`. -/
def leBytes : (n : Nat) → (Nat → BitVec 8) → BitVec (8 * n)
  | 0, _ => 0#0
  | n + 1, b => (b n ++ leBytes n b).cast (by omega)

/-- Byte `k` of a word, counting from the least significant. -/
def byteOf {w : Nat} (v : BitVec w) (k : Nat) : BitVec 8 := v.extractLsb' (8 * k) 8

theorem getLsbD_leBytes (n : Nat) (b : Nat → BitVec 8) (i : Nat) :
    (leBytes n b).getLsbD i = (decide (i < 8 * n) && (b (i / 8)).getLsbD (i % 8)) := by
  induction n with
  | zero => simp [leBytes]
  | succ n ih =>
    rw [leBytes, BitVec.getLsbD_cast, BitVec.getLsbD_append]
    by_cases hi : i < 8 * n
    · simp only [hi, if_true, ih, decide_true, Bool.true_and]
      have : i < 8 * (n + 1) := by omega
      simp [this]
    · simp only [hi, if_false]
      by_cases hi' : i < 8 * (n + 1)
      · have hq : i / 8 = n := by omega
        have hr : i - 8 * n = i % 8 := by omega
        simp [hi', hq, hr]
      · have : 8 ≤ i - 8 * n := by omega
        simp [hi', BitVec.getLsbD_of_ge _ _ this]

theorem byteOf_leBytes {n : Nat} {b : Nat → BitVec 8} {k : Nat} (hk : k < n) :
    byteOf (leBytes n b) k = b k := by
  apply BitVec.eq_of_getLsbD_eq
  intro i hi
  have hq : (8 * k + i) / 8 = k := by omega
  have hr : (8 * k + i) % 8 = i := by omega
  have hlt : 8 * k + i < 8 * n := by omega
  rw [byteOf, BitVec.getLsbD_extractLsb', getLsbD_leBytes, hq, hr]
  simp only [hi, hlt, decide_true, Bool.true_and]

theorem leBytes_byteOf {n : Nat} (v : BitVec (8 * n)) : leBytes n (byteOf v) = v := by
  apply BitVec.eq_of_getLsbD_eq
  intro i hi
  have hr : i % 8 < 8 := Nat.mod_lt _ (by omega)
  have hsum : 8 * (i / 8) + i % 8 = i := by omega
  rw [getLsbD_leBytes, byteOf, BitVec.getLsbD_extractLsb', hsum]
  simp only [hi, hr, decide_true, Bool.true_and]

/-- Only the first `n` bytes matter. -/
theorem leBytes_congr {n : Nat} {b c : Nat → BitVec 8} (h : ∀ k < n, b k = c k) :
    leBytes n b = leBytes n c := by
  apply BitVec.eq_of_getLsbD_eq
  intro i hi
  rw [getLsbD_leBytes, getLsbD_leBytes, h (i / 8) (by omega)]

/-! ## Byte stores -/

/-- Bytes addressed by their offset. -/
abbrev ByteStore : Type := Nat → BitVec 8

namespace ByteStore

/-- The `n`-byte little-endian word at offset `a`. -/
def load (n : Nat) (m : ByteStore) (a : Nat) : BitVec (8 * n) := leBytes n fun k => m (a + k)

/-- Overwrite the `n` bytes at offset `a`. -/
def store (n : Nat) (m : ByteStore) (a : Nat) (v : BitVec (8 * n)) : ByteStore :=
  fun x => if a ≤ x ∧ x < a + n then byteOf v (x - a) else m x

/-- `load64`: an unaligned eight-byte `memcpy` read. -/
def load64 (m : ByteStore) (a : Nat) : BitVec 64 := load 8 m a

/-- `load32`. -/
def load32 (m : ByteStore) (a : Nat) : BitVec 32 := load 4 m a

/-- `store64`: an unaligned eight-byte `memcpy` write. -/
def store64 (m : ByteStore) (a : Nat) (v : BitVec 64) : ByteStore := store 8 m a v

theorem store_of_lt {n : Nat} {m : ByteStore} {a x : Nat} {v : BitVec (8 * n)}
    (h : a ≤ x ∧ x < a + n) : store n m a v x = byteOf v (x - a) := by
  simp [store, h]

theorem store_of_not_lt {n : Nat} {m : ByteStore} {a x : Nat} {v : BitVec (8 * n)}
    (h : ¬(a ≤ x ∧ x < a + n)) : store n m a v x = m x := by
  simp [store, h]

/-! ## Sequences of writes -/

/-- Store 64-bit words at their addresses, one after the other. -/
def storeAll (m : ByteStore) (ws : List (Nat × BitVec 64)) : ByteStore :=
  ws.foldl (fun m w => m.store64 w.1 w.2) m

/-- A byte that no write covers stays. -/
theorem storeAll_of_not_covered {ws : List (Nat × BitVec 64)} {x : Nat}
    (h : ∀ w ∈ ws, ¬(w.1 ≤ x ∧ x < w.1 + 8)) (m : ByteStore) : m.storeAll ws x = m x := by
  induction ws generalizing m with
  | nil => rfl
  | cons w ws ih =>
    rw [storeAll, List.foldl_cons]
    exact (ih (fun w' hw' => h w' (List.mem_cons_of_mem _ hw')) _).trans
      (store_of_not_lt (h w List.mem_cons_self))

/-- A byte that only the write `w` covers is a byte of its word. -/
theorem storeAll_of_covered {ws : List (Nat × BitVec 64)} {w : Nat × BitVec 64} {x : Nat}
    (hMem : w ∈ ws) (hCovered : w.1 ≤ x ∧ x < w.1 + 8)
    (hOnly : ∀ w' ∈ ws, w'.1 ≤ x ∧ x < w'.1 + 8 → w' = w) (m : ByteStore) :
    m.storeAll ws x = byteOf w.2 (x - w.1) := by
  induction ws generalizing m with
  | nil => cases hMem
  | cons v ws ih =>
    rw [storeAll, List.foldl_cons]
    by_cases hLater : w ∈ ws
    · exact ih hLater (fun w' hw' => hOnly w' (List.mem_cons_of_mem _ hw')) _
    · -- the write is the first one, and nothing after it covers the byte
      obtain rfl : w = v := (List.mem_cons.mp hMem).resolve_right hLater
      refine (storeAll_of_not_covered (fun w' hw' hx => ?_) _).trans (store_of_lt hCovered)
      exact hLater (hOnly w' (List.mem_cons_of_mem _ hw') hx ▸ hw')

end ByteStore

end ArmRx.Lib
