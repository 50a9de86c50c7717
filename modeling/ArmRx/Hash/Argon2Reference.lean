import ArmRx.Lib.Exact

/-!
# The reference block of Argon2d

Embeds the index computations of `Argon2dCache::initialize` (`src/argon2.cpp`), in
`size_t`, over the iterations of its three loops.

The memory is a ring. Seen from a position, the blocks it may refer to are an arc
of the ring: it starts where the oldest finished segment starts and ends two
blocks before the current one. All four window formulas of the source say where
the arc starts and how long it is (`Window`), and everything else follows from
that.

* `referenceSet_eq` — the reference set of RFC 9106 is that arc.
* `reference_correct` — no step overflows or underflows, the reference block is
  the RFC's, and it has been written.
-/

namespace ArmRx.Hash

open ArmRx.Lib

/-! ## The loops and their index computations -/

/-- The variables of the three loops. -/
structure Position where
  pass : Nat
  slice : Nat
  index : Nat
  deriving DecidableEq, Repr

/-- `start_index`. -/
def startIndex (pass slice : Nat) : Nat := if pass = 0 ∧ slice = 0 then 2 else 0

/-- `segment_length`. -/
def segmentLength (memoryBlocks : BitVec 64) : BitVec 64 := memoryBlocks / 4

/-- The iterations, in order. -/
def visited (memoryBlocks : BitVec 64) (passes : Nat) : List Position :=
  (List.range passes).flatMap fun pass =>
    (List.range 4).flatMap fun slice =>
      (List.range' (startIndex pass slice)
        ((segmentLength memoryBlocks).toNat - startIndex pass slice)).map fun index =>
          ⟨pass, slice, index⟩

namespace Position

variable (memoryBlocks : BitVec 64) (p : Position)

/-- `current`. -/
def current : BitVec 64 :=
  BitVec.ofNat 64 p.slice * segmentLength memoryBlocks + BitVec.ofNat 64 p.index

/-- `previous`. -/
def previous : BitVec 64 :=
  if p.current memoryBlocks = 0 then memoryBlocks - 1 else p.current memoryBlocks - 1

/-- `reference_area`. -/
def referenceArea : BitVec 64 :=
  if p.pass = 0 then
    BitVec.ofNat 64 p.slice * segmentLength memoryBlocks + BitVec.ofNat 64 p.index - 1
  else memoryBlocks - segmentLength memoryBlocks + BitVec.ofNat 64 p.index - 1

/-- `relative`. -/
def relative (j1 : BitVec 32) : BitVec 64 :=
  let square := j1.setWidth 64 * j1.setWidth 64
  let x := square >>> 32
  let y := (p.referenceArea memoryBlocks * x) >>> 32
  p.referenceArea memoryBlocks - 1 - y

/-- `start_position`. -/
def startPosition : BitVec 64 :=
  if p.pass = 0 then 0
  else if p.slice = 3 then 0
  else (BitVec.ofNat 64 p.slice + 1) * segmentLength memoryBlocks

/-- `reference`. -/
def reference (j1 : BitVec 32) : BitVec 64 :=
  (p.startPosition memoryBlocks + p.relative memoryBlocks j1) % memoryBlocks

/-! The same computations with operations that fail where the machine's would wrap
around. -/

def currentChecked : Option (BitVec 64) := do
  let offset ← mulExact (BitVec.ofNat 64 p.slice) (segmentLength memoryBlocks)
  addExact offset (BitVec.ofNat 64 p.index)

def previousChecked : Option (BitVec 64) := do
  let current ← p.currentChecked memoryBlocks
  if current = 0 then subExact memoryBlocks 1 else subExact current 1

def referenceAreaChecked : Option (BitVec 64) := do
  if p.pass = 0 then
    let current ← p.currentChecked memoryBlocks
    subExact current 1
  else
    let others ← subExact memoryBlocks (segmentLength memoryBlocks)
    let candidates ← addExact others (BitVec.ofNat 64 p.index)
    subExact candidates 1

def relativeChecked (j1 : BitVec 32) : Option (BitVec 64) := do
  let referenceArea ← p.referenceAreaChecked memoryBlocks
  let square ← mulExact (j1.setWidth 64) (j1.setWidth 64)
  let product ← mulExact referenceArea (square >>> 32)
  let last ← subExact referenceArea 1
  subExact last (product >>> 32)

def startPositionChecked : Option (BitVec 64) := do
  if p.pass = 0 then some 0
  else if p.slice = 3 then some 0
  else
    let next ← addExact (BitVec.ofNat 64 p.slice) 1
    mulExact next (segmentLength memoryBlocks)

def referenceChecked (j1 : BitVec 32) : Option (BitVec 64) := do
  let startPosition ← p.startPositionChecked memoryBlocks
  let relative ← p.relativeChecked memoryBlocks j1
  let sum ← addExact startPosition relative
  some (sum % memoryBlocks)

end Position

/-! ## RFC 9106 -/

namespace Rfc9106

/-- The blocks of a segment of the only lane, in the order they are computed. -/
def segment (q s : Nat) : List Nat := List.range' (s * (q / 4)) (q / 4)

/-- Section 3.4.2, for one lane of `q` blocks: the blocks of the last three segments
computed and finished (in the first pass, of all of them), as well as the blocks
computed in the current segment in the current pass, excluding the previous block;
in the order they were computed. -/
def referenceSet (q pass slice index : Nat) : List Nat :=
  let finished := if pass = 0 then List.range slice
    else [(slice + 1) % 4, (slice + 2) % 4, (slice + 3) % 4]
  (finished.flatMap (segment q) ++ List.range' (slice * (q / 4)) index).filter
    (· ≠ (slice * (q / 4) + index + q - 1) % q)

/-- Section 3.4.2: the block of the set that `J_1` selects. -/
def referenceBlock (q pass slice index j1 : Nat) : Option Nat :=
  let set := referenceSet q pass slice index
  let x := j1 ^ 2 / 2 ^ 32
  let y := set.length * x / 2 ^ 32
  set[set.length - 1 - y]?

end Rfc9106

/-! ## Arcs of a ring -/

/-- `n` neighbours in a ring of `q`. -/
def arc (q start n : Nat) : List Nat := (List.range n).map fun i => (start + i) % q

theorem arc_append (q start m n : Nat) :
    arc q start (m + n) = arc q start m ++ arc q (start + m) n := by
  simp only [arc, List.range_add, List.map_append, List.map_map, Function.comp_def,
    Nat.add_assoc]

theorem arc_congr {q start start' : Nat} (h : start % q = start' % q) (n : Nat) :
    arc q start n = arc q start' n := by
  refine List.map_congr_left fun i _ => ?_
  rw [Nat.add_mod, h, ← Nat.add_mod]

theorem range'_eq_arc {q start n : Nat} (h : start + n ≤ q) :
    List.range' start n = arc q start n := by
  rw [arc, List.range'_eq_map_range]
  refine List.map_congr_left fun i hi => ?_
  rw [List.mem_range] at hi
  rw [Nat.mod_eq_of_lt (by omega)]

/-- An arc shorter than the ring does not come back to a later neighbour. -/
theorem arc_ne {q start i n : Nat} (hi : i < n) (hn : n < q) :
    (start + i) % q ≠ (start + n) % q := by
  intro h
  have hMod : i % q = n % q := Nat.ModEq.add_left_cancel' start h
  rw [Nat.mod_eq_of_lt (by omega), Nat.mod_eq_of_lt hn] at hMod
  omega

/-- The last neighbour can be taken out by its number. -/
theorem arc_filter {q start n : Nat} (hn : n < q) :
    (arc q start (n + 1)).filter (· ≠ (start + n) % q) = arc q start n := by
  have hLast : arc q (start + n) 1 = [(start + n) % q] := rfl
  rw [arc_append, List.filter_append, hLast]
  have hOthers : (arc q start n).filter (· ≠ (start + n) % q) = arc q start n := by
    refine List.filter_eq_self.mpr fun r hr => ?_
    obtain ⟨i, hi, rfl⟩ := List.mem_map.mp hr
    rw [List.mem_range] at hi
    simpa using arc_ne hi hn
  rw [hOthers]
  simp

/-! ## The window of a position -/

/-- Memory sizes the constructor accepts, below `2 ^ 32`. -/
structure Size (q : Nat) : Prop where
  least : 8 ≤ q
  quarters : q % 4 = 0
  bounded : q < 2 ^ 32

/-- A position inside the loops. -/
structure Inside (q : Nat) (p : Position) : Prop where
  slice : p.slice < 4
  index : p.index < q / 4
  first : p.pass = 0 → p.slice = 0 → 2 ≤ p.index

/-- Where the window starts, as a natural number. -/
def windowStart (q : Nat) (p : Position) : Nat :=
  if p.pass = 0 then 0 else if p.slice = 3 then 0 else (p.slice + 1) * (q / 4)

/-- How many blocks the window has. -/
def windowLength (q : Nat) (p : Position) : Nat :=
  if p.pass = 0 then p.slice * (q / 4) + p.index - 1 else q - q / 4 + p.index - 1

/-- What the four formulas have in common: the window is a nonempty arc that ends
two blocks before the current one. -/
structure Window (q : Nat) (p : Position) : Prop where
  nonempty : 0 < windowLength q p
  short : windowLength q p + 1 < q
  start_le : windowStart q p < q
  current : (windowStart q p + (windowLength q p + 1)) % q = p.slice * (q / 4) + p.index

variable {q : Nat} {p : Position}

theorem window (hSize : Size q) (hp : Inside q p) : Window q p := by
  obtain ⟨hLeast, hQuarters, -⟩ := hSize
  obtain ⟨hSlice, hIndex, hFirst⟩ := hp
  obtain ⟨pass, slice, index⟩ := p
  dsimp only at hSlice hIndex hFirst
  by_cases hPass : pass = 0
  · have hCurrent : slice * (q / 4) + index < q := by interval_cases slice <;> omega
    have hTwo : 2 ≤ slice * (q / 4) + index := by interval_cases slice <;> omega
    refine ⟨?_, ?_, ?_, ?_⟩ <;> simp only [windowStart, windowLength, hPass, if_true]
    · omega
    · omega
    · omega
    · rw [Nat.mod_eq_of_lt (by omega)]
      omega
  · refine ⟨?_, ?_, ?_, ?_⟩ <;> simp only [windowStart, windowLength, hPass, if_false]
    · omega
    · omega
    · interval_cases slice <;> simp <;> omega
    · have hLt : slice * (q / 4) + index < q := by interval_cases slice <;> omega
      by_cases hLast : slice = 3
      · subst hLast
        rw [if_pos rfl, Nat.mod_eq_of_lt (by omega)]
        omega
      · have hTotal : (slice + 1) * (q / 4) + (q - q / 4 + index - 1 + 1) =
            slice * (q / 4) + index + q := by
          rw [Nat.add_mul]
          omega
        rw [if_neg hLast, hTotal, Nat.add_mod_right, Nat.mod_eq_of_lt hLt]

/-- The previous block is the neighbour behind the window. -/
theorem Window.previous (h : Window q p) :
    (p.slice * (q / 4) + p.index + q - 1) % q = (windowStart q p + windowLength q p) % q := by
  obtain ⟨hNonempty, hShort, hStart, hCurrent⟩ := h
  by_cases hWrap : windowStart q p + (windowLength q p + 1) < q
  · rw [Nat.mod_eq_of_lt hWrap] at hCurrent
    rw [← hCurrent, show windowStart q p + (windowLength q p + 1) + q - 1 =
      windowStart q p + windowLength q p + q by omega, Nat.add_mod_right]
  · rw [Nat.mod_eq_sub_mod (by omega), Nat.mod_eq_of_lt (by omega)] at hCurrent
    rw [← hCurrent]
    congr 1
    omega

theorem Window.current_lt (h : Window q p) : p.slice * (q / 4) + p.index < q :=
  h.current ▸ Nat.mod_lt _ (by have := h.short; omega)

/-- A segment is an arc, whichever way its number is written. -/
theorem segment_eq (hQuarters : q % 4 = 0) (s : Nat) :
    Rfc9106.segment q (s % 4) = arc q (s * (q / 4)) (q / 4) := by
  have hEnd : s % 4 * (q / 4) + q / 4 ≤ q := by
    have : s % 4 < 4 := Nat.mod_lt _ (by decide)
    interval_cases s % 4 <;> omega
  rw [Rfc9106.segment, range'_eq_arc hEnd]
  refine arc_congr ?_ _
  have hQ : q = 4 * (q / 4) := by omega
  conv_lhs => rw [hQ]
  conv_rhs => rw [hQ]
  rw [Nat.mul_div_cancel_left _ (by decide : 0 < 4), Nat.mul_mod_mul_right,
    Nat.mul_mod_mul_right, Nat.mod_mod]

/-- In the first pass everything up to the current block lies in one piece. -/
theorem finished_first (hQuarters : q % 4 = 0) {n : Nat} (hn : n ≤ 4) :
    (List.range n).flatMap (Rfc9106.segment q) = arc q 0 (n * (q / 4)) := by
  induction n with
  | zero => simp [arc]
  | succ n ih =>
    have hSegment : Rfc9106.segment q n = arc q (n * (q / 4)) (q / 4) := by
      rw [← segment_eq hQuarters, Nat.mod_eq_of_lt (by omega)]
    rw [List.range_succ, List.flatMap_append, ih (by omega), Nat.succ_mul, arc_append,
      List.flatMap_singleton, hSegment, Nat.zero_add]

/-- Later on, the three finished segments lead once around the ring to the current
one. -/
theorem finished_later (hQuarters : q % 4 = 0) {slice index : Nat}
    (hEnd : slice * (q / 4) + index ≤ q) :
    [(slice + 1) % 4, (slice + 2) % 4, (slice + 3) % 4].flatMap (Rfc9106.segment q) ++
        List.range' (slice * (q / 4)) index =
      arc q ((slice + 1) * (q / 4)) (q - q / 4 + index) := by
  have hCurrent : List.range' (slice * (q / 4)) index = arc q ((slice + 4) * (q / 4)) index := by
    rw [range'_eq_arc hEnd]
    refine arc_congr ?_ _
    rw [show (slice + 4) * (q / 4) = slice * (q / 4) + q by rw [Nat.add_mul]; omega,
      Nat.add_mod_right]
  rw [show q - q / 4 + index = q / 4 + (q / 4 + (q / 4 + index)) by omega, arc_append, arc_append,
    arc_append, hCurrent]
  simp only [List.flatMap_cons, List.flatMap_nil, List.append_nil, segment_eq hQuarters,
    List.append_assoc]
  rw [show (slice + 1) * (q / 4) + q / 4 = (slice + 2) * (q / 4) by ring,
    show (slice + 2) * (q / 4) + q / 4 = (slice + 3) * (q / 4) by ring,
    show (slice + 3) * (q / 4) + q / 4 = (slice + 4) * (q / 4) by ring]

/-- The reference set of the RFC is the window. -/
theorem referenceSet_eq (hSize : Size q) (hp : Inside q p) :
    Rfc9106.referenceSet q p.pass p.slice p.index =
      arc q (windowStart q p) (windowLength q p) := by
  have hWindow := window hSize hp
  have hLength := hWindow.nonempty
  have hEnd := hWindow.current_lt.le
  have hQuarters := hSize.quarters
  rw [Rfc9106.referenceSet, hWindow.previous, ← arc_filter (by have := hWindow.short; omega)]
  congr 1
  by_cases hPass : p.pass = 0
  · have hSum : windowLength q p + 1 = p.slice * (q / 4) + p.index := by
      simp only [windowLength, hPass, if_true] at hLength ⊢
      omega
    rw [if_pos hPass, finished_first hQuarters hp.slice.le, range'_eq_arc hEnd, hSum, arc_append]
    simp [windowStart, hPass]
  · have hSum : windowLength q p + 1 = q - q / 4 + p.index := by
      simp only [windowLength, hPass, if_false] at hLength ⊢
      omega
    have hStart : windowStart q p % q = (p.slice + 1) * (q / 4) % q := by
      simp only [windowStart, hPass, if_false]
      split
      · next h => rw [h, show (3 + 1) * (q / 4) = q by omega, Nat.mod_self, Nat.zero_mod]
      · rfl
    rw [if_neg hPass, finished_later hQuarters hEnd, hSum, arc_congr hStart]

/-! ## The iterations -/

theorem segmentLength_toNat (memoryBlocks : BitVec 64) :
    (segmentLength memoryBlocks).toNat = memoryBlocks.toNat / 4 := BitVec.toNat_udiv

theorem mem_visited {memoryBlocks : BitVec 64} {passes : Nat} :
    p ∈ visited memoryBlocks passes ↔ p.pass < passes ∧ p.slice < 4 ∧
      p.index < memoryBlocks.toNat / 4 ∧ startIndex p.pass p.slice ≤ p.index := by
  obtain ⟨pass, slice, index⟩ := p
  simp only [visited, List.mem_flatMap, List.mem_range, List.mem_map, List.mem_range'_1,
    segmentLength_toNat, Position.mk.injEq]
  constructor
  · rintro ⟨_, hPass, _, hSlice, _, hIndex, rfl, rfl, rfl⟩
    exact ⟨hPass, hSlice, by omega, hIndex.1⟩
  · rintro ⟨hPass, hSlice, hIndex, hStart⟩
    exact ⟨pass, hPass, slice, hSlice, index, ⟨hStart, by omega⟩, rfl, rfl, rfl⟩

/-- How many blocks the loops have come past. -/
def time (q : Nat) (p : Position) : Nat := p.pass * q + (p.slice * (q / 4) + p.index)

/-- The loops go forward in time. -/
theorem visited_sorted (memoryBlocks : BitVec 64) (passes : Nat) :
    (visited memoryBlocks passes).Pairwise fun a b =>
      time memoryBlocks.toNat a < time memoryBlocks.toNat b := by
  generalize hq : memoryBlocks.toNat = q
  have hBlock {slice index : Nat} (hSlice : slice < 4) (hIndex : index < q / 4) :
      slice * (q / 4) + index < q := by interval_cases slice <;> omega
  refine List.pairwise_flatMap.mpr
    ⟨fun pass _ => List.pairwise_flatMap.mpr ⟨fun slice _ => ?_, ?_⟩, ?_⟩
  · -- within a segment the index grows
    refine List.pairwise_map.mpr (List.Pairwise.imp (fun {a b} h => ?_) List.pairwise_lt_range')
    simp only [time]
    omega
  · -- within a pass the segment grows
    refine List.pairwise_lt_range.imp_of_mem fun {a b} ha hb h x hx y hy => ?_
    obtain ⟨i, hi, rfl⟩ := List.mem_map.mp hx
    obtain ⟨j, hj, rfl⟩ := List.mem_map.mp hy
    rw [List.mem_range'_1, segmentLength_toNat, hq] at hi hj
    rw [List.mem_range] at ha hb
    have hNext : (a + 1) * (q / 4) ≤ b * (q / 4) := Nat.mul_le_mul_right _ h
    simp only [time]
    rw [Nat.add_mul] at hNext
    omega
  · refine List.pairwise_lt_range.imp fun {a b} h x hx y hy => ?_
    obtain ⟨s, hs, hx⟩ := List.mem_flatMap.mp hx
    obtain ⟨t, ht, hy⟩ := List.mem_flatMap.mp hy
    obtain ⟨i, hi, rfl⟩ := List.mem_map.mp hx
    obtain ⟨j, hj, rfl⟩ := List.mem_map.mp hy
    rw [List.mem_range'_1, segmentLength_toNat, hq] at hi hj
    rw [List.mem_range] at hs ht
    have hLt : s * (q / 4) + i < q := hBlock hs (by omega)
    have hNext : (a + 1) * q ≤ b * q := Nat.mul_le_mul_right _ h
    simp only [time]
    rw [Nat.add_mul] at hNext
    omega

/-- What is earlier has been done. -/
theorem mem_done {memoryBlocks : BitVec 64} {passes : Nat} {done todo : List Position}
    (hVisited : visited memoryBlocks passes = done ++ p :: todo) {r : Position}
    (hr : r ∈ visited memoryBlocks passes)
    (hEarlier : time memoryBlocks.toNat r < time memoryBlocks.toNat p) : r ∈ done := by
  have hSorted := visited_sorted memoryBlocks passes
  rw [hVisited] at hSorted hr
  have hLater := (List.pairwise_cons.mp (List.pairwise_append.mp hSorted).2.1).1
  rcases List.mem_append.mp hr with hDone | hRest
  · exact hDone
  · rcases List.mem_cons.mp hRest with rfl | hTodo
    · exact absurd hEarlier (lt_irrefl _)
    · exact absurd hEarlier (lt_asymm (hLater r hTodo))

theorem inside_of_visited {memoryBlocks : BitVec 64} {passes : Nat}
    (h : p ∈ visited memoryBlocks passes) : Inside memoryBlocks.toNat p := by
  obtain ⟨-, hSlice, hIndex, hStart⟩ := mem_visited.mp h
  refine ⟨hSlice, hIndex, fun hPass hFirst => ?_⟩
  rwa [startIndex, if_pos ⟨hPass, hFirst⟩] at hStart

/-! ## The machine's values -/

/-- `y` of the RFC and of the source. -/
def shrunk (area j1 : Nat) : Nat := area * (j1 ^ 2 / 2 ^ 32) / 2 ^ 32

theorem square_lt (j1 : BitVec 32) : j1.toNat ^ 2 / 2 ^ 32 < 2 ^ 32 := by
  refine Nat.div_lt_of_lt_mul ?_
  rw [← pow_add]
  exact lt_of_lt_of_eq (Nat.pow_lt_pow_left j1.isLt (by decide)) (by decide)

/-- The mapping stays inside the set. -/
theorem shrunk_lt {area : Nat} (hArea : 0 < area) (j1 : BitVec 32) :
    shrunk area j1.toNat < area := by
  refine Nat.div_lt_of_lt_mul ?_
  rw [Nat.mul_comm (2 ^ 32)]
  exact Nat.mul_lt_mul_of_pos_left (square_lt j1) hArea

section Machine

variable {memoryBlocks : BitVec 64}

theorem one_toNat : (1 : BitVec 64).toNat = 1 := rfl

theorem slice_toNat (hp : Inside memoryBlocks.toNat p) :
    (BitVec.ofNat 64 p.slice).toNat = p.slice := by
  have := hp.slice
  rw [BitVec.toNat_ofNat, Nat.mod_eq_of_lt (by omega)]

theorem index_toNat (hp : Inside memoryBlocks.toNat p) :
    (BitVec.ofNat 64 p.index).toNat = p.index := by
  have := hp.index
  have := memoryBlocks.isLt
  rw [BitVec.toNat_ofNat, Nat.mod_eq_of_lt (by omega)]

theorem current_spec (hSize : Size memoryBlocks.toNat) (hp : Inside memoryBlocks.toNat p) :
    p.currentChecked memoryBlocks = some (p.current memoryBlocks) ∧
      (p.current memoryBlocks).toNat = p.slice * (memoryBlocks.toNat / 4) + p.index := by
  have hLt := (window hSize hp).current_lt
  have hBounded := hSize.bounded
  obtain ⟨hMul, hOffset⟩ := mulExact_spec (slice_toNat hp) (segmentLength_toNat memoryBlocks)
    (by omega)
  obtain ⟨hAdd, hCurrent⟩ := addExact_spec hOffset (index_toNat hp) (by omega)
  rw [Position.currentChecked, hMul]
  exact ⟨hAdd, hCurrent⟩

theorem previous_spec (hSize : Size memoryBlocks.toNat) (hp : Inside memoryBlocks.toNat p) :
    p.previousChecked memoryBlocks = some (p.previous memoryBlocks) ∧
      (p.previous memoryBlocks).toNat =
        (p.slice * (memoryBlocks.toNat / 4) + p.index + memoryBlocks.toNat - 1) %
          memoryBlocks.toNat := by
  obtain ⟨hChecked, hCurrent⟩ := current_spec hSize hp
  have hLt := (window hSize hp).current_lt
  have hLeast := hSize.least
  rw [Position.previousChecked, hChecked, Option.bind_eq_bind, Option.bind_some,
    Position.previous]
  by_cases hZero : p.current memoryBlocks = 0
  · -- the block before the first is the last one
    have hNat : p.slice * (memoryBlocks.toNat / 4) + p.index = 0 := by rw [← hCurrent, hZero]; rfl
    obtain ⟨hSub, hValue⟩ := subExact_spec (w := 64) (a := memoryBlocks) rfl
      one_toNat (by omega)
    rw [if_pos hZero, if_pos hZero, hNat, Nat.zero_add, Nat.mod_eq_of_lt (by omega)]
    exact ⟨hSub, hValue⟩
  · have hNat : (p.current memoryBlocks).toNat ≠ 0 := fun h => hZero (BitVec.eq_of_toNat_eq h)
    rw [hCurrent] at hNat
    obtain ⟨hSub, hValue⟩ := subExact_spec hCurrent one_toNat (by omega)
    rw [if_neg hZero, if_neg hZero,
      show p.slice * (memoryBlocks.toNat / 4) + p.index + memoryBlocks.toNat - 1 =
        p.slice * (memoryBlocks.toNat / 4) + p.index - 1 + memoryBlocks.toNat by omega,
      Nat.add_mod_right, Nat.mod_eq_of_lt (by omega)]
    exact ⟨hSub, hValue⟩

theorem referenceArea_spec (hSize : Size memoryBlocks.toNat) (hp : Inside memoryBlocks.toNat p) :
    p.referenceAreaChecked memoryBlocks = some (p.referenceArea memoryBlocks) ∧
      (p.referenceArea memoryBlocks).toNat = windowLength memoryBlocks.toNat p := by
  have hNonempty := (window hSize hp).nonempty
  have hShort := (window hSize hp).short
  have hBounded := hSize.bounded
  rw [Position.referenceAreaChecked, Position.referenceArea]
  by_cases hPass : p.pass = 0
  · obtain ⟨hChecked, hCurrent⟩ := current_spec hSize hp
    simp only [windowLength, hPass, if_true] at hNonempty ⊢
    obtain ⟨hSub, hValue⟩ := subExact_spec hCurrent one_toNat (by omega)
    rw [hChecked]
    exact ⟨hSub, hValue⟩
  · simp only [windowLength, hPass, if_false] at hNonempty hShort ⊢
    obtain ⟨hOthersSome, hOthers⟩ := subExact_spec (w := 64) (a := memoryBlocks) rfl
      (segmentLength_toNat memoryBlocks) (by omega)
    obtain ⟨hAdd, hCandidates⟩ := addExact_spec hOthers (index_toNat hp) (by omega)
    obtain ⟨hSub, hValue⟩ := subExact_spec hCandidates one_toNat (by omega)
    rw [hOthersSome, Option.bind_eq_bind, Option.bind_some, hAdd]
    exact ⟨hSub, hValue⟩

theorem relative_spec (hSize : Size memoryBlocks.toNat) (hp : Inside memoryBlocks.toNat p)
    (j1 : BitVec 32) :
    p.relativeChecked memoryBlocks j1 = some (p.relative memoryBlocks j1) ∧
      (p.relative memoryBlocks j1).toNat = windowLength memoryBlocks.toNat p - 1 -
        shrunk (windowLength memoryBlocks.toNat p) j1.toNat := by
  obtain ⟨hChecked, hArea⟩ := referenceArea_spec hSize hp
  have hWindow := window hSize hp
  have hNonempty := hWindow.nonempty
  have hShort := hWindow.short
  have hBounded := hSize.bounded
  have hLt := shrunk_lt hNonempty j1
  have hWide : (j1.setWidth 64).toNat = j1.toNat := by
    rw [BitVec.toNat_setWidth, Nat.mod_eq_of_lt (lt_trans j1.isLt (by decide))]
  have hSquareLt : j1.toNat * j1.toNat < 2 ^ 64 :=
    lt_of_lt_of_eq (Nat.mul_lt_mul'' j1.isLt j1.isLt) (by decide)
  obtain ⟨hMul, hSquare⟩ := mulExact_spec hWide hWide hSquareLt
  have hX : ((j1.setWidth 64 * j1.setWidth 64) >>> 32).toNat = j1.toNat ^ 2 / 2 ^ 32 := by
    rw [BitVec.toNat_ushiftRight, Nat.shiftRight_eq_div_pow, hSquare, sq]
  have hProductLt : windowLength memoryBlocks.toNat p * (j1.toNat ^ 2 / 2 ^ 32) < 2 ^ 64 :=
    lt_of_lt_of_eq (Nat.mul_lt_mul'' (by omega) (square_lt j1) :
      windowLength memoryBlocks.toNat p * (j1.toNat ^ 2 / 2 ^ 32) < 2 ^ 32 * 2 ^ 32) (by decide)
  obtain ⟨hMulArea, hProduct⟩ := mulExact_spec hArea hX hProductLt
  have hY : ((p.referenceArea memoryBlocks *
      (j1.setWidth 64 * j1.setWidth 64) >>> 32) >>> 32).toNat =
      shrunk (windowLength memoryBlocks.toNat p) j1.toNat := by
    rw [BitVec.toNat_ushiftRight, Nat.shiftRight_eq_div_pow, hProduct, shrunk]
  obtain ⟨hSub, hLast⟩ := subExact_spec hArea one_toNat (by omega)
  obtain ⟨hSubY, hValue⟩ := subExact_spec hLast hY (by omega)
  rw [Position.relativeChecked, hChecked]
  simp only [Option.bind_eq_bind, Option.bind_some, hMul, hMulArea, hSub]
  exact ⟨hSubY, hValue⟩

theorem startPosition_spec (hSize : Size memoryBlocks.toNat) (hp : Inside memoryBlocks.toNat p) :
    p.startPositionChecked memoryBlocks = some (p.startPosition memoryBlocks) ∧
      (p.startPosition memoryBlocks).toNat = windowStart memoryBlocks.toNat p := by
  have hStart := (window hSize hp).start_le
  have hBounded := hSize.bounded
  rw [Position.startPositionChecked, Position.startPosition, windowStart] at *
  by_cases hPass : p.pass = 0
  · simp [hPass]
  by_cases hLast : p.slice = 3
  · simp [hPass, hLast]
  simp only [hPass, hLast, if_false] at hStart ⊢
  obtain ⟨hAdd, hNext⟩ := addExact_spec (slice_toNat hp) one_toNat
    (by have := hp.slice; omega)
  obtain ⟨hMul, hValue⟩ := mulExact_spec hNext (segmentLength_toNat memoryBlocks) (by omega)
  refine ⟨?_, hValue⟩
  rw [hAdd]
  exact hMul

theorem reference_spec (hSize : Size memoryBlocks.toNat) (hp : Inside memoryBlocks.toNat p)
    (j1 : BitVec 32) :
    p.referenceChecked memoryBlocks j1 = some (p.reference memoryBlocks j1) ∧
      (p.reference memoryBlocks j1).toNat =
        (windowStart memoryBlocks.toNat p + (windowLength memoryBlocks.toNat p - 1 -
          shrunk (windowLength memoryBlocks.toNat p) j1.toNat)) % memoryBlocks.toNat := by
  have hWindow := window hSize hp
  have hShort := hWindow.short
  have hStartLt := hWindow.start_le
  have hBounded := hSize.bounded
  obtain ⟨hStartSome, hStart⟩ := startPosition_spec hSize hp
  obtain ⟨hRelativeSome, hRelative⟩ := relative_spec hSize hp j1
  obtain ⟨hAdd, hSum⟩ := addExact_spec hStart hRelative (by omega)
  rw [Position.referenceChecked, hStartSome, Option.bind_eq_bind, Option.bind_some, hRelativeSome,
    Option.bind_some, hAdd, Option.bind_some, Position.reference, BitVec.toNat_umod, hSum]
  exact ⟨rfl, rfl⟩

/-- The block that the RFC selects is the one the source computes. -/
theorem referenceBlock_eq (hSize : Size memoryBlocks.toNat) (hp : Inside memoryBlocks.toNat p)
    (j1 : BitVec 32) :
    Rfc9106.referenceBlock memoryBlocks.toNat p.pass p.slice p.index j1.toNat =
      some (p.reference memoryBlocks j1).toNat := by
  have hLt := shrunk_lt (window hSize hp).nonempty j1
  have hInside : windowLength memoryBlocks.toNat p - 1 -
      shrunk (windowLength memoryBlocks.toNat p) j1.toNat < windowLength memoryBlocks.toNat p := by
    omega
  rw [Rfc9106.referenceBlock, referenceSet_eq hSize hp, (reference_spec hSize hp j1).2]
  simp only [arc, List.length_map, List.length_range]
  rw [← shrunk]
  simp [hInside]

/-- A block that the loops have come past has been written: the first two before the
loops, the others in the first pass at the latest. -/
theorem mem_written (hSize : Size memoryBlocks.toNat) {passes : Nat} {done todo : List Position}
    (hVisited : visited memoryBlocks passes = done ++ p :: todo) {r : BitVec 64}
    (hr : r < memoryBlocks) (hEarlier : r.toNat < time memoryBlocks.toNat p) :
    r ∈ [0, 1] ++ done.map (Position.current memoryBlocks) := by
  obtain ⟨hLeast, hQuarters, -⟩ := id hSize
  rw [BitVec.lt_def] at hr
  by_cases hTwo : r.toNat < 2
  · refine List.mem_append_left _ ?_
    have hCases : r.toNat = 0 ∨ r.toNat = 1 := by omega
    rcases hCases with h | h
    · simp [show r = 0 from BitVec.eq_of_toNat_eq h]
    · simp [show r = 1 from BitVec.eq_of_toNat_eq h]
  · have hSegment : 0 < memoryBlocks.toNat / 4 := by omega
    have hSlice : r.toNat / (memoryBlocks.toNat / 4) < 4 := Nat.div_lt_of_lt_mul (by omega)
    have hIndex : r.toNat % (memoryBlocks.toNat / 4) < memoryBlocks.toNat / 4 :=
      Nat.mod_lt _ hSegment
    have hSum : r.toNat / (memoryBlocks.toNat / 4) * (memoryBlocks.toNat / 4) +
        r.toNat % (memoryBlocks.toNat / 4) = r.toNat := Nat.div_add_mod' _ _
    have hPasses : 0 < passes := by
      have hMem : p ∈ visited memoryBlocks passes := by simp [hVisited]
      exact lt_of_le_of_lt (Nat.zero_le _) (mem_visited.mp hMem).1
    have hFirst : (⟨0, r.toNat / (memoryBlocks.toNat / 4), r.toNat % (memoryBlocks.toNat / 4)⟩ :
        Position) ∈ visited memoryBlocks passes := by
      refine mem_visited.mpr ⟨hPasses, hSlice, hIndex, ?_⟩
      dsimp only
      rw [startIndex]
      split
      · next h =>
        rw [h.2, Nat.zero_mul, Nat.zero_add] at hSum
        omega
      · exact Nat.zero_le _
    have hDone := mem_done hVisited hFirst (by simpa only [time, Nat.zero_mul, Nat.zero_add, hSum])
    refine List.mem_append_right _ (List.mem_map.mpr ⟨_, hDone, BitVec.eq_of_toNat_eq ?_⟩)
    exact ((current_spec hSize (inside_of_visited hFirst)).2).trans hSum

/-- **Reference indexing.** For every memory size of at least eight blocks, a
multiple of four below `2 ^ 32`, every number of passes, every iteration and every
`J_1`: no operation wraps around, the reference block is the one RFC 9106 selects,
it is a block of the memory, neither the current nor the previous one, and it has
been written. In the first pass it precedes the previous block; later it is not in
the part of the current slice that is still to be rewritten. -/
theorem reference_correct (hLeast : 8 ≤ memoryBlocks.toNat)
    (hQuarters : memoryBlocks.toNat % 4 = 0) (hBounded : memoryBlocks.toNat < 2 ^ 32)
    (passes : Nat) {done todo : List Position}
    (hVisited : visited memoryBlocks passes = done ++ p :: todo) (j1 : BitVec 32) :
    p.currentChecked memoryBlocks = some (p.current memoryBlocks) ∧
      p.previousChecked memoryBlocks = some (p.previous memoryBlocks) ∧
      p.referenceChecked memoryBlocks j1 = some (p.reference memoryBlocks j1) ∧
      Rfc9106.referenceBlock memoryBlocks.toNat p.pass p.slice p.index j1.toNat =
        some (p.reference memoryBlocks j1).toNat ∧
      p.reference memoryBlocks j1 < memoryBlocks ∧
      p.reference memoryBlocks j1 ≠ p.current memoryBlocks ∧
      p.reference memoryBlocks j1 ≠ p.previous memoryBlocks ∧
      p.reference memoryBlocks j1 ∈ [0, 1] ++ done.map (Position.current memoryBlocks) ∧
      (p.pass = 0 → p.reference memoryBlocks j1 < p.previous memoryBlocks) ∧
      (p.pass ≠ 0 → p.reference memoryBlocks j1 < p.current memoryBlocks ∨
        (p.slice + 1) * (segmentLength memoryBlocks).toNat ≤
          (p.reference memoryBlocks j1).toNat) := by
  have hSize : Size memoryBlocks.toNat := ⟨hLeast, hQuarters, hBounded⟩
  have hMem : p ∈ visited memoryBlocks passes := by simp [hVisited]
  have hp := inside_of_visited hMem
  have hWindow := window hSize hp
  obtain ⟨hCurrentSome, hCurrent⟩ := current_spec hSize hp
  obtain ⟨hPreviousSome, hPrevious⟩ := previous_spec hSize hp
  obtain ⟨hReferenceSome, hReference⟩ := reference_spec hSize hp j1
  rw [hWindow.previous] at hPrevious
  have hShrunk := shrunk_lt hWindow.nonempty j1
  have hShort := hWindow.short
  have hWindowCurrent := hWindow.current
  -- the distance of the reference block from the start of the window
  obtain ⟨rel, hRel, hRelLt⟩ : ∃ rel, rel = windowLength memoryBlocks.toNat p - 1 -
      shrunk (windowLength memoryBlocks.toNat p) j1.toNat ∧
      rel < windowLength memoryBlocks.toNat p := ⟨_, rfl, by omega⟩
  rw [← hRel] at hReference
  refine ⟨hCurrentSome, hPreviousSome, hReferenceSome, ?_, ?_, ?_, ?_, ?_, ?_, ?_⟩
  · exact referenceBlock_eq hSize hp j1
  · rw [BitVec.lt_def, hReference]
    exact Nat.mod_lt _ (by omega)
  · intro h
    have hNat := congrArg BitVec.toNat h
    rw [hReference, hCurrent, ← hWindowCurrent] at hNat
    exact arc_ne (by omega) (by omega) hNat
  · intro h
    have hNat := congrArg BitVec.toNat h
    rw [hReference, hPrevious] at hNat
    exact arc_ne hRelLt (by omega) hNat
  · have hLt : p.reference memoryBlocks j1 < memoryBlocks := by
      rw [BitVec.lt_def, hReference]
      exact Nat.mod_lt _ (by omega)
    refine mem_written hSize hVisited hLt ?_
    rw [time, hReference]
    by_cases hPass : p.pass = 0
    · have hStart : windowStart memoryBlocks.toNat p = 0 := if_pos hPass
      rw [hStart, Nat.zero_add, Nat.mod_eq_of_lt (by omega)] at hWindowCurrent ⊢
      omega
    · have hPassPos : memoryBlocks.toNat ≤ p.pass * memoryBlocks.toNat :=
        Nat.le_mul_of_pos_left _ (Nat.pos_of_ne_zero hPass)
      have := Nat.mod_lt (windowStart memoryBlocks.toNat p + rel) (show 0 < memoryBlocks.toNat by omega)
      omega
  · intro hPass
    rw [BitVec.lt_def, hReference, hPrevious]
    have hStart : windowStart memoryBlocks.toNat p = 0 := if_pos hPass
    rw [hStart, Nat.zero_add, Nat.zero_add, Nat.mod_eq_of_lt (by omega),
      Nat.mod_eq_of_lt (by omega)]
    exact hRelLt
  · intro hPass
    rw [BitVec.lt_def, hReference, hCurrent, segmentLength_toNat]
    simp only [windowLength, windowStart, hPass, if_false] at hRelLt ⊢
    have hSlice := hp.slice
    have hIndex := hp.index
    by_cases hLast : p.slice = 3
    · rw [if_pos hLast, hLast, Nat.mod_eq_of_lt (by omega)]
      omega
    · rw [if_neg hLast]
      have hMul : (p.slice + 1) * (memoryBlocks.toNat / 4) =
          p.slice * (memoryBlocks.toNat / 4) + memoryBlocks.toNat / 4 := Nat.succ_mul _ _
      by_cases hWrap : (p.slice + 1) * (memoryBlocks.toNat / 4) + rel < memoryBlocks.toNat
      · rw [Nat.mod_eq_of_lt hWrap]
        omega
      · rw [Nat.mod_eq_sub_mod (by omega), Nat.mod_eq_of_lt (by
          have := hWindow.current_lt
          omega)]
        omega

end Machine

/-- The second block of the second pass over eight blocks. -/
theorem reference_correct_eight :
    let p : Position := ⟨1, 0, 1⟩
    p.referenceChecked 8 0x80000000 = some 6 ∧
      Rfc9106.referenceBlock 8 1 0 1 0x80000000 = some 6 := by
  have hVisited : visited 8 2 =
      [⟨0, 1, 0⟩, ⟨0, 1, 1⟩, ⟨0, 2, 0⟩, ⟨0, 2, 1⟩, ⟨0, 3, 0⟩, ⟨0, 3, 1⟩, ⟨1, 0, 0⟩] ++
        ⟨1, 0, 1⟩ :: [⟨1, 1, 0⟩, ⟨1, 1, 1⟩, ⟨1, 2, 0⟩, ⟨1, 2, 1⟩, ⟨1, 3, 0⟩, ⟨1, 3, 1⟩] := by
    decide
  obtain ⟨-, -, hChecked, hRfc, -⟩ :=
    reference_correct (by decide) (by decide) (by decide) 2 hVisited 0x80000000
  exact ⟨hChecked, hRfc⟩

end ArmRx.Hash
