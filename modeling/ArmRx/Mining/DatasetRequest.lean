import ArmRx.Mining.FillSafety
import ArmRx.Vm.InitializeDataset

/-!
# Admission of a partial dataset

`validate_partial_dataset_request` decides, before anything is allocated,
whether a `--dataset-mb` request fits the RandomX dataset and the memory that
is available. It computes in `std::size_t`, with a check before each operation
that could wrap. An admitted request becomes the item count of a
`PartialDataset`, whose fill workers later call `initialize_dataset` on parts
of their chunks; the latter checks its range once more and throws.

* `validatePartialDatasetRequest_ok_iff` — the verdict over the natural numbers.
* `construct_eq_allocate` — the constructor's checks are the model's `allocate`.
* `subRange_valid` — the arguments a fill worker computes pass the checks of
  `initialize_dataset`.
* `admission_exact` — the whole path of a request.
-/

namespace ArmRx.Mining

open ArmRx.Lib PartialDataset

/-- `std::size_t` and `std::uint64_t` of the target. -/
abbrev SizeT := BitVec 64

namespace DatasetRequest

/-! ## The request -/

def kMiB : SizeT := 1024 * 1024

/-- The bytes of the Argon2 cache, as a machine word. -/
def cacheBytes : SizeT := BitVec.ofNat 64 Vm.kRandomXCacheBytes

def kRandomXScratchpadBytes : SizeT := 2 * 1024 * 1024

def kAutoModeSafetyReserve : SizeT := 256 * 1024 * 1024

/-- `std::numeric_limits<std::size_t>::max()`. -/
def sizeMax : SizeT := BitVec.allOnes 64

/-- The bytes of a dataset item, as a machine word. -/
def itemBytes : SizeT := BitVec.ofNat 64 kRandomXDatasetItemBytes

/-- `randomx_dataset_item_count()`, as a machine word. -/
def itemCountMax : SizeT := BitVec.ofNat 64 randomxDatasetItemCount

def randomxWorkerMemory : SizeT := kRandomXScratchpadBytes

def miningWorkerActualScratchpadBytes : SizeT := 2 * randomxWorkerMemory

structure PartialDatasetValidation where
  ok : Bool := true
  error : String := ""
  itemCount : SizeT := 0
  datasetBytes : SizeT := 0
  requiredBytes : SizeT := 0
  deriving DecidableEq, Repr

/-- The two locals that the lambda `add` captures. -/
structure Budget where
  overflow : Bool
  required : SizeT

/-- The lambda `add`: a sum that would wrap is noted and left out. -/
def Budget.add (b : Budget) (x : SizeT) : Budget :=
  if x > sizeMax - b.required then { b with overflow := true }
  else { b with required := b.required + x }

def budget (workers : BitVec 32) (datasetBytes : SizeT) : Budget :=
  (((Budget.mk false cacheBytes).add
    (workers.setWidth 64 * miningWorkerActualScratchpadBytes)).add
    datasetBytes).add kAutoModeSafetyReserve

/-- The text for a request larger than the dataset. -/
def extentError (datasetMb datasetBytes fullDatasetBytes : SizeT) : String :=
  s!"--dataset-mb={datasetMb.toNat} ({(datasetBytes / kMiB).toNat} MiB) exceeds the full " ++
    s!"RandomX dataset extent ({(fullDatasetBytes / kMiB).toNat} MiB)"

/-- The text for a request larger than the memory. -/
def memoryError (datasetMb required availableBytes : SizeT) : String :=
  s!"--dataset-mb={datasetMb.toNat} needs {(required / kMiB).toNat} MiB total (Argon2 cache + " ++
    "worker scratchpads + partial dataset + OS reserve) but only " ++
    s!"{(availableBytes / kMiB).toNat} MiB is available"

/-- The end of the validation: the sum, and what is available. -/
def checkMemory (datasetMb availableBytes : SizeT) (sum : Budget)
    (v : PartialDatasetValidation) : PartialDatasetValidation :=
  if sum.overflow then
    { v with ok := false, error := "--dataset-mb memory budget computation overflowed" }
  else if sum.required > availableBytes then
    { v with
      requiredBytes := sum.required
      ok := false
      error := memoryError datasetMb sum.required availableBytes }
  else { v with requiredBytes := sum.required }

/-- The extent check in front of it. -/
def checkExtent (datasetMb : SizeT) (workers : BitVec 32) (availableBytes fullDatasetBytes : SizeT)
    (v : PartialDatasetValidation) : PartialDatasetValidation :=
  if v.datasetBytes > fullDatasetBytes then
    { v with ok := false, error := extentError datasetMb v.datasetBytes fullDatasetBytes }
  else checkMemory datasetMb availableBytes (budget workers v.datasetBytes) v

def validatePartialDatasetRequest (datasetMb : SizeT) (workers : BitVec 32)
    (availableBytes : SizeT) : PartialDatasetValidation :=
  if datasetMb = 0 then {}
  else if datasetMb > sizeMax / kMiB then
    { ok := false, error := "--dataset-mb value overflows converting MiB to bytes" }
  else
    checkExtent datasetMb workers availableBytes (itemCountMax * itemBytes)
      { datasetBytes := datasetMb * kMiB, itemCount := datasetMb * kMiB / itemBytes }

/-! ## The verdict -/

/-- The sum of a budget that has not wrapped. -/
structure Budget.Holds (b : Budget) (n : Nat) : Prop where
  overflow : b.overflow = false
  required : b.required.toNat = n

theorem Budget.Holds.add {b : Budget} {n : Nat} {x : SizeT} (h : b.Holds n)
    (hFits : n + x.toNat < 2 ^ 64) : (b.add x).Holds (n + x.toNat) := by
  obtain ⟨hOverflow, hRequired⟩ := h
  have hLe : ¬ x > sizeMax - b.required := by
    rw [gt_iff_lt, BitVec.lt_def, sizeMax, BitVec.toNat_sub_of_le (BitVec.le_def.mpr ?_),
      BitVec.toNat_allOnes]
    · omega
    · rw [BitVec.toNat_allOnes]
      omega
  rw [Budget.add, if_neg hLe]
  refine ⟨hOverflow, ?_⟩
  rw [BitVec.toNat_add, hRequired, Nat.mod_eq_of_lt hFits]

/-- The bytes that the scratchpads of all workers take. -/
theorem scratchpadBytes_toNat (workers : BitVec 32) :
    (workers.setWidth 64 * miningWorkerActualScratchpadBytes).toNat =
      workers.toNat * (4 * 2 ^ 20) := by
  have hWorkers := workers.isLt
  have hWide : (workers.setWidth 64).toNat = workers.toNat := by
    rw [BitVec.toNat_setWidth, Nat.mod_eq_of_lt (by omega)]
  have hEach : miningWorkerActualScratchpadBytes.toNat = 4 * 2 ^ 20 := by decide
  rw [BitVec.toNat_mul, hWide, hEach, Nat.mod_eq_of_lt (by omega)]

/-- The budget of a dataset that is not larger than the full one never wraps. -/
theorem budget_holds (workers : BitVec 32) {datasetBytes : SizeT}
    (hFull : datasetBytes.toNat ≤ kRandomXDatasetBytes) :
    (budget workers datasetBytes).Holds
      (256 * 2 ^ 20 + workers.toNat * (4 * 2 ^ 20) + datasetBytes.toNat + 256 * 2 ^ 20) := by
  have hWorkers := workers.isLt
  have hPads := scratchpadBytes_toNat workers
  have hReserve : kAutoModeSafetyReserve.toNat = 256 * 2 ^ 20 := by decide
  unfold kRandomXDatasetBytes at hFull
  have hCache : (Budget.mk false cacheBytes).Holds (256 * 2 ^ 20) := ⟨rfl, by decide⟩
  have hWithPads := hCache.add (x := workers.setWidth 64 * miningWorkerActualScratchpadBytes)
    (by omega)
  have hWithDataset := hWithPads.add (x := datasetBytes) (by omega)
  have hSum := hWithDataset.add (x := kAutoModeSafetyReserve) (by omega)
  rw [hPads, hReserve] at hSum
  exact hSum

/-- What the request asks for over the natural numbers. -/
structure Fits (datasetMb : SizeT) (workers : BitVec 32) (availableBytes : SizeT) : Prop where
  extent : datasetMb.toNat * 2 ^ 20 ≤ kRandomXDatasetBytes
  memory : 256 * 2 ^ 20 + workers.toNat * (4 * 2 ^ 20) + datasetMb.toNat * 2 ^ 20 +
    kAutoModeSafetyReserve.toNat ≤ availableBytes.toNat

theorem datasetBytes_toNat {datasetMb : SizeT} (h : ¬ datasetMb > sizeMax / kMiB) :
    (datasetMb * kMiB).toNat = datasetMb.toNat * 2 ^ 20 := by
  have hMax : (sizeMax / kMiB).toNat = 2 ^ 44 - 1 := by decide
  have hMiB : kMiB.toNat = 2 ^ 20 := by decide
  rw [gt_iff_lt, BitVec.lt_def, hMax] at h
  rw [BitVec.toNat_mul, hMiB, Nat.mod_eq_of_lt (by omega)]

theorem fullDatasetBytes_toNat : (itemCountMax * itemBytes).toNat = kRandomXDatasetBytes := by
  decide

section Stages

variable {datasetMb availableBytes fullDatasetBytes : SizeT} {workers : BitVec 32} {sum : Budget}
  {v : PartialDatasetValidation}

theorem checkMemory_ok_iff (hOk : v.ok = true) :
    (checkMemory datasetMb availableBytes sum v).ok = true ↔
      sum.overflow = false ∧ sum.required.toNat ≤ availableBytes.toNat := by
  unfold checkMemory
  split
  · rename_i hOverflow
    exact iff_of_false Bool.false_ne_true (fun h => by simp [h.1] at hOverflow)
  · rename_i hOverflow
    rw [Bool.not_eq_true] at hOverflow
    split
    · rename_i hMore
      exact iff_of_false Bool.false_ne_true (fun h => Nat.not_le.mpr hMore h.2)
    · rename_i hEnough
      exact iff_of_true hOk ⟨hOverflow, BitVec.not_lt.mp hEnough⟩

theorem checkMemory_itemCount :
    (checkMemory datasetMb availableBytes sum v).itemCount = v.itemCount := by
  unfold checkMemory
  split
  · rfl
  · split <;> rfl

theorem checkExtent_ok_iff {datasetBytes : SizeT} (hOk : v.ok = true)
    (hBytes : v.datasetBytes = datasetBytes) :
    (checkExtent datasetMb workers availableBytes fullDatasetBytes v).ok = true ↔
      datasetBytes.toNat ≤ fullDatasetBytes.toNat ∧
      (budget workers datasetBytes).overflow = false ∧
      (budget workers datasetBytes).required.toNat ≤ availableBytes.toNat := by
  subst hBytes
  unfold checkExtent
  split
  · rename_i hLarge
    exact iff_of_false Bool.false_ne_true (fun h => Nat.not_le.mpr hLarge h.1)
  · rename_i hExtent
    have hLe : v.datasetBytes.toNat ≤ fullDatasetBytes.toNat := BitVec.not_lt.mp hExtent
    rw [checkMemory_ok_iff hOk, and_iff_right hLe]

theorem checkExtent_itemCount :
    (checkExtent datasetMb workers availableBytes fullDatasetBytes v).itemCount =
      v.itemCount := by
  unfold checkExtent
  split
  · rfl
  · exact checkMemory_itemCount

end Stages

section Verdict

variable (datasetMb : SizeT) (workers : BitVec 32) (availableBytes : SizeT)

/-- The verdict on a request that passes the first two checks. -/
theorem validatePartialDatasetRequest_of_le (hZero : datasetMb ≠ 0)
    (hMax : ¬ datasetMb > sizeMax / kMiB) :
    validatePartialDatasetRequest datasetMb workers availableBytes =
      checkExtent datasetMb workers availableBytes (itemCountMax * itemBytes)
        { datasetBytes := datasetMb * kMiB, itemCount := datasetMb * kMiB / itemBytes } := by
  rw [validatePartialDatasetRequest, if_neg hZero, if_neg hMax]

theorem Fits.not_overflows {datasetMb : SizeT} {workers : BitVec 32} {availableBytes : SizeT}
    (h : Fits datasetMb workers availableBytes) : ¬ datasetMb > sizeMax / kMiB := by
  have hExtent := h.extent
  have hQuotient : (sizeMax / kMiB).toNat = 2 ^ 44 - 1 := by decide
  rw [gt_iff_lt, BitVec.lt_def, hQuotient]
  unfold kRandomXDatasetBytes at hExtent
  omega

/-- **The verdict over the natural numbers.** -/
theorem validatePartialDatasetRequest_ok_iff :
    (validatePartialDatasetRequest datasetMb workers availableBytes).ok = true ↔
      datasetMb = 0 ∨ Fits datasetMb workers availableBytes := by
  by_cases hZero : datasetMb = 0
  · rw [validatePartialDatasetRequest, if_pos hZero]
    exact iff_of_true rfl (.inl hZero)
  rw [or_iff_right hZero]
  by_cases hMax : datasetMb > sizeMax / kMiB
  · -- more MiB than the conversion takes are more than the dataset has
    rw [validatePartialDatasetRequest, if_neg hZero, if_pos hMax]
    exact iff_of_false Bool.false_ne_true (fun hFits => hFits.not_overflows hMax)
  have hReserve : kAutoModeSafetyReserve.toNat = 256 * 2 ^ 20 := by decide
  have hBytes := datasetBytes_toNat hMax
  rw [validatePartialDatasetRequest_of_le _ _ _ hZero hMax,
    checkExtent_ok_iff rfl (show _ = datasetMb * kMiB from rfl), fullDatasetBytes_toNat, hBytes]
  constructor
  · rintro ⟨hExtent, -, hMemory⟩
    have hSum := (budget_holds workers (hBytes ▸ hExtent)).required
    rw [hSum, hBytes] at hMemory
    refine ⟨hExtent, ?_⟩
    rw [hReserve]
    exact hMemory
  · intro hFits
    have hMemory := hFits.memory
    obtain ⟨hOverflow, hSum⟩ := budget_holds workers (hBytes ▸ hFits.extent)
    rw [hBytes] at hSum
    exact ⟨hFits.extent, hOverflow, by omega⟩

/-- An admitted request asks for `2^14` items per MiB, no more than there are. -/
theorem itemCount_of_ok
    (hOk : (validatePartialDatasetRequest datasetMb workers availableBytes).ok = true) :
    (validatePartialDatasetRequest datasetMb workers availableBytes).itemCount.toNat =
        datasetMb.toNat * 2 ^ 14 ∧
      datasetMb.toNat * 2 ^ 14 ≤ randomxDatasetItemCount := by
  rcases (validatePartialDatasetRequest_ok_iff ..).mp hOk with rfl | hFits
  · exact ⟨rfl, Nat.zero_le _⟩
  have hExtent := hFits.extent
  have hItem : itemBytes.toNat = 2 ^ 6 := by decide
  have hItems : randomxDatasetItemCount = 34078720 := by decide
  have hCount : (validatePartialDatasetRequest datasetMb workers availableBytes).itemCount =
      datasetMb * kMiB / itemBytes := by
    by_cases hZero : datasetMb = 0
    · rw [validatePartialDatasetRequest, if_pos hZero, hZero]
      rfl
    · rw [validatePartialDatasetRequest_of_le _ _ _ hZero hFits.not_overflows,
        checkExtent_itemCount]
  rw [hCount, BitVec.toNat_udiv, datasetBytes_toNat hFits.not_overflows, hItem, hItems]
  unfold kRandomXDatasetBytes at hExtent
  omega

end Verdict

/-! ## The constructor -/

/-- The checks of the constructor, in front of its `mmap`. -/
def construct (itemCount : SizeT) : Except String Allocation :=
  if itemCount = 0 then .ok ⟨0, Nat.zero_le _⟩
  else if h : itemCount > itemCountMax then
    .error (s!"PartialDataset: item_count ({itemCount.toNat}) exceeds the full RandomX dataset " ++
      s!"extent ({itemCountMax.toNat} items)")
  else if itemCount > sizeMax / itemBytes then
    .error "PartialDataset: item_count overflows when converted to bytes"
  else .ok ⟨itemCount.toNat, BitVec.not_lt.mp h⟩

/-- **The constructor.** Its second check is never the one that rejects. -/
theorem construct_eq_allocate (itemCount : SizeT) :
    construct itemCount = allocate itemCount.toNat := by
  have hCount : itemCountMax.toNat = randomxDatasetItemCount := by decide
  unfold construct allocate
  by_cases hZero : itemCount = 0
  · subst hZero
    rfl
  rw [if_neg hZero]
  by_cases hLarge : itemCount > itemCountMax
  · have hNot : ¬ itemCount.toNat ≤ randomxDatasetItemCount := Nat.not_le.mpr hLarge
    rw [dif_pos hLarge, dif_neg hNot, hCount]
  · have hLe : itemCount.toNat ≤ randomxDatasetItemCount := BitVec.not_lt.mp hLarge
    have hBytes : ¬ itemCount > sizeMax / itemBytes := by
      have hQuotient : randomxDatasetItemCount ≤ (sizeMax / itemBytes).toNat := by decide
      rw [gt_iff_lt, BitVec.lt_def]
      omega
    rw [dif_neg hLarge, dif_pos hLe, if_neg hBytes]

/-! ## The ranges of a fill -/

/-- `std::min`. -/
def wordMin (a b : SizeT) : SizeT := if b < a then b else a

/-- The arguments of an `initialize_dataset` call but for the cache. -/
structure RangeCall where
  outputSize : SizeT
  startItem : SizeT
  itemCount : SizeT

/-- What `initialize_dataset` asks of its range and its span. -/
structure RangeCall.Valid (call : RangeCall) : Prop where
  range : Vm.datasetRangeIsValid call.startItem.toNat call.itemCount.toNat = true
  output : Vm.datasetOutputBytes call.itemCount.toNat ≤ call.outputSize.toNat

/-- The call for the items from `first` up to `last`. -/
def RangeCall.between (first last : SizeT) : RangeCall :=
  ⟨(last - first) * itemBytes, first, last - first⟩

/-- The bounds of chunk `i` in `start_fill`. -/
def chunkBounds (itemsPerWorker totalItems : SizeT) (i : BitVec 32) : SizeT × SizeT :=
  let start := i.setWidth 64 * itemsPerWorker
  (start, wordMin (start + itemsPerWorker) totalItems)

/-- The call at `sub_start` in the loop of `fill_worker`. -/
def subRange (subStart endItem : SizeT) : RangeCall :=
  .between subStart (wordMin (subStart + BitVec.ofNat 64 kFillChunkItems) endItem)

theorem wordMin_toNat (a b : SizeT) : (wordMin a b).toNat = min a.toNat b.toNat := by
  unfold wordMin
  split
  · rename_i hLt
    rw [BitVec.lt_def] at hLt
    omega
  · rename_i hLe
    rw [BitVec.lt_def] at hLe
    omega

/-- Items of the dataset make a valid call. -/
theorem RangeCall.between_valid {first last : SizeT} (hOrder : first.toNat ≤ last.toNat)
    (hLast : last.toNat ≤ randomxDatasetItemCount) : (RangeCall.between first last).Valid := by
  have hItems : (last - first).toNat = last.toNat - first.toNat :=
    BitVec.toNat_sub_of_le (BitVec.le_def.mpr hOrder)
  have hItem : itemBytes.toNat = kRandomXDatasetItemBytes := by decide
  refine ⟨?_, ?_⟩
  · change Vm.datasetRangeIsValid first.toNat (last - first).toNat = true
    rw [Vm.datasetRangeIsValid, hItems, Bool.and_eq_true, decide_eq_true_eq, decide_eq_true_eq]
    omega
  · change Vm.datasetOutputBytes (last - first).toNat ≤ ((last - first) * itemBytes).toNat
    rw [Vm.datasetOutputBytes, BitVec.toNat_mul, hItem, hItems, Nat.mod_eq_of_lt]
    unfold randomxDatasetItemCount kRandomXDatasetBytes kRandomXDatasetItemBytes at *
    omega

/-- **Each sub-chunk.** -/
theorem subRange_valid {subStart endItem : Nat} (hOrder : subStart ≤ endItem)
    (hEnd : endItem ≤ randomxDatasetItemCount) :
    (subRange (BitVec.ofNat 64 subStart) (BitVec.ofNat 64 endItem)).Valid := by
  have hItems : randomxDatasetItemCount < 2 ^ 32 := by decide
  have hChunk : kFillChunkItems = 2 ^ 20 := by decide
  have hFirst : (BitVec.ofNat 64 subStart).toNat = subStart := by
    rw [BitVec.toNat_ofNat, Nat.mod_eq_of_lt (by omega)]
  have hLast : (BitVec.ofNat 64 endItem).toNat = endItem := by
    rw [BitVec.toNat_ofNat, Nat.mod_eq_of_lt (by omega)]
  have hNext : (BitVec.ofNat 64 subStart + BitVec.ofNat 64 kFillChunkItems).toNat =
      subStart + 2 ^ 20 := by
    rw [BitVec.toNat_add, hFirst, hChunk, BitVec.toNat_ofNat]
    omega
  have hMin := wordMin_toNat (BitVec.ofNat 64 subStart + BitVec.ofNat 64 kFillChunkItems)
    (BitVec.ofNat 64 endItem)
  rw [hNext, hLast] at hMin
  exact RangeCall.between_valid (by omega) (by omega)

/-- A buffer without items has no chunk. -/
theorem items_pos_of_lt_numWorkers {call : FillCall} {n i : Nat} (hi : i < call.numWorkers n) :
    0 < n := by
  by_contra hZero
  have hNone : call.numWorkers 0 ≤ 0 := (Nat.min_le_left _ _).trans (by decide)
  rw [Nat.eq_zero_of_not_pos hZero] at hi
  omega

/-- The bounds that `start_fill` computes are those of the model. -/
theorem chunkBounds_toNat (call : FillCall) (d : Allocation) {i : Nat}
    (hi : i < call.numWorkers d.items) :
    let bounds := chunkBounds (BitVec.ofNat 64 (call.itemsPerWorker d.items))
      (BitVec.ofNat 64 d.items) (BitVec.ofNat 32 i)
    bounds.1.toNat = chunkStart (call.itemsPerWorker d.items) i ∧
      bounds.2.toNat = chunkEnd d.items (call.itemsPerWorker d.items) i := by
  have hPos := items_pos_of_lt_numWorkers hi
  have hFew := (numWorkers_spec call d hPos).2
  have hChunks := startFill_chunking call d hPos
  have hItems := d.items_le
  have hCount : randomxDatasetItemCount < 2 ^ 32 := by decide
  have hPer : call.itemsPerWorker d.items ≤ d.items + call.numWorkers d.items - 1 :=
    Nat.div_le_self _ _
  have hStart : i * call.itemsPerWorker d.items < d.items :=
    (Nat.mul_le_mul_right _ (by omega)).trans_lt hChunks.last
  have hIndex : ((BitVec.ofNat 32 i).setWidth 64).toNat = i := by
    rw [BitVec.toNat_setWidth, BitVec.toNat_ofNat]
    omega
  have hPerWord : (BitVec.ofNat 64 (call.itemsPerWorker d.items)).toNat =
      call.itemsPerWorker d.items := by
    rw [BitVec.toNat_ofNat, Nat.mod_eq_of_lt (by omega)]
  have hTotalWord : (BitVec.ofNat 64 d.items).toNat = d.items := by
    rw [BitVec.toNat_ofNat, Nat.mod_eq_of_lt (by omega)]
  have hFirst : ((BitVec.ofNat 32 i).setWidth 64 *
      BitVec.ofNat 64 (call.itemsPerWorker d.items)).toNat = i * call.itemsPerWorker d.items := by
    rw [BitVec.toNat_mul, hIndex, hPerWord, Nat.mod_eq_of_lt (by omega)]
  refine ⟨hFirst, ?_⟩
  rw [chunkBounds, wordMin_toNat, BitVec.toNat_add, hFirst, hPerWord, hTotalWord,
    Nat.mod_eq_of_lt (by omega)]
  rfl

/-- **Each chunk.** -/
theorem chunkBounds_valid (call : FillCall) (d : Allocation) {i : Nat}
    (hi : i < call.numWorkers d.items) :
    let bounds := chunkBounds (BitVec.ofNat 64 (call.itemsPerWorker d.items))
      (BitVec.ofNat 64 d.items) (BitVec.ofNat 32 i)
    (RangeCall.between bounds.1 bounds.2).Valid := by
  obtain ⟨hFirst, hLast⟩ := chunkBounds_toNat call d hi
  have hPos := items_pos_of_lt_numWorkers hi
  have hOrder := (startFill_chunking call d hPos).start_lt_end hi
  have hEnd : chunkEnd d.items (call.itemsPerWorker d.items) i ≤ d.items := Nat.min_le_right _ _
  have hItems := d.items_le
  exact RangeCall.between_valid (by omega) (by omega)

/-- A running fill worker's next call. -/
theorem worker_subRange_valid {d : Allocation} {R : Nat} {s : State R}
    (hReach : (system d R).Reachable System.Any s) {i subStart : Nat}
    (hPc : (s.workers i).pc = .initializeDataset subStart) :
    (subRange (BitVec.ofNat 64 subStart) (BitVec.ofNat 64 (s.workers i).endItem)).Valid := by
  have hActive : (s.workers i).pc ≠ .returned := by
    rw [hPc]
    exact fun h => nomatch h
  obtain ⟨hAssigned, hOk⟩ := (inv_reachable hReach).workers i hActive
  rw [hPc] at hOk
  obtain ⟨-, -, hEnd, -⟩ := hOk
  rw [← hAssigned.endItem] at hEnd
  have hTotal : (s.workers i).endItem ≤ d.items := by
    rw [hAssigned.endItem]
    exact Nat.min_le_right _ _
  exact subRange_valid hEnd (hTotal.trans d.items_le)

/-! ## The whole path -/

/-- **Admission is exact.** A request is admitted exactly when it is zero or fits
over the natural numbers; and an admitted one is not rejected by the
constructor, nor, in any run of the object, is a range its fills pass to
`initialize_dataset`. -/
theorem admission_exact (datasetMb : SizeT) (workers : BitVec 32) (availableBytes : SizeT) :
    ((validatePartialDatasetRequest datasetMb workers availableBytes).ok = true ↔
      datasetMb = 0 ∨ Fits datasetMb workers availableBytes) ∧
    ((validatePartialDatasetRequest datasetMb workers availableBytes).ok = true →
      ∃ d, construct (validatePartialDatasetRequest datasetMb workers availableBytes).itemCount =
          .ok d ∧ d.items = datasetMb.toNat * 2 ^ 14 ∧
        (∀ (call : FillCall) (i : Nat), i < call.numWorkers d.items →
          let bounds := chunkBounds (BitVec.ofNat 64 (call.itemsPerWorker d.items))
            (BitVec.ofNat 64 d.items) (BitVec.ofNat 32 i)
          (RangeCall.between bounds.1 bounds.2).Valid) ∧
        ∀ (R : Nat) (s : State R), (system d R).Reachable System.Any s → ∀ i subStart,
          (s.workers i).pc = .initializeDataset subStart →
          (subRange (BitVec.ofNat 64 subStart) (BitVec.ofNat 64 (s.workers i).endItem)).Valid) := by
  refine ⟨validatePartialDatasetRequest_ok_iff datasetMb workers availableBytes, fun hOk => ?_⟩
  obtain ⟨hCount, hLe⟩ := itemCount_of_ok datasetMb workers availableBytes hOk
  refine ⟨⟨datasetMb.toNat * 2 ^ 14, hLe⟩, ?_, rfl, fun call i hi => chunkBounds_valid call _ hi,
    fun R s hReach i subStart hPc => worker_subRange_valid hReach hPc⟩
  rw [construct_eq_allocate, allocate, hCount, dif_pos hLe]

/-- One MiB for four workers takes 529 MiB, to the byte. -/
theorem admission_exact_one_mib :
    (validatePartialDatasetRequest 1 4 0x21100000).ok = true ∧
      (validatePartialDatasetRequest 1 4 0x210FFFFF).ok = false := by
  refine ⟨(admission_exact 1 4 0x21100000).1.mpr (.inr ⟨by decide, by decide⟩), by decide⟩

end DatasetRequest

end ArmRx.Mining
