import ArmRx.Pool.Client

/-!
# The hashing part of `worker_loop`

The locals a mining worker keeps between two hashes of one job: the template
with the nonce it is about to hash, the template of the next one, and its
counters (`src/mining_engine.cpp`, `worker_loop` behind the job check). The
first hash of a job is the prime hash; it leaves the next nonce in
`block_input`, and every later hash is a pipelined one.

Nonces are 64-bit words in the source. The model keeps the unwrapped counters;
what is written into a template is the wrapped word.
-/

namespace ArmRx.Mining

open ArmRx.Lib ArmRx.Lib.Json ArmRx.Pool

/-- `update_nonce_in_template`: the low `size` bytes of the nonce at `offset`. -/
def updateNonceInTemplate (block : Bytes) (nonce : BitVec 64) (offset size : Nat) :
    Option Bytes :=
  if offset + size > block.length then none
  else some (block.take offset ++ bytesOfNat size nonce.toNat ++ block.drop (offset + size))

/-- The locals of `worker_loop` between two hashes. `delivery` names the
`set_job` call `local_job` comes from. -/
structure Hashing where
  localJob : Job
  delivery : Nat
  blockInput : Bytes
  nextBlock : Bytes
  pipelinedActive : Bool
  localNonce : Nat
  currentNonce : Nat
  nextNonce : Nat
  deriving DecidableEq

namespace Hashing

/-- The locals of a new thread. -/
def fresh (threadId : Nat) : Hashing where
  localJob := {}
  delivery := 0
  blockInput := []
  nextBlock := []
  pipelinedActive := false
  localNonce := threadId
  currentNonce := 0
  nextNonce := 0

/-- Taking over a job. -/
def refresh (threadId : Nat) (job : Job) (delivery : Nat) (h : Hashing) : Hashing :=
  { h with
    localJob := job
    delivery := delivery
    blockInput := job.blockTemplate
    pipelinedActive := false
    localNonce := threadId
    currentNonce := 0 }

/-- The block with a nonce of the job written into it. -/
def withNonce (h : Hashing) (nonce : Nat) : Option Bytes :=
  updateNonceInTemplate h.blockInput (BitVec.ofNat 64 nonce) h.localJob.nonceOffset
    h.localJob.nonceSize

/-- The part of an iteration in front of the hash: a prime hash takes its
nonce, a pipelined one prepares the next block. `false` is a job whose nonce
field does not fit the template. -/
def take (numThreads : Nat) (h : Hashing) : Hashing × Bool :=
  let nonce := h.localNonce
  if h.pipelinedActive then
    match h.withNonce nonce with
    | none => ({ h with localNonce := nonce + numThreads, nextBlock := h.blockInput }, false)
    | some block =>
      ({ h with localNonce := nonce + numThreads, nextBlock := block, nextNonce := nonce }, true)
  else
    match h.withNonce nonce with
    | none => ({ h with localNonce := nonce + numThreads }, false)
    | some block =>
      ({ h with localNonce := nonce + numThreads, blockInput := block, currentNonce := nonce },
        true)

/-- The part of an iteration behind the hash: a prime hash writes the nonce of
the first pipelined one, a pipelined hash swaps its two blocks. -/
def finish (numThreads : Nat) (h : Hashing) : Hashing × Bool :=
  if h.pipelinedActive then
    ({ h with
      blockInput := h.nextBlock, nextBlock := h.blockInput, currentNonce := h.nextNonce }, true)
  else
    let nonce := h.localNonce
    match h.withNonce nonce with
    | none => ({ h with localNonce := nonce + numThreads }, false)
    | some block =>
      ({ h with
        localNonce := nonce + numThreads, blockInput := block, currentNonce := nonce,
        pipelinedActive := true }, true)

/-! ## The nonces of one job -/

/-- Between two iterations: the smallest nonce of the job not yet hashed. -/
def pending (h : Hashing) : Nat := if h.pipelinedActive then h.currentNonce else h.localNonce

/-- Between two iterations the counters are the worker's own nonces, and the
nonce left in the template is in front of `local_nonce`. -/
structure Between (threadId numThreads : Nat) (h : Hashing) : Prop where
  localNonce : h.localNonce ≡ threadId [MOD numThreads]
  currentNonce : h.pipelinedActive = true →
    h.currentNonce ≡ threadId [MOD numThreads] ∧ h.currentNonce < h.localNonce

/-- In front of the hash of `current_nonce`: what is left for later is behind
it. -/
structure Ready (threadId numThreads : Nat) (h : Hashing) : Prop where
  localNonce : h.localNonce ≡ threadId [MOD numThreads]
  currentNonce : h.currentNonce ≡ threadId [MOD numThreads]
  current_lt : h.currentNonce < h.localNonce
  nextNonce : h.pipelinedActive = true →
    h.nextNonce ≡ threadId [MOD numThreads] ∧ h.currentNonce < h.nextNonce ∧
      h.nextNonce < h.localNonce

variable {threadId numThreads : Nat} {h : Hashing}

/-- Being in front of a hash is being between two of them. -/
theorem Ready.between (hr : Ready threadId numThreads h) : Between threadId numThreads h :=
  ⟨hr.localNonce, fun _ => ⟨hr.currentNonce, hr.current_lt⟩⟩

theorem Ready.le_pending (hr : Ready threadId numThreads h) : h.currentNonce ≤ h.pending := by
  unfold pending
  split
  · exact Nat.le_refl _
  · exact hr.current_lt.le

theorem between_refresh (job : Job) (delivery : Nat) (h : Hashing) :
    Between threadId numThreads (h.refresh threadId job delivery) where
  localNonce := Nat.ModEq.refl _
  currentNonce := fun hp => by simp [refresh] at hp

/-- Adding the stride stays with the worker's nonces. -/
theorem modEq_add_stride {n : Nat} (hn : n ≡ threadId [MOD numThreads]) :
    n + numThreads ≡ threadId [MOD numThreads] :=
  (Nat.add_modEq_right).trans hn

/-- Taking a nonce goes from between two iterations to the front of a hash; the
nonce to be hashed is the pending one. A job that does not fit only loses
nonces. -/
theorem take_spec (hT : 0 < numThreads) (hb : Between threadId numThreads h) :
    (h.take numThreads).1.delivery = h.delivery ∧
    ((h.take numThreads).2 = true → Ready threadId numThreads (h.take numThreads).1 ∧
      (h.take numThreads).1.currentNonce = h.pending) ∧
    Between threadId numThreads (h.take numThreads).1 ∧
    h.pending ≤ (h.take numThreads).1.pending := by
  have hStride := modEq_add_stride hb.localNonce
  unfold take
  dsimp only
  by_cases hp : h.pipelinedActive = true
  · obtain ⟨hMod, hLt⟩ := hb.currentNonce hp
    have hAhead : h.currentNonce < h.localNonce + numThreads := by omega
    rw [if_pos hp]
    cases h.withNonce h.localNonce with
    | none =>
      refine ⟨rfl, fun hFits => by simp at hFits, ⟨hStride, fun _ => ⟨hMod, hAhead⟩⟩, ?_⟩
      simp [pending, hp]
    | some block =>
      have hNext : h.localNonce < h.localNonce + numThreads := by omega
      refine ⟨rfl, fun _ => ⟨⟨hStride, hMod, hAhead, fun _ => ⟨hb.localNonce, hLt, hNext⟩⟩, ?_⟩,
        ⟨hStride, fun _ => ⟨hMod, hAhead⟩⟩, ?_⟩
      · simp [pending, hp]
      · simp [pending, hp]
  · rw [if_neg hp]
    cases h.withNonce h.localNonce with
    | none =>
      refine ⟨rfl, fun hFits => by simp at hFits, ⟨hStride, fun hp' => absurd hp' hp⟩, ?_⟩
      simp [pending, hp]
    | some block =>
      have hNext : h.localNonce < h.localNonce + numThreads := by omega
      refine ⟨rfl, fun _ => ⟨⟨hStride, hb.localNonce, hNext, fun hp' => absurd hp' hp⟩, ?_⟩,
        ⟨hStride, fun hp' => absurd hp' hp⟩, ?_⟩
      · simp [pending, hp]
      · simp [pending, hp]

/-- A hash leaves a larger nonce pending. -/
theorem finish_spec (hT : 0 < numThreads) (hr : Ready threadId numThreads h) :
    (h.finish numThreads).1.delivery = h.delivery ∧
    Between threadId numThreads (h.finish numThreads).1 ∧
    h.currentNonce < (h.finish numThreads).1.pending := by
  have hStride := modEq_add_stride hr.localNonce
  have hLt := hr.current_lt
  unfold finish
  dsimp only
  by_cases hp : h.pipelinedActive = true
  · obtain ⟨hMod, hNext, hLocal⟩ := hr.nextNonce hp
    rw [if_pos hp]
    refine ⟨rfl, ⟨hr.localNonce, fun _ => ⟨hMod, hLocal⟩⟩, ?_⟩
    simpa [pending, hp] using hNext
  · rw [if_neg hp]
    cases h.withNonce h.localNonce with
    | none =>
      refine ⟨rfl, ⟨hStride, fun hp' => absurd hp' hp⟩, ?_⟩
      simp only [pending, hp, Bool.false_eq_true, if_false]
      omega
    | some block =>
      have hNext : h.localNonce < h.localNonce + numThreads := by omega
      exact ⟨rfl, ⟨hStride, fun _ => ⟨hr.localNonce, hNext⟩⟩, hLt⟩

end Hashing

end ArmRx.Mining
