import ZmqBridge.Queue.Dispatchers

/-!
# ZmqBridge — how large a queue can get

A queue grows by a chunk when an entry finds no free item. Whether it may is decided
by the value of the semaphore, in `unsigned int`; the list is longer than that by the
entries whose dispatchers are past the semaphore and not yet under the lock.

* `UQueueImpl.SameChunks`     — what the calls leave alone;
* `SharedQueue.WithinCapacity` — neither the entries nor the items exceed `mMaxSize`;
* `sharedQueue_capacity_iff`  — that is so in every state of a run exactly when the
  queue only grows while the list has room for another chunk;
* `capacity_of_settled`       — which is so when it only grows with no dispatcher
  past the semaphore, and the sum does not overflow;
* `queue_outgrows_maxSize`    — a dispatcher past the semaphore lets it grow too far.
-/

namespace ZmqBridge

open Lib

variable {ι C D Γ M : Type}

-- ---------------------------------------------------------------------------
-- Chunks and limits
-- ---------------------------------------------------------------------------

/-- The chunks and the limits are the same. -/
structure UQueueImpl.SameChunks (impl impl' : UQueueImpl C D Γ M) : Prop where
  blocks : impl'.blocks = impl.blocks
  mMaxSize : impl'.mMaxSize = impl.mMaxSize
  mChunkSize : impl'.mChunkSize = impl.mChunkSize

/-- An entry makes the queue grow: there is no free item, and a chunk is allocated. -/
def UQueueImpl.Grows (impl : UQueueImpl C D Γ M) (calloc : Bool) : Prop :=
  impl.mFirstFree = none ∧ ¬ impl.TooBig impl.mChunkSize ∧ calloc = true

section Chunks

variable {impl impl' impl'' : UQueueImpl C D Γ M}

theorem UQueueImpl.SameChunks.refl (impl : UQueueImpl C D Γ M) : impl.SameChunks impl :=
  ⟨rfl, rfl, rfl⟩

theorem UQueueImpl.SameChunks.trans (h : impl.SameChunks impl') (h' : impl'.SameChunks impl'') :
    impl.SameChunks impl'' :=
  ⟨h'.blocks.trans h.blocks, h'.mMaxSize.trans h.mMaxSize, h'.mChunkSize.trans h.mChunkSize⟩

theorem sameChunks_store {p : Option UQPtr} {f : UQueueItem C D Γ M → UQueueItem C D Γ M}
    (h : impl.store p f = .ok impl') : impl.SameChunks impl' := by
  unfold UQueueImpl.store at h
  split at h
  · cases h
  · split at h
    · cases h
      exact ⟨rfl, rfl, rfl⟩
    · cases h

theorem sameChunks_linkChunk {chunk n : Nat} (h : impl.linkChunk chunk n = .ok impl') :
    impl.SameChunks impl' := by
  induction n generalizing impl' with
  | zero =>
    cases h
    exact .refl impl
  | succ n ih =>
    obtain ⟨impl₁, h₁, h⟩ := bind_eq_ok h
    obtain ⟨impl₂, h₂, h⟩ := bind_eq_ok h
    exact ((ih h₁).trans (sameChunks_store h₂)).trans (sameChunks_store h)

theorem sameChunks_putLast {item : UQPtr} (h : impl.putLast item = .ok impl') :
    impl.SameChunks impl' := by
  obtain ⟨impl₁, h₁, h⟩ := bind_eq_ok h
  obtain ⟨tail, -, h⟩ := bind_eq_ok h
  obtain ⟨impl₂, h₂, h⟩ := bind_eq_ok h
  obtain ⟨it, -, h⟩ := bind_eq_ok h
  obtain ⟨impl₃, h₃, h⟩ := bind_eq_ok h
  exact (((sameChunks_store h₁).trans (sameChunks_store h₂)).trans (sameChunks_store h₃)).trans
    (sameChunks_store h)

theorem sameChunks_uqRemove {ele : UQPtr} (h : impl.uqRemove ele = .ok impl') :
    impl.SameChunks impl' := by
  obtain ⟨it, -, h⟩ := bind_eq_ok h
  obtain ⟨impl₁, h₁, h⟩ := bind_eq_ok h
  obtain ⟨it', -, h⟩ := bind_eq_ok h
  obtain ⟨impl₂, h₂, h⟩ := bind_eq_ok h
  obtain ⟨impl₃, h₃, h⟩ := bind_eq_ok h
  cases h
  have hSame := ((sameChunks_store h₁).trans (sameChunks_store h₂)).trans (sameChunks_store h₃)
  exact ⟨hSame.blocks, hSame.mMaxSize, hSame.mChunkSize⟩

/-- Dispatching never gives chunks back. -/
theorem sameChunks_dispatchInt {status : WombatQueueStatus} {call : Option (UQCall C D Γ M)}
    (h : UQueue.dispatchInt impl = .ok (impl', status, call)) : impl.SameChunks impl' := by
  obtain ⟨mHead, -, h⟩ := bind_eq_ok h
  split at h
  · cases h
  · split at h
    · cases h
      exact .refl impl
    · obtain ⟨impl₁, h₁, h⟩ := bind_eq_ok h
      obtain ⟨it, -, h⟩ := bind_eq_ok h
      obtain ⟨arg, -, h⟩ := bind_eq_ok h
      cases h
      exact sameChunks_uqRemove h₁

/-- **Allocating a chunk** adds it, or changes nothing. -/
theorem allocChunk_cases {items : Nat} {calloc : Bool} {status : WombatQueueStatus}
    (h : impl.allocChunk items calloc = .ok (impl', status)) :
    ((impl.TooBig items ∨ calloc = false) ∧ impl' = impl) ∨
      (¬ impl.TooBig items ∧ calloc = true ∧ (impl.calloc items).SameChunks impl') := by
  unfold UQueueImpl.allocChunk at h
  split at h
  · rename_i hBig
    cases h
    exact Or.inl ⟨Or.inl hBig, rfl⟩
  · rename_i hFits
    cases calloc with
    | false =>
      cases h
      exact Or.inl ⟨Or.inr rfl, rfl⟩
    | true =>
      obtain ⟨impl₁, h₁, h⟩ := bind_eq_ok h
      obtain ⟨impl₂, h₂, h⟩ := bind_eq_ok h
      cases h
      have hLinked := sameChunks_linkChunk h₂
      exact Or.inr ⟨hFits, rfl, (sameChunks_store h₁).trans
        ⟨hLinked.blocks, hLinked.mMaxSize, hLinked.mChunkSize⟩⟩

/-- An entry that is written to a free item. -/
theorem sameChunks_enqueue {item : UQPtr} (hFree : impl.mFirstFree = some item) {calloc : Bool}
    {e : UQEntry C D Γ M} {status : WombatQueueStatus}
    (h : UQueue.enqueue impl calloc e = .ok (impl', status)) : impl.SameChunks impl' := by
  simp only [UQueue.enqueue, hFree, reduceCtorEq, if_false, pure_bind] at h
  obtain ⟨free, -, h⟩ := bind_eq_ok h
  obtain ⟨impl₁, h₁, h⟩ := bind_eq_ok h
  obtain ⟨impl₂, h₂, h⟩ := bind_eq_ok h
  cases h
  have hStored := sameChunks_store h₁
  have hPut := sameChunks_putLast h₂
  exact ⟨hPut.blocks.trans hStored.blocks, hPut.mMaxSize.trans hStored.mMaxSize,
    hPut.mChunkSize.trans hStored.mChunkSize⟩

theorem Shape.free_eq_nil_iff {queue free : List UQPtr} (hShape : Shape impl queue free) :
    free = [] ↔ impl.mFirstFree = none := by
  have hPath := hShape.freeList
  cases free with
  | nil => exact iff_of_true rfl hPath
  | cons p free =>
    refine iff_of_false (List.cons_ne_nil p free) ?_
    rw [hPath.1]
    exact Option.some_ne_none p

/-- **An entry** that makes the queue grow adds one chunk, any other none. -/
theorem UQueueImpl.Sound.enqueue_chunks (hSound : impl.Sound) {calloc : Bool}
    {e : UQEntry C D Γ M} {status : WombatQueueStatus}
    (h : UQueue.enqueue impl calloc e = .ok (impl', status)) :
    (impl.Grows calloc → (impl.calloc impl.mChunkSize).SameChunks impl') ∧
      (¬ impl.Grows calloc → impl.SameChunks impl') := by
  obtain ⟨queue, free, hShape⟩ := hSound.shape
  cases hFree : impl.mFirstFree with
  | some item =>
    refine ⟨fun hGrows => ?_, fun _ => sameChunks_enqueue hFree h⟩
    exact absurd (hFree.symm.trans hGrows.1) (Option.some_ne_none item)
  | none =>
    obtain rfl := hShape.free_eq_nil_iff.mpr hFree
    by_cases hFull : impl.Exhausted calloc
    · rw [enqueue_full hFull] at h
      cases h
      refine ⟨fun hGrows => ?_, fun _ => .refl impl⟩
      rcases hFull.2 with hBig | hCalloc
      · exact absurd hBig hGrows.2.1
      · exact absurd (hCalloc.symm.trans hGrows.2.2) Bool.false_ne_true
    · have hFits : ¬ impl.TooBig impl.mChunkSize := fun hBig => hFull ⟨hFree, Or.inl hBig⟩
      have hCalloc : calloc = true :=
        Bool.eq_true_of_not_eq_false fun hNone => hFull ⟨hFree, Or.inr hNone⟩
      subst hCalloc
      obtain ⟨impl₁, hAlloc, hShape₁, -⟩ := hShape.allocChunk hSound.mChunkSize hFits
      have hAdded : (impl.calloc impl.mChunkSize).SameChunks impl₁ := by
        rcases allocChunk_cases hAlloc with ⟨hRefused, -⟩ | ⟨-, -, hAdded⟩
        · exact absurd (hRefused.resolve_right Bool.noConfusion) hFits
        · exact hAdded
      -- the entry goes to the first item of the new chunk
      have hSome : impl₁.mFirstFree ≠ none := by
        intro hNone
        have hNil := congrArg List.length (hShape₁.free_eq_nil_iff.mpr hNone)
        rw [chunkNodes, List.length_map, List.length_range] at hNil
        exact hSound.mChunkSize.ne' hNil
      obtain ⟨item, hItem⟩ := Option.ne_none_iff_exists'.mp hSome
      rw [enqueue_grown hFree hAlloc hSome] at h
      exact ⟨fun _ => hAdded.trans (sameChunks_enqueue hItem h),
        fun hNot => absurd ⟨hFree, hFits, rfl⟩ hNot⟩

/-- A new queue has one chunk, which is not too big. -/
theorem chunks_of_create {d : QueueDefaults} {maxSize initialSize growBySize : Fin (2 ^ 32)}
    {semInit calloc : Bool}
    (h : UQueue.create d (UQueue.allocate d) maxSize initialSize growBySize semInit calloc =
      .ok (impl, .ok)) : impl.blocks.sum ≤ impl.mMaxSize := by
  cases semInit with
  | false =>
    simp only [UQueue.create, Bool.not_false, if_true] at h
    cases h
  | true =>
    rw [create_eq] at h
    obtain ⟨⟨impl₁, status⟩, hAlloc, h⟩ := bind_eq_ok h
    split at h
    · cases h
    · rename_i hFree
      cases h
      rcases allocChunk_cases hAlloc with ⟨-, rfl⟩ | ⟨hFits, -, hAdded⟩
      · exact absurd rfl hFree
      · have hLt : d.firstChunk initialSize < 2 ^ 32 := by
          unfold QueueDefaults.firstChunk
          split
          · exact d.chunkSize_lt
          · exact initialSize.isLt
        show impl₁.blocks.sum ≤ impl₁.mMaxSize
        rw [hAdded.blocks, hAdded.mMaxSize]
        unfold UQueueImpl.TooBig at hFits
        show ([] ++ [d.firstChunk initialSize]).sum ≤
          (UQueue.configured d maxSize growBySize : UQueueImpl C D Γ M).mMaxSize
        rw [show (UQueue.configured d maxSize growBySize : UQueueImpl C D Γ M).mSem = 0 from rfl,
          Nat.zero_add, Nat.mod_eq_of_lt hLt] at hFits
        rw [List.nil_append, List.sum_singleton]
        omega

theorem UQueueImpl.Sound.pending_length_le (h : impl.Sound) :
    impl.pending.length ≤ impl.blocks.sum := by
  obtain ⟨queue, free, hShape⟩ := h.shape
  rw [hShape.pending_eq, UQueueImpl.entries, List.length_map]
  exact hShape.length_le

/-- When no item is free, all of them are on the list. -/
theorem UQueueImpl.Sound.pending_length_eq (h : impl.Sound) (hFree : impl.mFirstFree = none) :
    impl.pending.length = impl.blocks.sum := by
  obtain ⟨queue, free, hShape⟩ := h.shape
  obtain rfl := hShape.free_eq_nil_iff.mpr hFree
  rw [hShape.pending_eq, UQueueImpl.entries, List.length_map, ← hShape.length_eq]
  rfl

end Chunks

-- ---------------------------------------------------------------------------
-- One step
-- ---------------------------------------------------------------------------

/-- **The capacity is respected**, by the entries on the list and by all items that were
ever allocated. -/
def SharedQueue.WithinCapacity (s : SharedQueue ι C D Γ M) : Prop :=
  s.impl.pending.length ≤ s.impl.mMaxSize ∧ s.impl.blocks.sum ≤ s.impl.mMaxSize

/-- The step makes the queue grow. -/
def SharedQueue.Grows (s : SharedQueue ι C D Γ M) : SharedAct ι C D Γ M → Prop
  | .enqueue _ calloc _ => s.impl.Grows calloc
  | _ => False

/-- A queue that grows has room for another chunk besides the list. -/
def SharedQueue.GrowsWithin (s : SharedQueue ι C D Γ M) (a : SharedAct ι C D Γ M) : Prop :=
  s.Grows a → s.impl.pending.length + s.impl.mChunkSize ≤ s.impl.mMaxSize

section Step

variable [DecidableEq ι] {s s' : SharedQueue ι C D Γ M} {a : SharedAct ι C D Γ M}

theorem SharedQueue.Inv.chunks (hInv : s.Inv) (h : s.step a = some s') :
    (s.Grows a → (s.impl.calloc s.impl.mChunkSize).SameChunks s'.impl) ∧
      (¬ s.Grows a → s.impl.SameChunks s'.impl) := by
  cases a with
  | enqueue i calloc e =>
    simp only [SharedQueue.step] at h
    split at h
    · split at h
      · -- a queue in order never faults
        rename_i hOut
        by_cases hFull : s.impl.Exhausted calloc
        · rw [enqueue_full hFull] at hOut
          cases hOut
        · obtain ⟨impl, hEnq, -⟩ := hInv.sound.enqueue hFull e
          rw [hEnq] at hOut
          cases hOut
      · rename_i hOut
        cases h
        exact hInv.sound.enqueue_chunks hOut
    · cases h
  | wait i =>
    refine ⟨False.elim, fun _ => ?_⟩
    cases hInv.moves h with
    | wait hPc hSem => exact ⟨rfl, rfl, rfl⟩
  | waitFails i =>
    refine ⟨False.elim, fun _ => ?_⟩
    cases hInv.moves h with
    | waitFails => exact .refl s.impl
  | remove i =>
    refine ⟨False.elim, fun _ => ?_⟩
    simp only [SharedQueue.step] at h
    split at h
    · split at h
      · cases h
        exact .refl s.impl
      · rename_i hOut
        cases h
        exact sameChunks_dispatchInt hOut
    · cases h
  | call i =>
    refine ⟨False.elim, fun _ => ?_⟩
    cases hInv.moves h with
    | call hPc => exact .refl s.impl

omit [DecidableEq ι] in
/-- The list is no longer than the items, so it is enough to count these. -/
theorem SharedQueue.Inv.withinCapacity_iff (hInv : s.Inv) :
    s.WithinCapacity ↔ s.impl.blocks.sum ≤ s.impl.mMaxSize :=
  ⟨fun h => h.2, fun h => ⟨hInv.sound.pending_length_le.trans h, h⟩⟩

/-- **One step** respects the capacity exactly when it grows within it. -/
theorem SharedQueue.WithinCapacity.step (hCap : s.WithinCapacity) (hInv : s.Inv)
    (h : s.step a = some s') : s'.WithinCapacity ↔ s.GrowsWithin a := by
  obtain ⟨hGrown, hKept⟩ := hInv.chunks h
  rw [(hInv.step h).withinCapacity_iff]
  by_cases hGrows : s.Grows a
  · -- no item was free, so the list is all there was
    have hFree : s.impl.mFirstFree = none := by
      cases a with
      | enqueue i calloc e => exact hGrows.1
      | _ => exact hGrows.elim
    have hBlocks : s'.impl.blocks = s.impl.blocks ++ [s.impl.mChunkSize] :=
      (hGrown hGrows).blocks
    have hMax : s'.impl.mMaxSize = s.impl.mMaxSize := (hGrown hGrows).mMaxSize
    rw [hBlocks, hMax, List.sum_append, List.sum_singleton,
      ← hInv.sound.pending_length_eq hFree]
    exact ⟨fun hle _ => hle, fun hWithin => hWithin hGrows⟩
  · refine iff_of_true ?_ (fun h => absurd h hGrows)
    rw [(hKept hGrows).blocks, (hKept hGrows).mMaxSize]
    exact hCap.2

omit [DecidableEq ι] in
/-- **A queue grows within its capacity** if the semaphore counts the list and the
test does not overflow. -/
theorem SharedQueue.growsWithin_of_counted
    (hCounted : s.Grows a → s.impl.pending.length = s.impl.mSem ∧
      s.impl.mSem + s.impl.mChunkSize < 2 ^ 32) : s.GrowsWithin a := by
  intro hGrows
  obtain ⟨hLen, hLt⟩ := hCounted hGrows
  have hFits : ¬ s.impl.TooBig s.impl.mChunkSize := by
    cases a with
    | enqueue i calloc e => exact hGrows.2.1
    | _ => exact hGrows.elim
  unfold UQueueImpl.TooBig at hFits
  rw [Nat.mod_eq_of_lt hLt] at hFits
  omega

end Step

-- ---------------------------------------------------------------------------
-- Runs
-- ---------------------------------------------------------------------------

section Runs

variable [DecidableEq ι] {impl : UQueueImpl C D Γ M} {d : QueueDefaults}
  {maxSize initialSize growBySize : Fin (2 ^ 32)} {semInit callocOk : Bool}
  (hCreate : UQueue.create d (UQueue.allocate d) maxSize initialSize growBySize semInit
    callocOk = .ok (impl, .ok))
include hCreate

omit [DecidableEq ι] in
theorem SharedQueue.withinCapacity_init :
    (SharedQueue.init impl : SharedQueue ι C D Γ M).WithinCapacity :=
  ((SharedQueue.inv_init (fresh_of_create hCreate)).withinCapacity_iff).mpr
    (chunks_of_create hCreate)

/--
**When the capacity of a queue is respected.** For every queue `uQueue_create` accepts, any
number of threads and every interleaving of their steps: neither the entries on the list nor
the items allocated for it exceed `mMaxSize`, in every state of the run, if and only if the
queue only grows when the length of the list and the chunk together are within `mMaxSize`.
-/
theorem sharedQueue_capacity_iff {as : List (SharedAct ι C D Γ M)} {s : SharedQueue ι C D Γ M}
    (hRun : run SharedQueue.step (SharedQueue.init impl) as = some s) :
    Along SharedQueue.step SharedQueue.WithinCapacity (SharedQueue.init impl) as ↔
      StepsMeet SharedQueue.step SharedQueue.GrowsWithin (SharedQueue.init impl) as := by
  refine along_iff_stepsMeet (J := fun s => s.Inv ∧ s.WithinCapacity)
    ⟨SharedQueue.inv_init (fresh_of_create hCreate), SharedQueue.withinCapacity_init hCreate⟩
    (fun s hJ => hJ.2) ?_ ?_ hRun
  · intro s a s' hJ hWithin h
    exact ⟨hJ.1.step h, (hJ.2.step hJ.1 h).mpr hWithin⟩
  · intro s a s' hJ h hCap
    exact (hJ.2.step hJ.1 h).mp hCap

/-- Nobody is past the semaphore when the queue grows, no post is lost, and the test does
not overflow. -/
def SharedQueue.Settled [Fintype ι] (s : SharedQueue ι C D Γ M) (a : SharedAct ι C D Γ M) :
    Prop :=
  s.CountsFit a ∧ (s.Grows a → passed s.pc = 0 ∧ s.impl.mSem + s.impl.mChunkSize < 2 ^ 32)

/-- **A queue that grows while it is settled stays within its capacity.** -/
theorem capacity_of_settled [Fintype ι] {as : List (SharedAct ι C D Γ M)}
    (hMeet : StepsMeet SharedQueue.step SharedQueue.Settled (SharedQueue.init impl) as) :
    Along SharedQueue.step SharedQueue.WithinCapacity (SharedQueue.init impl) as := by
  have hFresh := fresh_of_create hCreate
  have hAll : ∀ {bs : List (SharedAct ι C D Γ M)} {s : SharedQueue ι C D Γ M},
      run SharedQueue.step (SharedQueue.init impl) bs = some s →
      StepsMeet SharedQueue.step SharedQueue.Settled (SharedQueue.init impl) bs →
      s.Inv ∧ s.Exact ∧ s.WithinCapacity := by
    refine run_induction_meet
      (P := fun _ (s : SharedQueue ι C D Γ M) => s.Inv ∧ s.Exact ∧ s.WithinCapacity)
      ⟨SharedQueue.inv_init hFresh, SharedQueue.exact_init hFresh,
        SharedQueue.withinCapacity_init hCreate⟩ ?_
    intro _ s a s' _ hs hSettled h
    obtain ⟨hInv, hExact, hCap⟩ := hs
    refine ⟨hInv.step h, (hExact.step hInv h).mpr hSettled.1, (hCap.step hInv h).mpr ?_⟩
    refine SharedQueue.growsWithin_of_counted fun hGrows => ?_
    obtain ⟨hPassed, hLt⟩ := hSettled.2 hGrows
    have hCounted := hExact.counted
    exact ⟨by omega, hLt⟩
  exact along_of_stepsMeet (fun hRun hMeet => (hAll hRun hMeet).2.2) hMeet

end Runs

/-- A queue of two items that grows by one; the third entry makes it grow to its maximum
and the fourth is refused. -/
def growToMaximum : List (SharedAct Bool Nat Nat Nat Nat) :=
  [.enqueue false true (tick 1), .enqueue true true (tick 2), .enqueue false true (note 3),
    .enqueue false true (tick 4), .wait true, .remove true, .enqueue false true (note 5)]

theorem sharedQueue_capacity_growToMaximum :
    ∃ s, run SharedQueue.step (SharedQueue.init smallQueue) growToMaximum = some s ∧
      s.impl.blocks = [2, 1] ∧
      (Along SharedQueue.step SharedQueue.WithinCapacity (SharedQueue.init smallQueue)
          growToMaximum ↔
        StepsMeet SharedQueue.step SharedQueue.GrowsWithin (SharedQueue.init smallQueue)
          growToMaximum) := by
  have hCreate : UQueue.create smallDefaults (UQueue.allocate smallDefaults) 3 2 1 true true =
      .ok (smallQueue, .ok) := rfl
  have hRun : run SharedQueue.step (SharedQueue.init smallQueue) growToMaximum = some _ := rfl
  exact ⟨_, hRun, rfl, sharedQueue_capacity_iff hCreate hRun⟩

/-- **A queue outgrows its maximum.** One of three entries is about to be dispatched, so
the semaphore is 2 and the test lets the queue grow from three items to four. -/
theorem queue_outgrows_maxSize :
    ∃ s, run SharedQueue.step (SharedQueue.init smallQueue)
        ([.enqueue false true (tick 1), .enqueue false true (tick 2),
          .enqueue false true (tick 3), .wait true, .enqueue false true (tick 4)] :
            List (SharedAct Bool Nat Nat Nat Nat)) = some s ∧
      s.impl.mMaxSize = 3 ∧ s.impl.pending.length = 4 ∧ s.impl.blocks.sum = 4 :=
  ⟨_, rfl, rfl, rfl, rfl⟩

end ZmqBridge
