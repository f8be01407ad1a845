import ZmqBridge.Lib.Run
import ZmqBridge.Queue.Shape

/-!
# ZmqBridge — an event queue is a bounded FIFO

Any sequence of enqueues and dispatches on a created queue, with allocations
that succeed or fail. Next to the queue an `EventQueue` keeps what was accepted
and which callbacks were called.

* `eventQueue_refines_iff` — the queue is a FIFO whose counters are right, as
  long as the counters can hold the number of items;
* `long_queue_breaks`      — which they need not.
-/

namespace ZmqBridge

open Lib

variable {C D Γ M : Type}

-- ---------------------------------------------------------------------------
-- Creating a queue
-- ---------------------------------------------------------------------------

section Create

variable {d : QueueDefaults} {maxSize initialSize growBySize : Fin (2 ^ 32)}

/-- The size of the first chunk. -/
def QueueDefaults.firstChunk (d : QueueDefaults) (initialSize : Fin (2 ^ 32)) : Nat :=
  if initialSize = 0 then d.chunkSize else initialSize

theorem QueueDefaults.firstChunk_pos (d : QueueDefaults) (initialSize : Fin (2 ^ 32)) :
    0 < d.firstChunk initialSize := by
  rw [QueueDefaults.firstChunk]
  split
  · exact d.chunkSize_pos
  · rename_i h
    exact Nat.pos_of_ne_zero fun h0 => h (Fin.ext h0)

theorem shape_allocate (d : QueueDefaults) :
    Shape (UQueue.allocate d : UQueueImpl C D Γ M) [] [] where
  linked := List.isChain_cons_cons.mpr ⟨⟨rfl, rfl⟩, List.IsChain.singleton _⟩
  freeList := rfl
  nodup := List.nodup_nil
  nodes := by
    intro p
    refine iff_of_false List.not_mem_nil ?_
    rintro ⟨chunk, index, rfl, size, hSize, -⟩
    rw [UQueue.allocate] at hSize
    cases hSize
  chunks := rfl
  sizes := fun size h => by cases h
  tagged := fun p h => by cases h

/-- The queue `uQueue_create` allocates the first chunk for. -/
def UQueue.configured (d : QueueDefaults) (maxSize growBySize : Fin (2 ^ 32)) :
    UQueueImpl C D Γ M :=
  { (UQueue.allocate d : UQueueImpl C D Γ M) with
    mMaxSize := if maxSize ≠ 0 then maxSize else d.maxSize
    mChunkSize := if growBySize ≠ 0 then growBySize else d.chunkSize }

theorem create_eq (d : QueueDefaults) (maxSize initialSize growBySize : Fin (2 ^ 32))
    (calloc : Bool) :
    UQueue.create d (UQueue.allocate d : UQueueImpl C D Γ M) maxSize initialSize growBySize true
        calloc = (do
      let out ← (UQueue.configured d maxSize growBySize).allocChunk
        (d.firstChunk initialSize) calloc
      if out.1.mFirstFree = none then pure (out.1, .nomem)
      else pure ({ out.1 with mCurrSize := 0 }, .ok)) := by
  have hConfigured : (UQueue.configured d maxSize growBySize : UQueueImpl C D Γ M) =
      { (if growBySize ≠ 0 then
          { (if maxSize ≠ 0 then { UQueue.allocate d with mMaxSize := maxSize }
              else UQueue.allocate d : UQueueImpl C D Γ M) with mChunkSize := growBySize }
        else if maxSize ≠ 0 then { UQueue.allocate d with mMaxSize := maxSize }
          else UQueue.allocate d : UQueueImpl C D Γ M) with mSem := 0 } := by
    rw [UQueue.configured]
    split <;> split <;> rfl
  rw [hConfigured]
  rfl

/-- A queue that is created has one chunk, all of it free. -/
structure Fresh (impl : UQueueImpl C D Γ M) (size : Nat) : Prop where
  shape : Shape impl [] (chunkNodes 0 size)
  mSem : impl.mSem = 0
  mCurrSize : impl.mCurrSize = 0
  mChunkSize : 0 < impl.mChunkSize

theorem create_fresh (initialSize : Fin (2 ^ 32))
    (hFits : ¬ (UQueue.configured d maxSize growBySize : UQueueImpl C D Γ M).TooBig
      (d.firstChunk initialSize)) :
    ∃ impl : UQueueImpl C D Γ M,
      UQueue.create d (UQueue.allocate d) maxSize initialSize growBySize true true =
        .ok (impl, .ok) ∧ Fresh impl (d.firstChunk initialSize) := by
  have hShape : Shape (UQueue.configured d maxSize growBySize : UQueueImpl C D Γ M) [] [] := by
    have h := shape_allocate (C := C) (D := D) (Γ := Γ) (M := M) d
    exact ⟨h.linked, h.freeList, h.nodup, h.nodes, h.chunks, h.sizes, h.tagged⟩
  obtain ⟨impl, hAlloc, hShape', -, hSem, hCurr, -, hChunk⟩ :=
    hShape.allocChunk (d.firstChunk_pos initialSize) hFits
  have hFree : impl.mFirstFree ≠ none := by
    intro hNone
    have hPath := hShape'.freeList
    rw [hNone] at hPath
    have hNil := Links.path_none hPath
    rw [chunkNodes, List.map_eq_nil_iff, List.range_eq_nil] at hNil
    have := d.firstChunk_pos initialSize
    omega
  refine ⟨{ impl with mCurrSize := 0 }, ?_, ⟨hShape'.linked, hShape'.freeList, hShape'.nodup,
    hShape'.nodes, hShape'.chunks, hShape'.sizes, hShape'.tagged⟩, hSem, rfl, ?_⟩
  · rw [create_eq, hAlloc]
    exact if_neg hFree
  · show 0 < impl.mChunkSize
    rw [hChunk]
    show 0 < (if growBySize ≠ 0 then (growBySize : Nat) else d.chunkSize)
    split
    · rename_i h
      exact Nat.pos_of_ne_zero fun h0 => h (Fin.ext h0)
    · exact d.chunkSize_pos

/-- **Whatever `uQueue_create` accepts is fresh.** -/
theorem fresh_of_create {semInit calloc : Bool} {impl : UQueueImpl C D Γ M}
    (h : UQueue.create d (UQueue.allocate d) maxSize initialSize growBySize semInit calloc =
      .ok (impl, .ok)) : Fresh impl (d.firstChunk initialSize) := by
  cases semInit with
  | false =>
    simp only [UQueue.create, Bool.not_false, if_true] at h
    cases h
  | true =>
    by_cases hFits : (UQueue.configured d maxSize growBySize : UQueueImpl C D Γ M).TooBig
        (d.firstChunk initialSize)
    · rw [create_eq, UQueueImpl.allocChunk, if_pos hFits] at h
      cases h
    · cases calloc with
      | false =>
        rw [create_eq, UQueueImpl.allocChunk, if_neg hFits] at h
        cases h
      | true =>
        obtain ⟨impl', hCreate, hFresh⟩ := create_fresh (C := C) (D := D) (Γ := Γ)
          (M := M) initialSize hFits
        rw [hCreate] at h
        cases h
        exact hFresh

end Create

-- ---------------------------------------------------------------------------
-- A queue in use
-- ---------------------------------------------------------------------------

structure EventQueue (C D Γ M : Type) where
  impl : UQueueImpl C D Γ M
  accepted : List (UQEntry C D Γ M)
  calls : List (UQCall C D Γ M)
  faulted : Bool

def EventQueue.init (impl : UQueueImpl C D Γ M) : EventQueue C D Γ M := ⟨impl, [], [], false⟩

inductive QueueAct (C D Γ M : Type) where
  | enqueue (calloc : Bool) (e : UQEntry C D Γ M)
  | dispatch
  | timedDispatch (interrupted : Bool)

/-- What a dispatch leaves behind. -/
def EventQueue.afterDispatch (w : EventQueue C D Γ M)
    (out : Except Fault (UQueueImpl C D Γ M × WombatQueueStatus × Option (UQCall C D Γ M))) :
    EventQueue C D Γ M :=
  match out with
  | .error _ => { w with faulted := true }
  | .ok (impl, _, call) => { w with impl, calls := w.calls ++ call.toList }

def EventQueue.step (w : EventQueue C D Γ M) : QueueAct C D Γ M → Option (EventQueue C D Γ M)
  | .enqueue calloc e =>
    match UQueue.enqueue w.impl calloc e with
    | .error _ => some { w with faulted := true }
    | .ok (impl, status) =>
      some { w with
        impl, accepted := if status = .ok then w.accepted ++ [e] else w.accepted }
  | .dispatch => (UQueue.dispatch w.impl).map w.afterDispatch
  | .timedDispatch interrupted =>
    some (w.afterDispatch (UQueue.timedDispatch w.impl interrupted))

/-- **A bounded FIFO with right counters.** The lists are well formed, both
counters are the length of the queue, and what was accepted is what was
dispatched, in order, followed by what is on the queue; the callbacks that were
called are those of the dispatched entries. -/
def EventQueue.Refines (w : EventQueue C D Γ M) : Prop :=
  w.faulted = false ∧ ∃ queue free done, Shape w.impl queue free ∧
    w.impl.mCurrSize = queue.length ∧ w.impl.mSem = queue.length ∧
    w.accepted = done ++ w.impl.entries queue ∧ w.calls = done.filterMap UQEntry.call

/-- An entry that is accepted can be counted. -/
def EventQueue.CountsFit (w : EventQueue C D Γ M) : QueueAct C D Γ M → Prop
  | .enqueue calloc _ => w.impl.Exhausted calloc ∨ w.impl.mSem < semValueMax
  | _ => True

/-- What holds in every run, also when the counters are wrong. -/
structure EventQueue.Inv (w : EventQueue C D Γ M) : Prop where
  notFaulted : w.faulted = false
  shape : ∃ queue free, Shape w.impl queue free
  mChunkSize : 0 < w.impl.mChunkSize
  mSem : w.impl.mSem ≤ semValueMax

theorem wsemPost_le {n : Nat} (h : n ≤ semValueMax) : wsemPost n ≤ semValueMax := by
  rw [wsemPost]
  split <;> omega

section Steps

variable {w w' : EventQueue C D Γ M}

/-- The semaphore is not part of the lists. -/
theorem Shape.withSem {impl : UQueueImpl C D Γ M} {queue free : List UQPtr}
    (h : Shape impl queue free) (sem : Nat) : Shape { impl with mSem := sem } queue free :=
  ⟨h.linked, h.freeList, h.nodup, h.nodes, h.chunks, h.sizes, h.tagged⟩

/-- A dispatch that got past the semaphore. -/
theorem EventQueue.Inv.dispatchInt (hInv : w.Inv) :
    (w.afterDispatch (UQueue.dispatchInt { w.impl with mSem := w.impl.mSem - 1 })).Inv := by
  have hSem : w.impl.mSem - 1 ≤ semValueMax := (Nat.sub_le _ _).trans hInv.mSem
  obtain ⟨queue, free, hShape⟩ := hInv.shape
  have hShape' := hShape.withSem (w.impl.mSem - 1)
  cases queue with
  | nil =>
    rw [hShape'.dispatchInt_nil]
    exact ⟨hInv.notFaulted, ⟨[], free, hShape'⟩, hInv.mChunkSize, hSem⟩
  | cons ele queue =>
    obtain ⟨impl', hOut, hNew, -, hNewSem, -, hChunk⟩ := hShape'.dispatchInt
    rw [hOut]
    refine ⟨hInv.notFaulted, ⟨queue, ele :: free, hNew⟩, ?_, ?_⟩
    · show 0 < impl'.mChunkSize
      rw [hChunk]
      exact hInv.mChunkSize
    · show impl'.mSem ≤ semValueMax
      rw [hNewSem]
      exact hSem

/-- **The lists stay in order in every run**, whatever the counters do. -/
theorem EventQueue.Inv.step (hInv : w.Inv) {a : QueueAct C D Γ M} (h : w.step a = some w') :
    w'.Inv := by
  cases a with
  | enqueue calloc e =>
    simp only [EventQueue.step] at h
    by_cases hFull : w.impl.Exhausted calloc
    · rw [enqueue_full hFull] at h
      cases h
      exact ⟨hInv.notFaulted, hInv.shape, hInv.mChunkSize, hInv.mSem⟩
    · obtain ⟨queue, free, hShape⟩ := hInv.shape
      obtain ⟨impl', queue', free', hEnq, hShape', -, -, hSem, -, hChunk⟩ :=
        hShape.enqueue_ok hInv.mChunkSize hFull e
      rw [hEnq] at h
      cases h
      refine ⟨hInv.notFaulted, ⟨queue', free', hShape'⟩, ?_, ?_⟩
      · show 0 < impl'.mChunkSize
        rw [hChunk]
        exact hInv.mChunkSize
      · show impl'.mSem ≤ semValueMax
        rw [hSem]
        exact wsemPost_le hInv.mSem
  | dispatch =>
    simp only [EventQueue.step, UQueue.dispatch] at h
    split at h
    · cases h
    · cases h
      exact hInv.dispatchInt
  | timedDispatch interrupted =>
    simp only [EventQueue.step, UQueue.timedDispatch] at h
    split at h
    · cases h
      refine ⟨hInv.notFaulted, hInv.shape, hInv.mChunkSize, hInv.mSem⟩
    · cases h
      exact hInv.dispatchInt

/-- An entry that is accepted keeps the refinement exactly when it can be
counted. -/
theorem EventQueue.Refines.enqueue (hRef : w.Refines) (hInv : w.Inv) {calloc : Bool}
    {e : UQEntry C D Γ M} (h : w.step (.enqueue calloc e) = some w') :
    w'.Refines ↔ w.CountsFit (.enqueue calloc e) := by
  simp only [EventQueue.step] at h
  by_cases hFull : w.impl.Exhausted calloc
  · rw [enqueue_full hFull] at h
    cases h
    exact iff_of_true hRef (Or.inl hFull)
  obtain ⟨hOk, queue, free, done, hShape, hCurr, hSem, hAccepted, hCalls⟩ := hRef
  obtain ⟨impl', queue', free', hEnq, hShape', hLen, hEntries, hSem', hCurr', -⟩ :=
    hShape.enqueue_ok hInv.mChunkSize hFull e
  rw [hEnq] at h
  cases h
  constructor
  · rintro ⟨-, queue'', free'', done'', hShape'', -, hSem'', -⟩
    obtain ⟨rfl, -⟩ := hShape'.unique hShape''
    refine Or.inr ?_
    by_contra hMax
    rw [hSem', wsemPost, if_neg hMax, hSem, hLen] at hSem''
    omega
  · intro hFits
    have hLt : w.impl.mSem < semValueMax := hFits.resolve_left hFull
    refine ⟨hOk, queue', free', done, hShape', ?_, ?_, ?_, hCalls⟩
    · rw [hCurr', hCurr, hLen]
      exact narrowInt_of_lt (n := queue.length + 1) (by
        rw [hSem, semValueMax] at hLt
        omega)
    · rw [hSem', wsemPost, if_pos hLt, hSem, hLen]
    · show (if WombatQueueStatus.ok = .ok then w.accepted ++ [e] else w.accepted) = _
      rw [if_pos rfl, hAccepted, hEntries, List.append_assoc]

/-- Dispatching keeps the refinement: the first entry moves from the queue to
the dispatched ones. -/
theorem EventQueue.Refines.dispatchInt (hRef : w.Refines) (hInv : w.Inv)
    (hSemPos : w.impl.mSem ≠ 0) :
    (w.afterDispatch (UQueue.dispatchInt { w.impl with mSem := w.impl.mSem - 1 })).Refines := by
  obtain ⟨hOk, queue, free, done, hShape, hCurr, hSem, hAccepted, hCalls⟩ := hRef
  have hMax := hInv.mSem
  cases queue with
  | nil => exact absurd hSem hSemPos
  | cons ele queue =>
    obtain ⟨impl', hOut, hNew, hEntries, hNewSem, hNewCurr, -⟩ :=
      (hShape.withSem (w.impl.mSem - 1)).dispatchInt
    rw [hOut]
    refine ⟨hOk, queue, ele :: free, done ++ [(w.impl.items ele).entry], hNew, ?_, ?_, ?_, ?_⟩
    · show impl'.mCurrSize = queue.length
      have hEq : (w.impl.mCurrSize - 1 : Int) = (queue.length : Nat) := by
        rw [hCurr, List.length_cons]
        omega
      rw [hNewCurr]
      show narrowInt (w.impl.mCurrSize - 1) = _
      rw [hEq]
      refine narrowInt_of_lt ?_
      rw [hSem, List.length_cons, semValueMax] at hMax
      omega
    · show impl'.mSem = queue.length
      rw [hNewSem]
      show w.impl.mSem - 1 = queue.length
      rw [hSem, List.length_cons]
      rfl
    · show w.accepted = _ ++ impl'.entries queue
      rw [hAccepted, hEntries, List.append_assoc]
      rfl
    · show w.calls ++ ((w.impl.items ele).entry.call).toList = _
      rw [hCalls, List.filterMap_append]
      cases hCall : (w.impl.items ele).entry.call with
      | none => simp [hCall]
      | some c => simp [hCall]

/-- **One step** keeps the refinement exactly when its entry can be counted. -/
theorem EventQueue.Refines.step (hRef : w.Refines) (hInv : w.Inv) {a : QueueAct C D Γ M}
    (h : w.step a = some w') : w'.Refines ↔ w.CountsFit a := by
  cases a with
  | enqueue calloc e => exact hRef.enqueue hInv h
  | dispatch =>
    simp only [EventQueue.step, UQueue.dispatch] at h
    split at h
    · cases h
    · rename_i hSem
      cases h
      exact iff_of_true (hRef.dispatchInt hInv hSem) trivial
  | timedDispatch interrupted =>
    simp only [EventQueue.step, UQueue.timedDispatch] at h
    split at h
    · cases h
      refine iff_of_true ?_ trivial
      obtain ⟨hOk, queue, free, done, hShape, hCurr, hSem, hAccepted, hCalls⟩ := hRef
      exact ⟨hOk, queue, free, done, hShape, hCurr, hSem, hAccepted, by
        simpa [EventQueue.afterDispatch, pure, Except.pure] using hCalls⟩
    · rename_i hSem
      cases h
      exact iff_of_true (hRef.dispatchInt hInv fun h0 => hSem (Or.inl h0)) trivial

end Steps

section Runs

variable {impl : UQueueImpl C D Γ M} {size : Nat}

theorem EventQueue.inv_init (hFresh : Fresh impl size) : (EventQueue.init impl).Inv :=
  ⟨rfl, ⟨_, _, hFresh.shape⟩, hFresh.mChunkSize, by
    show impl.mSem ≤ semValueMax
    rw [hFresh.mSem]
    exact Nat.zero_le _⟩

theorem EventQueue.refines_init (hFresh : Fresh impl size) : (EventQueue.init impl).Refines :=
  ⟨rfl, _, _, [], hFresh.shape, hFresh.mCurrSize, hFresh.mSem, rfl, rfl⟩

/-- A refused entry is refused for a reason and leaves no trace. -/
theorem EventQueue.Inv.enqueue_status {w : EventQueue C D Γ M} (hInv : w.Inv) (calloc : Bool)
    (e : UQEntry C D Γ M) :
    ∃ impl' status, UQueue.enqueue w.impl calloc e = .ok (impl', status) ∧
      (status = .ok ∨ status = .full) ∧ (status = .full ↔ w.impl.Exhausted calloc) ∧
      (status = .full → impl' = w.impl) := by
  by_cases hFull : w.impl.Exhausted calloc
  · exact ⟨_, _, enqueue_full hFull e, Or.inr rfl, iff_of_true rfl hFull, fun _ => rfl⟩
  · obtain ⟨queue, free, hShape⟩ := hInv.shape
    obtain ⟨impl', queue', free', hEnq, -⟩ := hShape.enqueue_ok hInv.mChunkSize hFull e
    exact ⟨_, _, hEnq, Or.inl rfl, iff_of_false (by decide) hFull, fun h => by cases h⟩

/--
**An event queue refines a bounded FIFO as long as its items can be counted.**
For every queue `uQueue_create` accepts and every sequence of calls:

* the lists are well formed, the counters are the length of the queue, and the
  callbacks called are those of the accepted entries, in order, in every state of
  the run, if and only if no entry is accepted by a queue that already holds
  `SEM_VALUE_MAX` items;
* an entry is refused exactly when no item is free and no chunk can be added, and
  then the queue is unchanged.
-/
theorem eventQueue_refines_iff {d : QueueDefaults}
    {maxSize initialSize growBySize : Fin (2 ^ 32)} {semInit callocOk : Bool}
    (hCreate : UQueue.create d (UQueue.allocate d) maxSize initialSize growBySize semInit
      callocOk = .ok (impl, .ok))
    {as : List (QueueAct C D Γ M)} {w : EventQueue C D Γ M}
    (hRun : run EventQueue.step (EventQueue.init impl) as = some w) :
    (Along EventQueue.step EventQueue.Refines (EventQueue.init impl) as ↔
      StepsMeet EventQueue.step EventQueue.CountsFit (EventQueue.init impl) as) ∧
    (∀ pre calloc e post v, as = pre ++ .enqueue calloc e :: post →
      run EventQueue.step (EventQueue.init impl) pre = some v →
      ∃ impl' status, UQueue.enqueue v.impl calloc e = .ok (impl', status) ∧
        (status = .ok ∨ status = .full) ∧ (status = .full ↔ v.impl.Exhausted calloc) ∧
        (status = .full → impl' = v.impl)) := by
  have hFresh := fresh_of_create hCreate
  constructor
  · refine along_iff_stepsMeet (J := fun w => w.Inv ∧ w.Refines)
      ⟨EventQueue.inv_init hFresh, EventQueue.refines_init hFresh⟩ (fun s hJ => hJ.2) ?_ ?_ hRun
    · exact fun s a s' hJ hOk h => ⟨hJ.1.step h, (hJ.2.step hJ.1 h).mpr hOk⟩
    · exact fun s a s' hJ h hRef => (hJ.2.step hJ.1 h).mp hRef
  · intro pre calloc e post v _ hPre
    have hInv : v.Inv := run_invariant (J := EventQueue.Inv)
      (fun s a s' hs h => hs.step h) (EventQueue.inv_init hFresh) hPre
    exact hInv.enqueue_status calloc e

end Runs

/-- Defaults for the samples. -/
def smallDefaults : QueueDefaults := ⟨100, 2, by decide, by decide, by decide⟩

/-- A callback with a closure. -/
def tick (n : Nat) : UQEntry Nat Nat Nat Nat := ⟨some n, some 7, .closure (some n)⟩

/-- A callback with a message. -/
def note (n : Nat) : UQEntry Nat Nat Nat Nat := ⟨some n, none, .msg n⟩

/-- A queue of two items that grows by one, up to three. -/
def smallQueue : UQueueImpl Nat Nat Nat Nat :=
  match UQueue.create smallDefaults (UQueue.allocate smallDefaults) 3 2 1 true true with
  | .ok (impl, _) => impl
  | .error _ => UQueue.allocate smallDefaults

/-- The fourth entry is refused, and the item of the first is used again. -/
def growAndReuse : List (QueueAct Nat Nat Nat Nat) :=
  [.enqueue true (tick 1), .enqueue true (note 2), .enqueue true (tick 3),
    .enqueue true (tick 4), .dispatch, .enqueue false (note 5), .dispatch,
    .timedDispatch true, .timedDispatch false]

theorem eventQueue_refines_growAndReuse :
    ∃ w, run EventQueue.step (EventQueue.init smallQueue) growAndReuse = some w ∧
      w.calls = [⟨1, some 7, .closure (some 1)⟩, ⟨2, none, .msg 2⟩,
        ⟨3, some 7, .closure (some 3)⟩] ∧
      (Along EventQueue.step EventQueue.Refines (EventQueue.init smallQueue) growAndReuse ↔
        StepsMeet EventQueue.step EventQueue.CountsFit (EventQueue.init smallQueue)
          growAndReuse) := by
  have hCreate : UQueue.create smallDefaults (UQueue.allocate smallDefaults) 3 2 1 true true =
      .ok (smallQueue, .ok) := rfl
  have hRun : run EventQueue.step (EventQueue.init smallQueue) growAndReuse = some _ := rfl
  exact ⟨_, hRun, rfl, (eventQueue_refines_iff hCreate hRun).1⟩

/-- As long as there are free items, entries are accepted. -/
theorem run_fill {impl : UQueueImpl C D Γ M} {queue free : List UQPtr}
    (hShape : Shape impl queue free) {w : EventQueue C D Γ M} (hImpl : w.impl = impl)
    (e : UQEntry C D Γ M) {n : Nat} (hn : n ≤ free.length) :
    ∃ w' queue' free', run EventQueue.step w (List.replicate n (.enqueue true e)) = some w' ∧
      Shape w'.impl queue' free' ∧ queue'.length = queue.length + n := by
  induction n generalizing w impl queue free with
  | zero => exact ⟨w, queue, free, rfl, hImpl ▸ hShape, rfl⟩
  | succ n ih =>
    cases free with
    | nil => exact absurd hn (Nat.not_succ_le_zero n)
    | cons item free =>
      subst hImpl
      obtain ⟨impl', hEnq, hShape', -⟩ := hShape.enqueue_free true e
      have hStep : w.step (.enqueue true e) =
          some { w with impl := impl', accepted := w.accepted ++ [e] } := by
        rw [EventQueue.step, hEnq]
        rfl
      obtain ⟨w', queue', free', hRun, hShape'', hLen⟩ :=
        ih hShape' (w := { w with impl := impl', accepted := w.accepted ++ [e] }) rfl
          (Nat.le_of_succ_le_succ hn)
      refine ⟨w', queue', free', ?_, hShape'', ?_⟩
      · rw [List.replicate_succ, run_cons, hStep]
        exact hRun
      · rw [hLen, List.length_append, List.length_singleton]
        omega

/-- **A queue can hold more items than it can count.** With a first chunk of
`2 ^ 31` items, as many entries are accepted before anything is dispatched, and
then neither counter is the length of the queue. -/
theorem long_queue_breaks :
    ∃ impl w, UQueue.create smallDefaults (UQueue.allocate smallDefaults)
        (Fin.ofNat _ (2 ^ 32 - 1)) (Fin.ofNat _ (2 ^ 31)) 0 true true = .ok (impl, .ok) ∧
      run EventQueue.step (EventQueue.init impl)
        (List.replicate (2 ^ 31) (.enqueue true (tick 1))) = some w ∧
      ¬ w.Refines := by
  have hFits : ¬ (UQueue.configured smallDefaults (Fin.ofNat _ (2 ^ 32 - 1)) 0 :
      UQueueImpl Nat Nat Nat Nat).TooBig
        (smallDefaults.firstChunk (Fin.ofNat _ (2 ^ 31))) := by decide
  obtain ⟨impl, hCreate, hFresh⟩ := create_fresh _ hFits
  have hSize : smallDefaults.firstChunk (Fin.ofNat _ (2 ^ 31)) = 2 ^ 31 := by decide
  rw [hSize] at hFresh
  obtain ⟨w, queue, free, hRun, hShape, hLen⟩ := run_fill hFresh.shape
    (w := EventQueue.init impl) rfl (tick 1) (n := 2 ^ 31) (by
      rw [chunkNodes, List.length_map, List.length_range])
  refine ⟨impl, w, hCreate, hRun, ?_⟩
  have hInv : w.Inv := run_invariant (J := EventQueue.Inv)
    (fun s a s' hs h => hs.step h) (EventQueue.inv_init hFresh) hRun
  rintro ⟨-, queue', free', done, hShape', -, hSem, -⟩
  obtain ⟨rfl, -⟩ := hShape'.unique hShape
  have hMax := hInv.mSem
  rw [hSem, hLen, List.length_nil, semValueMax] at hMax
  omega

end ZmqBridge
