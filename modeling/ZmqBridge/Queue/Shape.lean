import ZmqBridge.Model.UQueue

/-!
# ZmqBridge — the lists of an event queue

The representation invariant of `uqueue.c` and what each call does to it. A
`Shape` names the addresses on the queue and on the free list; every pointer
update of the source is one of the moves of `Lib.Chain`.

* `Shape.relink`      — the same items on other lists are a `Shape` again;
* `Shape.allocChunk`  — a new chunk becomes the free list;
* `Shape.enqueue`     — the first free item goes to the end of the queue;
* `Shape.dispatchInt` — the first item goes to the front of the free list.
-/

namespace ZmqBridge

open Lib

variable {C D Γ M : Type}

-- ---------------------------------------------------------------------------
-- Reading and writing
-- ---------------------------------------------------------------------------

section Memory

variable {impl : UQueueImpl C D Γ M} {p : UQPtr}

theorem deref_some (h : impl.Valid p) : impl.deref (some p) = .ok (impl.items p) := if_pos h

theorem store_some (h : impl.Valid p) (f : UQueueItem C D Γ M → UQueueItem C D Γ M) :
    impl.store (some p) f =
      .ok { impl with items := Function.update impl.items p (f (impl.items p)) } := if_pos h

/-- What is valid only depends on the chunks. -/
theorem valid_congr {impl' : UQueueImpl C D Γ M} (h : impl'.blocks = impl.blocks) :
    impl'.Valid p ↔ impl.Valid p := by
  cases p with
  | head => exact Iff.rfl
  | tail => exact Iff.rfl
  | node chunk index =>
    rw [UQueueImpl.Valid, h]
    exact Iff.rfl

end Memory

-- ---------------------------------------------------------------------------
-- The invariant
-- ---------------------------------------------------------------------------

/-- The links of the queue and of the free list. -/
def UQueueImpl.links (impl : UQueueImpl C D Γ M) : Links UQPtr :=
  ⟨fun p => (impl.items p).mNext, fun p => (impl.items p).mPrev⟩

/-- The links between the chunks. -/
def UQueueImpl.chunkLinks (impl : UQueueImpl C D Γ M) : Links UQPtr :=
  ⟨fun p => (impl.items p).mChunkNext, fun _ => none⟩

/-- The item is in a chunk, and not one of the dummy nodes. -/
def UQueueImpl.IsNode (impl : UQueueImpl C D Γ M) (p : UQPtr) : Prop :=
  ∃ chunk index, p = .node chunk index ∧ impl.Valid p

/-- The first items of `n` chunks, the newest first. -/
def chunkHeads (n : Nat) : List UQPtr := (List.range n).reverse.map fun c => .node c 0

/-- The items of a chunk. -/
def chunkNodes (chunk size : Nat) : List UQPtr := (List.range size).map (UQPtr.node chunk)

/-- **The lists of a queue.** `queue` is between the dummy nodes, `free` on the
free list; together they are the items of all chunks, and all chunks are on
`mChunks`. -/
structure Shape (impl : UQueueImpl C D Γ M) (queue free : List UQPtr) : Prop where
  linked : impl.links.Doubly (.head :: queue ++ [.tail])
  freeList : impl.links.Path impl.mFirstFree free
  nodup : (queue ++ free).Nodup
  nodes : ∀ p, p ∈ queue ++ free ↔ impl.IsNode p
  chunks : impl.chunkLinks.Path impl.mChunks (chunkHeads impl.blocks.length)
  sizes : ∀ size ∈ impl.blocks, 0 < size
  tagged : ∀ p ∈ queue, (impl.items p).mIsMsg = (impl.items p).union.isMsg

/-- What was enqueued with the item. -/
def UQueueItem.entry (it : UQueueItem C D Γ M) : UQEntry C D Γ M := ⟨it.mCb, it.mData, it.union⟩

def UQueueImpl.entries (impl : UQueueImpl C D Γ M) (queue : List UQPtr) :
    List (UQEntry C D Γ M) :=
  queue.map fun p => (impl.items p).entry

section Facts

variable {impl : UQueueImpl C D Γ M} {queue free : List UQPtr} (hShape : Shape impl queue free)

include hShape

theorem Shape.valid {p : UQPtr} (h : p ∈ queue ++ free) : impl.Valid p := by
  obtain ⟨chunk, index, -, hValid⟩ := (hShape.nodes p).mp h
  exact hValid

theorem Shape.ne_head {p : UQPtr} (h : p ∈ queue ++ free) : p ≠ .head := by
  obtain ⟨chunk, index, rfl, -⟩ := (hShape.nodes p).mp h
  exact UQPtr.noConfusion

theorem Shape.ne_tail {p : UQPtr} (h : p ∈ queue ++ free) : p ≠ .tail := by
  obtain ⟨chunk, index, rfl, -⟩ := (hShape.nodes p).mp h
  exact UQPtr.noConfusion

theorem Shape.tail_notMem : UQPtr.tail ∉ queue := fun h =>
  hShape.ne_tail (List.mem_append_left _ h) rfl

/-- All addresses are different, the dummy nodes included. -/
theorem Shape.nodup_all : (UQPtr.head :: queue ++ .tail :: free).Nodup := by
  have hTail : UQPtr.tail ∉ queue ++ free := fun h => hShape.ne_tail h rfl
  have hHead : UQPtr.head ∉ UQPtr.tail :: (queue ++ free) := by
    intro h
    rcases List.mem_cons.mp h with hEq | hIn
    · cases hEq
    · exact hShape.ne_head hIn rfl
  have hNodup : (UQPtr.head :: .tail :: (queue ++ free)).Nodup :=
    List.nodup_cons.mpr ⟨hHead, List.nodup_cons.mpr ⟨hTail, hShape.nodup⟩⟩
  exact (List.perm_middle.cons _).nodup_iff.mpr hNodup

/-- What is on the list between the dummy nodes is memory that may be used. -/
theorem Shape.valid_linked {p : UQPtr} (h : p ∈ UQPtr.head :: queue ++ [.tail]) :
    impl.Valid p := by
  rcases List.mem_append.mp h with hFront | hLast
  · rcases List.mem_cons.mp hFront with rfl | hIn
    · trivial
    · exact hShape.valid (List.mem_append_left _ hIn)
  · rw [List.mem_singleton.mp hLast]
    trivial

/-- The lists are determined by the memory. -/
theorem Shape.unique {queue' free' : List UQPtr} (hShape' : Shape impl queue' free') :
    queue' = queue ∧ free' = free :=
  ⟨hShape'.linked.unique hShape.linked hShape'.tail_notMem hShape.tail_notMem,
    hShape'.freeList.unique hShape.freeList⟩

/-- The predecessor of the dummy tail node is the last item, or the dummy head
node. -/
theorem Shape.last : ∃ start last, UQPtr.head :: queue = start ++ [last] ∧
    (impl.items .tail).mPrev = some last := by
  obtain ⟨start, last, hSplit⟩ : ∃ start last, UQPtr.head :: queue = start ++ [last] :=
    ⟨_, _, (List.dropLast_append_getLast (List.cons_ne_nil _ _)).symm⟩
  refine ⟨start, last, hSplit, ?_⟩
  have hLinked := hShape.linked
  rw [hSplit, List.append_assoc] at hLinked
  exact (List.isChain_append_cons_cons.mp hLinked).2.1.2

end Facts

-- ---------------------------------------------------------------------------
-- Chunks
-- ---------------------------------------------------------------------------

section Chunks

/-- The items after `n` rounds of the loop that links a chunk. -/
def linkedItems (items : UQPtr → UQueueItem C D Γ M) (chunk n : Nat) :
    UQPtr → UQueueItem C D Γ M
  | .node c i =>
    if c = chunk then
      { items (.node c i) with
        mNext := if i < n then some (.node chunk (i + 1)) else (items (.node c i)).mNext
        mPrev := if 0 < i ∧ i ≤ n then some (.node chunk (i - 1))
          else (items (.node c i)).mPrev }
    else items (.node c i)
  | p => items p

theorem linkedItems_zero (items : UQPtr → UQueueItem C D Γ M) (chunk : Nat) :
    linkedItems items chunk 0 = items := by
  funext p
  cases p with
  | head => rfl
  | tail => rfl
  | node c i =>
    have hNot : ¬ (0 < i ∧ i ≤ 0) := by omega
    simp only [linkedItems, Nat.not_lt_zero, if_false, if_neg hNot, ite_self]

/-- One round. -/
theorem linkedItems_succ (items : UQPtr → UQueueItem C D Γ M) (chunk n : Nat) :
    linkedItems items chunk (n + 1) =
      (let mem := linkedItems items chunk n
       let mem := Function.update mem (.node chunk n)
         { mem (.node chunk n) with mNext := some (.node chunk (n + 1)) }
       Function.update mem (.node chunk (n + 1))
         { mem (.node chunk (n + 1)) with mPrev := some (.node chunk n) }) := by
  funext p
  cases p with
  | head => rfl
  | tail => rfl
  | node c i =>
    by_cases hc : c = chunk
    swap
    · simp [linkedItems, hc]
    subst hc
    rcases Nat.lt_trichotomy i n with hi | rfl | hi
    · have h1 : i < n + 1 := by omega
      have h2 : i ≠ n := by omega
      have h3 : i ≠ n + 1 := by omega
      have h4 : (0 < i ∧ i ≤ n + 1) ↔ (0 < i ∧ i ≤ n) := by omega
      simp [linkedItems, h1, h2, h3, h4, hi]
    · simp [linkedItems]
    · by_cases hNext : i = n + 1
      · subst hNext
        simp [linkedItems]
      · have h1 : ¬ i < n + 1 := by omega
        have h2 : i ≠ n := by omega
        have h4 : ¬ (0 < i ∧ i ≤ n + 1) := by omega
        have h5 : ¬ (0 < i ∧ i ≤ n) := by omega
        have h6 : ¬ i < n := by omega
        simp [linkedItems, h1, h2, h4, h5, h6, hNext]

/-- The loop stays inside the chunk. -/
theorem linkChunk_eq {impl : UQueueImpl C D Γ M} {chunk size : Nat}
    (hBlock : impl.blocks[chunk]? = some size) {n : Nat} (hn : n < size) :
    impl.linkChunk chunk n = .ok { impl with items := linkedItems impl.items chunk n } := by
  induction n with
  | zero => rw [UQueueImpl.linkChunk, linkedItems_zero]
  | succ n ih =>
    have hValid : ∀ {items : UQPtr → UQueueItem C D Γ M} {i : Nat}, i ≤ n + 1 →
        UQueueImpl.Valid { impl with items } (.node chunk i) := fun hi =>
      ⟨size, hBlock, by omega⟩
    rw [UQueueImpl.linkChunk, ih (by omega), linkedItems_succ]
    simp only [bind, Except.bind]
    rw [store_some (hValid (by omega))]
    simp only
    rw [store_some (hValid (by omega))]

theorem chunkNodes_path {m : Links UQPtr} {chunk size : Nat}
    (hNext : ∀ i, i + 1 < size → m.next (.node chunk i) = some (.node chunk (i + 1)))
    (hLast : m.next (.node chunk (size - 1)) = none) (hSize : 0 < size) :
    m.Path (some (.node chunk 0)) (chunkNodes chunk size) := by
  -- from the back: what is left from item `i` on
  have hFrom : ∀ k i, i + k = size → 0 < k →
      m.Path (some (.node chunk i)) ((List.range' i k).map (UQPtr.node chunk)) := by
    intro k
    induction k with
    | zero => intro i hi hk; omega
    | succ k ih =>
      intro i hi hk
      rw [List.range'_succ, List.map_cons]
      refine ⟨rfl, ?_⟩
      by_cases hk0 : k = 0
      · subst hk0
        have hEq : i = size - 1 := by omega
        rw [hEq, hLast]
        rfl
      · rw [hNext i (by omega)]
        exact ih (i + 1) (by omega) (by omega)
  have h := hFrom size 0 (by omega) hSize
  rwa [← List.range_eq_range'] at h

theorem chunkHeads_succ (n : Nat) : chunkHeads (n + 1) = .node n 0 :: chunkHeads n := by
  rw [chunkHeads, List.range_succ, List.reverse_append, chunkHeads]
  rfl

theorem mem_chunkNodes {chunk size : Nat} {p : UQPtr} :
    p ∈ chunkNodes chunk size ↔ ∃ i, i < size ∧ p = .node chunk i := by
  simp only [chunkNodes, List.mem_map, List.mem_range]
  exact exists_congr fun i => and_congr_right fun _ => eq_comm

theorem chunkNodes_nodup (chunk size : Nat) : (chunkNodes chunk size).Nodup :=
  List.nodup_range.map fun _ _ h => (UQPtr.node.inj h).2

variable {impl : UQueueImpl C D Γ M} {queue free : List UQPtr}

/-- An item of a chunk that was there before. -/
theorem isNode_lt {p : UQPtr} (h : impl.IsNode p) :
    ∃ chunk index, p = .node chunk index ∧ chunk < impl.blocks.length := by
  obtain ⟨chunk, index, rfl, size, hSize, -⟩ := h
  exact ⟨chunk, index, rfl, (List.getElem?_eq_some_iff.mp hSize).1⟩

/-- The items of a new chunk and of all others. -/
theorem isNode_append {impl' : UQueueImpl C D Γ M} {items : Nat}
    (hBlocks : impl'.blocks = impl.blocks ++ [items]) {p : UQPtr} :
    impl'.IsNode p ↔ impl.IsNode p ∨ p ∈ chunkNodes impl.blocks.length items := by
  rw [mem_chunkNodes]
  constructor
  · rintro ⟨chunk, index, rfl, size, hSize, hIndex⟩
    rw [hBlocks, Option.mem_def, List.getElem?_append] at hSize
    split at hSize
    · exact Or.inl ⟨chunk, index, rfl, size, hSize, hIndex⟩
    · rename_i hOld
      obtain ⟨hLt, hEq⟩ := List.getElem?_eq_some_iff.mp hSize
      have hChunk : chunk = impl.blocks.length := by
        simp only [List.length_singleton] at hLt
        omega
      rw [List.getElem_singleton] at hEq
      exact Or.inr ⟨index, hEq ▸ hIndex, by rw [hChunk]⟩
  · rintro (⟨chunk, index, rfl, size, hSize, hIndex⟩ | ⟨i, hi, rfl⟩)
    · refine ⟨chunk, index, rfl, size, ?_, hIndex⟩
      rw [hBlocks, Option.mem_def,
        List.getElem?_append_left (List.getElem?_eq_some_iff.mp hSize).1]
      exact hSize
    · refine ⟨_, i, rfl, items, ?_, hi⟩
      rw [hBlocks, Option.mem_def, List.getElem?_concat_length]

/-- A new chunk whose items are linked: `old` is the memory before, the first
item links to the other chunks. -/
theorem Shape.newChunk (hShape : Shape impl queue []) {impl' : UQueueImpl C D Γ M} {size : Nat}
    (hSize : 0 < size) (hBlocks : impl'.blocks = impl.blocks ++ [size])
    (hFree : impl'.mFirstFree = some (.node impl.blocks.length 0))
    (hChunks : impl'.mChunks = some (.node impl.blocks.length 0))
    (hOld : ∀ p, (∀ i, p ≠ .node impl.blocks.length i) → impl'.items p = impl.items p)
    (hNext : ∀ i, i + 1 < size → (impl'.items (.node impl.blocks.length i)).mNext =
      some (.node impl.blocks.length (i + 1)))
    (hLast : (impl'.items (.node impl.blocks.length (size - 1))).mNext = none)
    (hFirst : (impl'.items (.node impl.blocks.length 0)).mChunkNext = impl.mChunks) :
    Shape impl' queue (chunkNodes impl.blocks.length size) ∧
      impl'.entries queue = impl.entries queue := by
  -- what is on the queue is not in the new chunk
  have hQueue : ∀ p ∈ queue, impl'.items p = impl.items p := by
    intro p hp
    refine hOld p fun i hEq => ?_
    obtain ⟨chunk, index, hNode, hLt⟩ :=
      isNode_lt ((hShape.nodes p).mp (List.mem_append_left _ hp))
    rw [hEq] at hNode
    have := (UQPtr.node.inj hNode).1
    omega
  have hSame : ∀ p ∈ UQPtr.head :: queue ++ [.tail], impl'.items p = impl.items p := by
    intro p hp
    rcases List.mem_append.mp hp with hp | hp
    · rcases List.mem_cons.mp hp with rfl | hp
      · exact hOld _ fun i => UQPtr.noConfusion
      · exact hQueue p hp
    · rw [List.mem_singleton.mp hp]
      exact hOld _ fun i => UQPtr.noConfusion
  refine ⟨⟨?_, ?_, ?_, ?_, ?_, ?_, ?_⟩, ?_⟩
  · refine hShape.linked.congr (fun p hp => ?_) (fun p hp => ?_)
    · exact congrArg UQueueItem.mNext (hSame p (List.mem_of_mem_dropLast hp))
    · exact congrArg UQueueItem.mPrev (hSame p (List.mem_of_mem_tail hp))
  · rw [hFree]
    exact chunkNodes_path hNext hLast hSize
  · have hNodup := hShape.nodup
    rw [List.append_nil] at hNodup
    refine List.nodup_append.mpr ⟨hNodup, chunkNodes_nodup _ _, ?_⟩
    rintro p hp q hq rfl
    obtain ⟨i, -, rfl⟩ := mem_chunkNodes.mp hq
    obtain ⟨chunk, index, hNode, hLt⟩ :=
      isNode_lt ((hShape.nodes _).mp (List.mem_append_left _ hp))
    have := (UQPtr.node.inj hNode).1
    omega
  · intro p
    rw [isNode_append hBlocks, ← hShape.nodes p, List.append_nil, List.mem_append]
  · rw [hBlocks, List.length_append, List.length_singleton, chunkHeads_succ, hChunks]
    refine ⟨rfl, ?_⟩
    show impl'.chunkLinks.Path (impl'.items _).mChunkNext _
    rw [hFirst]
    refine hShape.chunks.congr fun p hp => ?_
    obtain ⟨c, hc, rfl⟩ := List.mem_map.mp hp
    rw [List.mem_reverse, List.mem_range] at hc
    refine congrArg UQueueItem.mChunkNext (hOld _ fun i hEq => ?_)
    have := (UQPtr.node.inj hEq).1
    omega
  · intro n hn
    rw [hBlocks] at hn
    rcases List.mem_append.mp hn with hn | hn
    · exact hShape.sizes n hn
    · rw [List.mem_singleton.mp hn]
      exact hSize
  · intro p hp
    rw [hQueue p hp]
    exact hShape.tagged p hp
  · refine List.map_congr_left fun p hp => ?_
    rw [hQueue p hp]

theorem linkedItems_mNext (items : UQPtr → UQueueItem C D Γ M) (chunk n i : Nat) :
    (linkedItems items chunk n (.node chunk i)).mNext =
      if i < n then some (.node chunk (i + 1)) else (items (.node chunk i)).mNext := by
  rw [linkedItems, if_pos rfl]

theorem linkedItems_mChunkNext (items : UQPtr → UQueueItem C D Γ M) (chunk n i : Nat) :
    (linkedItems items chunk n (.node chunk i)).mChunkNext =
      (items (.node chunk i)).mChunkNext := by
  rw [linkedItems, if_pos rfl]

theorem calloc_new (impl : UQueueImpl C D Γ M) (size i : Nat) :
    (impl.calloc size).items (.node impl.blocks.length i) = .zero := by
  simp [UQueueImpl.calloc]

theorem calloc_old (impl : UQueueImpl C D Γ M) (size : Nat) {p : UQPtr}
    (h : ∀ i, p ≠ .node impl.blocks.length i) : (impl.calloc size).items p = impl.items p := by
  cases p with
  | head => rfl
  | tail => rfl
  | node c i =>
    have hc : c ≠ impl.blocks.length := fun hEq => h i (by rw [hEq])
    simp [UQueueImpl.calloc, hc]

/-- **Allocating a chunk** when the free list is empty: the chunk becomes the
free list. -/
theorem Shape.allocChunk (hShape : Shape impl queue []) {size : Nat} (hSize : 0 < size)
    (hFits : ¬ impl.TooBig size) :
    ∃ impl', impl.allocChunk size true = .ok (impl', .ok) ∧
      Shape impl' queue (chunkNodes impl.blocks.length size) ∧
      impl'.entries queue = impl.entries queue ∧ impl'.mSem = impl.mSem ∧
      impl'.mCurrSize = impl.mCurrSize ∧ impl'.mMaxSize = impl.mMaxSize ∧
      impl'.mChunkSize = impl.mChunkSize := by
  have hBlock : (impl.calloc size).blocks[impl.blocks.length]? = some size :=
    List.getElem?_concat_length
  have hValid : (impl.calloc size).Valid (.node impl.blocks.length 0) := ⟨size, hBlock, hSize⟩
  rw [UQueueImpl.allocChunk, if_neg hFits]
  simp only [Bool.not_true, Bool.false_eq_true, if_false, bind, Except.bind]
  rw [store_some hValid]
  simp only
  rw [linkChunk_eq (by exact hBlock) (show size - 1 < size by omega)]
  refine ⟨_, rfl, ?_⟩
  refine (and_assoc.mp ⟨hShape.newChunk hSize rfl rfl rfl ?_ ?_ ?_ ?_, rfl, rfl, rfl, rfl⟩)
  · intro p hp
    show linkedItems _ impl.blocks.length (size - 1) p = _
    have hOther : ∀ items : UQPtr → UQueueItem C D Γ M,
        linkedItems items impl.blocks.length (size - 1) p = items p := by
      intro items
      cases p with
      | head => rfl
      | tail => rfl
      | node c i => exact if_neg fun hEq => hp i (by rw [hEq])
    rw [hOther]
    show Function.update _ _ _ p = _
    rw [Function.update_of_ne (hp 0), calloc_old impl size hp]
  · intro i hi
    show (linkedItems _ impl.blocks.length (size - 1) _).mNext = _
    rw [linkedItems_mNext, if_pos (by omega)]
  · show (linkedItems _ impl.blocks.length (size - 1) _).mNext = _
    rw [linkedItems_mNext, if_neg (by omega)]
    show (Function.update (impl.calloc size).items _ _ _).mNext = _
    rw [Function.update_apply]
    split
    · rw [calloc_new]
      rfl
    · rw [calloc_new]
      rfl
  · show (linkedItems _ impl.blocks.length (size - 1) _).mChunkNext = _
    rw [linkedItems_mChunkNext]
    show (Function.update (impl.calloc size).items _ _ _).mChunkNext = _
    rw [Function.update_self]
    rfl

end Chunks

-- ---------------------------------------------------------------------------
-- Relinking
-- ---------------------------------------------------------------------------

section Relink

/-- The links in a memory. -/
def itemLinks (items : UQPtr → UQueueItem C D Γ M) : Links UQPtr :=
  ⟨fun p => (items p).mNext, fun p => (items p).mPrev⟩

/-- The items differ at most in their links on the queue or the free list. -/
structure UQueueItem.Relinked (a b : UQueueItem C D Γ M) : Prop where
  entry : a.entry = b.entry
  mIsMsg : a.mIsMsg = b.mIsMsg
  mChunkNext : a.mChunkNext = b.mChunkNext

theorem UQueueItem.Relinked.refl (a : UQueueItem C D Γ M) : a.Relinked a := ⟨rfl, rfl, rfl⟩

variable {impl impl' : UQueueImpl C D Γ M} {queue free queue' free' : List UQPtr}

theorem isNode_congr (h : impl'.blocks = impl.blocks) {p : UQPtr} :
    impl'.IsNode p ↔ impl.IsNode p :=
  exists_congr fun _ => exists_congr fun _ => and_congr_right fun _ => valid_congr h

/-- **The same items on other lists**: what is left to show is how they are linked. -/
theorem Shape.relink (hShape : Shape impl queue free) (hBlocks : impl'.blocks = impl.blocks)
    (hHead : impl'.mChunks = impl.mChunks)
    (hPerm : (queue' ++ free').Perm (queue ++ free))
    (hLinked : impl'.links.Doubly (.head :: queue' ++ [.tail]))
    (hFree : impl'.links.Path impl'.mFirstFree free')
    (hChunks : ∀ p, (impl'.items p).mChunkNext = (impl.items p).mChunkNext)
    (hTagged : ∀ p ∈ queue', (impl'.items p).mIsMsg = (impl'.items p).union.isMsg) :
    Shape impl' queue' free' where
  linked := hLinked
  freeList := hFree
  nodup := hPerm.nodup_iff.mpr hShape.nodup
  nodes p := by rw [hPerm.mem_iff, hShape.nodes p, isNode_congr hBlocks]
  chunks := by
    rw [hBlocks, hHead]
    exact hShape.chunks.congr fun p _ => hChunks p
  sizes := by
    rw [hBlocks]
    exact hShape.sizes
  tagged := hTagged

end Relink

-- ---------------------------------------------------------------------------
-- Enqueueing
-- ---------------------------------------------------------------------------

section Enqueue

variable {impl : UQueueImpl C D Γ M} {queue free : List UQPtr} {item last : UQPtr}

/-- The items after `item` was put behind `last`. -/
def putItems (items : UQPtr → UQueueItem C D Γ M) (item last : UQPtr) :
    UQPtr → UQueueItem C D Γ M := fun p =>
  if p = .tail then { items .tail with mPrev := some item }
  else if p = last then { items last with mNext := some item }
  else if p = item then { items item with mNext := some .tail, mPrev := some last }
  else items p

/-- The four writes, one after the other. -/
theorem putLast_eq (last : UQPtr) (hItem : impl.Valid item) (hLast : impl.Valid last)
    (hPrev : (impl.items .tail).mPrev = some last) (hTail : item ≠ .tail)
    (hOther : item ≠ last) (hLastTail : last ≠ .tail) :
    impl.putLast item = .ok { impl with items := putItems impl.items item last } := by
  have hValid : ∀ {items : UQPtr → UQueueItem C D Γ M} {p : UQPtr}, impl.Valid p →
      UQueueImpl.Valid { impl with items } p := fun h => (valid_congr rfl).mpr h
  simp only [UQueueImpl.putLast, bind, Except.bind]
  rw [store_some hItem]
  simp only
  rw [deref_some (hValid (p := .tail) trivial)]
  simp only [Function.update_of_ne (Ne.symm hTail), hPrev]
  rw [store_some (hValid hItem)]
  simp only
  rw [deref_some (hValid hItem)]
  simp only [Function.update_self]
  rw [store_some (hValid hLast)]
  simp only
  rw [store_some (hValid (p := .tail) trivial)]
  simp only [Function.update_idem]
  congr 2
  funext p
  by_cases hp : p = .tail
  · subst hp
    simp [putItems, Ne.symm hTail, Ne.symm hLastTail]
  by_cases hp' : p = last
  · subst hp'
    simp [putItems, hp, Ne.symm hOther]
  by_cases hp'' : p = item
  · subst hp''
    simp [putItems, hp, hp']
  · simp [putItems, hp, hp', hp'']

theorem putItems_relinked (items : UQPtr → UQueueItem C D Γ M) (item last p : UQPtr) :
    (putItems items item last p).Relinked (items p) := by
  unfold putItems
  by_cases hTail : p = .tail
  · subst hTail
    rw [if_pos rfl]
    exact ⟨rfl, rfl, rfl⟩
  by_cases hLast : p = last
  · subst hLast
    rw [if_neg hTail, if_pos rfl]
    exact ⟨rfl, rfl, rfl⟩
  by_cases hItem : p = item
  · subst hItem
    rw [if_neg hTail, if_neg hLast, if_pos rfl]
    exact ⟨rfl, rfl, rfl⟩
  · rw [if_neg hTail, if_neg hLast, if_neg hItem]
    exact .refl _

section Put

variable {items mem : UQPtr → UQueueItem C D Γ M} {start : List UQPtr}
  (hMem : ∀ p, p ≠ item → mem p = items p)
  (hNodup : (start ++ last :: .tail :: item :: free).Nodup)

include hMem

theorem putItems_other {p : UQPtr} (hTail : p ≠ .tail) (hLast : p ≠ last) (hItem : p ≠ item) :
    putItems mem item last p = items p := by
  rw [putItems, if_neg hTail, if_neg hLast, if_neg hItem, hMem p hItem]

include hNodup

/-- The item is between the last one and the dummy tail node. -/
theorem putItems_linked (hLinked : (itemLinks items).Doubly (start ++ [last, .tail])) :
    (itemLinks (putItems mem item last)).Doubly (start ++ [last, item, .tail]) := by
  obtain ⟨-, hEnd, hApart⟩ := List.nodup_append.mp hNodup
  obtain ⟨hLast, hRest⟩ := List.nodup_cons.mp hEnd
  have hLastTail : last ≠ .tail := List.ne_of_not_mem_cons hLast
  have hLastItem : last ≠ item := List.ne_of_not_mem_cons (List.not_mem_of_not_mem_cons hLast)
  have hTailItem : UQPtr.tail ≠ item := List.ne_of_not_mem_cons (List.nodup_cons.mp hRest).1
  have hStart : ∀ c ∈ start, putItems mem item last c = items c := by
    intro c hc
    exact putItems_other hMem (hApart c hc _ (by simp)) (hApart c hc _ (by simp))
      (hApart c hc _ (by simp))
  have hAtTail : (putItems mem item last .tail).mPrev = some item := by
    rw [putItems, if_pos rfl]
  have hAtLast : putItems mem item last last = { items last with mNext := some item } := by
    rw [putItems, if_neg hLastTail, if_pos rfl, hMem last hLastItem]
  have hAtItem : putItems mem item last item =
      { mem item with mNext := some .tail, mPrev := some last } := by
    rw [putItems, if_neg hTailItem.symm, if_neg hLastItem.symm, if_pos rfl]
  refine hLinked.insert (fun c hc => ?_) (fun c hc => ?_) ⟨?_, ?_⟩ ⟨?_, hAtTail⟩
  · exact congrArg UQueueItem.mNext (hStart c hc)
  · rcases List.mem_append.mp hc with hFront | hBack
    · exact congrArg UQueueItem.mPrev (hStart c hFront)
    · rw [List.mem_singleton.mp hBack]
      show (putItems mem item last last).mPrev = (items last).mPrev
      rw [hAtLast]
  · exact congrArg UQueueItem.mNext hAtLast
  · exact congrArg UQueueItem.mPrev hAtItem
  · exact congrArg UQueueItem.mNext hAtItem

/-- The rest of the free list stays as it is. -/
theorem putItems_path {first : Option UQPtr} (hPath : (itemLinks items).Path first free) :
    (itemLinks (putItems mem item last)).Path first free := by
  obtain ⟨-, hEnd, -⟩ := List.nodup_append.mp hNodup
  obtain ⟨hLast, hRest⟩ := List.nodup_cons.mp hEnd
  obtain ⟨hTail, hFree⟩ := List.nodup_cons.mp hRest
  refine hPath.congr fun p hp => congrArg UQueueItem.mNext (putItems_other hMem ?_ ?_ ?_)
  · rintro rfl
    exact hTail (List.mem_cons_of_mem _ hp)
  · rintro rfl
    exact hLast (List.mem_cons_of_mem _ (List.mem_cons_of_mem _ hp))
  · rintro rfl
    exact (List.nodup_cons.mp hFree).1 hp

end Put

/-- **The first free item goes to the end of the queue**, with the entry
written to it. -/
theorem Shape.putLast (hShape : Shape impl queue (item :: free)) (e : UQEntry C D Γ M) :
    ∃ impl' : UQueueImpl C D Γ M,
      UQueueImpl.putLast
        { impl with
          mFirstFree := (impl.items item).mNext
          items := Function.update impl.items item { impl.items item with
            mCb := e.cb, mData := e.data, mIsMsg := e.arg.isMsg, union := e.arg } } item =
        .ok impl' ∧
      Shape impl' (queue ++ [item]) free ∧
      impl'.entries (queue ++ [item]) = impl.entries queue ++ [e] ∧
      impl'.mSem = impl.mSem ∧ impl'.mCurrSize = impl.mCurrSize ∧
      impl'.mMaxSize = impl.mMaxSize ∧ impl'.mChunkSize = impl.mChunkSize := by
  obtain ⟨start, last, hSplit, hPrev⟩ := hShape.last
  have hNodup := hShape.nodup_all
  rw [hSplit, List.append_assoc, List.singleton_append] at hNodup
  have hIn : item ∈ queue ++ item :: free := by simp
  have hLastIn : last ∈ UQPtr.head :: queue := by simp [hSplit]
  have hLast : last ∉ UQPtr.tail :: item :: free :=
    (List.nodup_cons.mp (List.nodup_append.mp hNodup).2.1).1
  have hFresh : item ∉ queue := fun h =>
    List.disjoint_of_nodup_append hShape.nodup h List.mem_cons_self
  refine ⟨_, putLast_eq last ((valid_congr rfl).mpr (hShape.valid hIn))
    ((valid_congr rfl).mpr (hShape.valid_linked (List.mem_append_left _ hLastIn))) ?_
    (hShape.ne_tail hIn) (List.ne_of_not_mem_cons (List.not_mem_of_not_mem_cons hLast)).symm
    (List.ne_of_not_mem_cons hLast), ?_⟩
  · show (Function.update impl.items item _ .tail).mPrev = _
    rw [Function.update_of_ne (hShape.ne_tail hIn).symm, hPrev]
  set mem := Function.update impl.items item { impl.items item with
    mCb := e.cb, mData := e.data, mIsMsg := e.arg.isMsg, union := e.arg } with hMemDef
  have hMem : ∀ p, p ≠ item → mem p = impl.items p := fun p hp => Function.update_of_ne hp _ _
  have hKept : ∀ p ∈ queue, (putItems mem item last p).Relinked (impl.items p) := by
    intro p hp
    rw [← hMem p fun h => hFresh (h ▸ hp)]
    exact putItems_relinked mem item last p
  -- the entry that was written to the item
  have hNew : (putItems mem item last item).entry = e ∧
      (putItems mem item last item).mIsMsg = e.arg.isMsg := by
    rw [(putItems_relinked mem item last item).entry,
      (putItems_relinked mem item last item).mIsMsg, hMemDef, Function.update_self]
    exact ⟨rfl, rfl⟩
  refine ⟨hShape.relink rfl rfl (by rw [List.append_assoc]; rfl) ?_ ?_ ?_ ?_, ?_, rfl, rfl, rfl,
    rfl⟩
  · have hList : UQPtr.head :: (queue ++ [item]) ++ [.tail] = start ++ [last, item, .tail] := by
      rw [← List.cons_append, hSplit]
      simp
    have hLinked := hShape.linked
    rw [hSplit, List.append_assoc] at hLinked
    rw [hList]
    exact putItems_linked hMem hNodup hLinked
  · exact putItems_path hMem hNodup hShape.freeList.2
  · intro p
    show (putItems mem item last p).mChunkNext = _
    rw [(putItems_relinked mem item last p).mChunkNext, hMemDef, Function.update_apply]
    split
    · rename_i hp
      rw [hp]
    · rfl
  · intro p hp
    show (putItems mem item last p).mIsMsg = (putItems mem item last p).entry.arg.isMsg
    rcases List.mem_append.mp hp with hOld | hLastOne
    · rw [(hKept p hOld).entry, (hKept p hOld).mIsMsg]
      exact hShape.tagged p hOld
    · rw [List.mem_singleton.mp hLastOne, hNew.1, hNew.2]
  · show (queue ++ [item]).map (fun p => (putItems mem item last p).entry) = _
    rw [List.map_append, List.map_singleton, hNew.1]
    exact congrArg (· ++ [e]) (List.map_congr_left fun p hp => (hKept p hp).entry)

/-- No item is free, and no chunk can be added. -/
def UQueueImpl.Exhausted (impl : UQueueImpl C D Γ M) (calloc : Bool) : Prop :=
  impl.mFirstFree = none ∧ (impl.TooBig impl.mChunkSize ∨ calloc = false)

instance {calloc : Bool} : Decidable (impl.Exhausted calloc) :=
  inferInstanceAs (Decidable (_ ∧ (_ ∨ _)))

/-- A queue that is exhausted refuses the entry and stays as it is. -/
theorem enqueue_full {calloc : Bool} (h : impl.Exhausted calloc) (e : UQEntry C D Γ M) :
    UQueue.enqueue impl calloc e = .ok (impl, .full) := by
  obtain ⟨hFree, hChunk⟩ := h
  have hAlloc : ∃ status, impl.allocChunk impl.mChunkSize calloc = .ok (impl, status) := by
    rw [UQueueImpl.allocChunk]
    split
    · exact ⟨_, rfl⟩
    · rename_i hFits
      rw [hChunk.resolve_left hFits]
      exact ⟨_, rfl⟩
  obtain ⟨status, hAlloc⟩ := hAlloc
  simp only [UQueue.enqueue, hFree, if_true, hAlloc, bind, Except.bind, pure, Except.pure]

/-- Taking the first free item. -/
theorem Shape.enqueue_free (hShape : Shape impl queue (item :: free)) (calloc : Bool)
    (e : UQEntry C D Γ M) :
    ∃ impl', UQueue.enqueue impl calloc e = .ok (impl', .ok) ∧
      Shape impl' (queue ++ [item]) free ∧
      impl'.entries (queue ++ [item]) = impl.entries queue ++ [e] ∧
      impl'.mSem = wsemPost impl.mSem ∧ impl'.mCurrSize = narrowInt (impl.mCurrSize + 1) ∧
      impl'.mChunkSize = impl.mChunkSize := by
  have hFree : impl.mFirstFree = some item := hShape.freeList.1
  obtain ⟨impl', hPut, hShape', hEntries, hSem, hCurr, -, hChunk⟩ := hShape.putLast e
  have hValid := hShape.valid (p := item) (by simp)
  refine ⟨{ impl' with
    mCurrSize := narrowInt (impl'.mCurrSize + 1), mSem := wsemPost impl'.mSem }, ?_, ?_⟩
  · simp only [UQueue.enqueue, hFree, bind, Except.bind, pure, Except.pure]
    rw [if_neg (Option.some_ne_none item), deref_some hValid]
    simp only
    rw [store_some (by exact (valid_congr rfl).mpr hValid)]
    dsimp only at hPut ⊢
    rw [hPut]
  · exact ⟨⟨hShape'.linked, hShape'.freeList, hShape'.nodup, hShape'.nodes, hShape'.chunks,
      hShape'.sizes, hShape'.tagged⟩, hEntries, by rw [hSem], by rw [hCurr], hChunk⟩

/-- After a chunk was added, the call goes on as if it had been there. -/
theorem enqueue_grown {impl₁ : UQueueImpl C D Γ M} {calloc : Bool} {status : WombatQueueStatus}
    (hFree : impl.mFirstFree = none)
    (hAlloc : impl.allocChunk impl.mChunkSize calloc = .ok (impl₁, status))
    (hFree₁ : impl₁.mFirstFree ≠ none) {e : UQEntry C D Γ M} :
    UQueue.enqueue impl calloc e = UQueue.enqueue impl₁ calloc e := by
  simp only [UQueue.enqueue, hFree, if_true, hAlloc, bind, Except.bind, pure, Except.pure,
    if_neg hFree₁]

/-- **Enqueueing** when there is a free item or a chunk can be added. -/
theorem Shape.enqueue_ok (hShape : Shape impl queue free) (hChunk : 0 < impl.mChunkSize)
    {calloc : Bool} (hRoom : ¬ impl.Exhausted calloc) (e : UQEntry C D Γ M) :
    ∃ impl' queue' free', UQueue.enqueue impl calloc e = .ok (impl', .ok) ∧
      Shape impl' queue' free' ∧ queue'.length = queue.length + 1 ∧
      impl'.entries queue' = impl.entries queue ++ [e] ∧
      impl'.mSem = wsemPost impl.mSem ∧ impl'.mCurrSize = narrowInt (impl.mCurrSize + 1) ∧
      impl'.mChunkSize = impl.mChunkSize := by
  cases free with
  | cons item free =>
    obtain ⟨impl', hEnq, hShape', hRest⟩ := hShape.enqueue_free calloc e
    exact ⟨impl', _, free, hEnq, hShape', by simp, hRest⟩
  | nil =>
    have hFree : impl.mFirstFree = none := hShape.freeList
    have hFits : ¬ impl.TooBig impl.mChunkSize ∧ calloc = true := by
      constructor
      · exact fun h => hRoom ⟨hFree, Or.inl h⟩
      · exact Bool.eq_true_of_not_eq_false fun h => hRoom ⟨hFree, Or.inr h⟩
    obtain ⟨hFits, rfl⟩ := hFits
    obtain ⟨impl₁, hAlloc, hShape₁, hEntries₁, hSem, hCurr, -, hSame⟩ :=
      hShape.allocChunk hChunk hFits
    -- the rest of the call finds the new chunk on the free list
    have hSplit : chunkNodes impl.blocks.length impl.mChunkSize =
        .node impl.blocks.length 0 ::
          (chunkNodes impl.blocks.length impl.mChunkSize).tail := by
      obtain ⟨k, hk⟩ := Nat.exists_eq_add_of_lt hChunk
      rw [chunkNodes, hk, Nat.zero_add, List.range_succ_eq_map]
      rfl
    rw [hSplit] at hShape₁
    have hFree₁ : impl₁.mFirstFree ≠ none := by
      rw [hShape₁.freeList.1]
      exact Option.some_ne_none _
    obtain ⟨impl', hEnq, hShape', hEntries, hSem', hCurr', hSame'⟩ :=
      hShape₁.enqueue_free true e
    refine ⟨impl', _, _, ?_, hShape', by simp, by rw [hEntries, hEntries₁], by rw [hSem', hSem],
      by rw [hCurr', hCurr], by rw [hSame', hSame]⟩
    rw [← hEnq]
    exact enqueue_grown hFree hAlloc hFree₁

end Enqueue

-- ---------------------------------------------------------------------------
-- Dispatching
-- ---------------------------------------------------------------------------

section Dispatch

variable {impl : UQueueImpl C D Γ M} {queue free : List UQPtr} {ele prev next : UQPtr}

/-- The items after `ele` was taken out between `prev` and `next`. -/
def takeItems (items : UQPtr → UQueueItem C D Γ M) (ele prev next : UQPtr)
    (free : Option UQPtr) : UQPtr → UQueueItem C D Γ M := fun p =>
  if p = ele then { items ele with mNext := free }
  else if p = next then { items next with mPrev := some prev }
  else if p = prev then { items prev with mNext := some next }
  else items p

/-- The three writes of the macro, one after the other. -/
theorem uqRemove_eq (prev : UQPtr) (hEle : impl.Valid ele) (hPrevValid : impl.Valid prev)
    (hNextValid : impl.Valid next) (hPrev : (impl.items ele).mPrev = some prev)
    (hNext : (impl.items ele).mNext = some next) (hne : ele ≠ prev) (hne' : ele ≠ next)
    (hne'' : prev ≠ next) :
    impl.uqRemove ele = .ok { impl with
      items := takeItems impl.items ele prev next impl.mFirstFree
      mFirstFree := some ele
      mCurrSize := narrowInt (impl.mCurrSize - 1) } := by
  have hValid : ∀ {items : UQPtr → UQueueItem C D Γ M} {p : UQPtr}, impl.Valid p →
      UQueueImpl.Valid { impl with items } p := fun h => (valid_congr rfl).mpr h
  simp only [UQueueImpl.uqRemove, bind, Except.bind, pure, Except.pure]
  rw [deref_some hEle]
  simp only [hPrev, hNext]
  rw [store_some hPrevValid]
  simp only
  rw [deref_some (hValid hEle)]
  simp only [Function.update_of_ne hne, hPrev, hNext]
  rw [store_some (hValid hNextValid)]
  simp only
  rw [store_some (hValid hEle)]
  simp only
  congr 2
  funext p
  by_cases hp : p = ele
  · subst hp
    simp [takeItems, hne, hne']
  by_cases hp' : p = next
  · subst hp'
    simp [takeItems, hp, Ne.symm hne'']
  by_cases hp'' : p = prev
  · subst hp''
    simp [takeItems, hp, hp']
  · simp [takeItems, hp, hp', hp'']

theorem takeItems_relinked (items : UQPtr → UQueueItem C D Γ M) (ele prev next : UQPtr)
    (first : Option UQPtr) (p : UQPtr) :
    (takeItems items ele prev next first p).Relinked (items p) := by
  unfold takeItems
  by_cases hEle : p = ele
  · subst hEle
    rw [if_pos rfl]
    exact ⟨rfl, rfl, rfl⟩
  by_cases hNext : p = next
  · subst hNext
    rw [if_neg hEle, if_pos rfl]
    exact ⟨rfl, rfl, rfl⟩
  by_cases hPrev : p = prev
  · subst hPrev
    rw [if_neg hEle, if_neg hNext, if_pos rfl]
    exact ⟨rfl, rfl, rfl⟩
  · rw [if_neg hEle, if_neg hNext, if_neg hPrev]
    exact .refl _

section Take

variable {items : UQPtr → UQueueItem C D Γ M} {rest : List UQPtr} {first : Option UQPtr}
  (hNodup : (prev :: ele :: next :: (rest ++ free)).Nodup)

theorem takeItems_other {p : UQPtr} (hEle : p ≠ ele) (hNext : p ≠ next) (hPrev : p ≠ prev) :
    takeItems items ele prev next first p = items p := by
  rw [takeItems, if_neg hEle, if_neg hNext, if_neg hPrev]

include hNodup

/-- The list closes behind the item. -/
theorem takeItems_linked (hLinked : (itemLinks items).Doubly (prev :: ele :: next :: rest)) :
    (itemLinks (takeItems items ele prev next first)).Doubly (prev :: next :: rest) := by
  obtain ⟨hPrev, hRest⟩ := List.nodup_cons.mp hNodup
  obtain ⟨hEle, hRest⟩ := List.nodup_cons.mp hRest
  have hNext := (List.nodup_cons.mp hRest).1
  have hPrevEle : prev ≠ ele := List.ne_of_not_mem_cons hPrev
  have hPrevNext : prev ≠ next := List.ne_of_not_mem_cons (List.not_mem_of_not_mem_cons hPrev)
  have hNextEle : next ≠ ele := (List.ne_of_not_mem_cons hEle).symm
  have hAtNext : takeItems items ele prev next first next =
      { items next with mPrev := some prev } := by
    rw [takeItems, if_neg hNextEle, if_pos rfl]
  have hAtPrev : takeItems items ele prev next first prev =
      { items prev with mNext := some next } := by
    rw [takeItems, if_neg hPrevEle, if_neg hPrevNext, if_pos rfl]
  have hOther : ∀ c ∈ rest, takeItems items ele prev next first c = items c := by
    intro c hc
    have hIn : c ∈ rest ++ free := List.mem_append_left _ hc
    refine takeItems_other ?_ ?_ ?_
    · rintro rfl
      exact hEle (List.mem_cons_of_mem _ hIn)
    · rintro rfl
      exact hNext hIn
    · rintro rfl
      exact hPrev (List.mem_cons_of_mem _ (List.mem_cons_of_mem _ hIn))
  refine hLinked.remove (fun c hc => ?_) (fun c hc => ?_) ⟨?_, ?_⟩
  · rcases List.mem_cons.mp (List.mem_of_mem_dropLast hc) with hEq | hIn
    · rw [hEq]
      show (takeItems items ele prev next first next).mNext = (items next).mNext
      rw [hAtNext]
    · exact congrArg UQueueItem.mNext (hOther c hIn)
  · exact congrArg UQueueItem.mPrev (hOther c hc)
  · exact congrArg UQueueItem.mNext hAtPrev
  · exact congrArg UQueueItem.mPrev hAtNext

/-- The item is in front of the free list. -/
theorem takeItems_path (hPath : (itemLinks items).Path first free) :
    (itemLinks (takeItems items ele prev next first)).Path (some ele) (ele :: free) := by
  obtain ⟨hPrev, hRest⟩ := List.nodup_cons.mp hNodup
  obtain ⟨hEle, hRest⟩ := List.nodup_cons.mp hRest
  have hNext := (List.nodup_cons.mp hRest).1
  have hAtEle : (itemLinks (takeItems items ele prev next first)).next ele = first := by
    show (takeItems items ele prev next first ele).mNext = first
    rw [takeItems, if_pos rfl]
  refine ⟨rfl, ?_⟩
  rw [hAtEle]
  refine hPath.congr fun p hp => congrArg UQueueItem.mNext (takeItems_other ?_ ?_ ?_)
  · rintro rfl
    exact hEle (List.mem_cons_of_mem _ (List.mem_append_right _ hp))
  · rintro rfl
    exact hNext (List.mem_append_right _ hp)
  · rintro rfl
    exact hPrev (List.mem_cons_of_mem _ (List.mem_cons_of_mem _ (List.mem_append_right _ hp)))

end Take

/-- **The first item goes to the front of the free list.** -/
theorem Shape.uqRemove (hShape : Shape impl (ele :: queue) free) :
    ∃ impl' : UQueueImpl C D Γ M, impl.uqRemove ele = .ok impl' ∧
      Shape impl' queue (ele :: free) ∧ impl'.entries queue = impl.entries queue ∧
      (impl'.items ele).entry = (impl.items ele).entry ∧
      (impl'.items ele).mIsMsg = (impl.items ele).mIsMsg ∧ impl'.mSem = impl.mSem ∧
      impl'.mCurrSize = narrowInt (impl.mCurrSize - 1) ∧
      impl'.mChunkSize = impl.mChunkSize := by
  obtain ⟨next, rest, hRest⟩ : ∃ next rest, queue ++ [UQPtr.tail] = next :: rest :=
    List.exists_cons_of_ne_nil (by simp)
  have hLinked : impl.links.Doubly (.head :: ele :: next :: rest) := by
    rw [← hRest]
    exact hShape.linked
  have hNodup : (UQPtr.head :: ele :: next :: (rest ++ free)).Nodup := by
    rw [← List.cons_append, ← hRest, List.append_assoc]
    exact hShape.nodup_all
  obtain ⟨hHead, hTail⟩ := List.nodup_cons.mp hNodup
  have hEle := (List.nodup_cons.mp hTail).1
  obtain ⟨hFirst, hMore⟩ := List.isChain_cons_cons.mp hLinked
  obtain ⟨hSecond, -⟩ := List.isChain_cons_cons.mp hMore
  have hNextValid : impl.Valid next := by
    refine hShape.valid_linked ?_
    rw [List.cons_append, List.cons_append, hRest]
    simp
  refine ⟨_, uqRemove_eq .head (hShape.valid List.mem_cons_self) trivial hNextValid hFirst.2
    hSecond.1 (List.ne_of_not_mem_cons hHead).symm (List.ne_of_not_mem_cons hEle)
    (List.ne_of_not_mem_cons (List.not_mem_of_not_mem_cons hHead)), ?_⟩
  have hKept := takeItems_relinked impl.items ele .head next impl.mFirstFree
  refine ⟨hShape.relink rfl rfl List.perm_middle ?_ ?_ ?_ ?_, ?_, (hKept ele).entry,
    (hKept ele).mIsMsg, rfl, rfl, rfl⟩
  · rw [List.cons_append, hRest]
    exact takeItems_linked hNodup hLinked
  · exact takeItems_path hNodup hShape.freeList
  · exact fun p => (hKept p).mChunkNext
  · intro p hp
    show (takeItems impl.items ele .head next impl.mFirstFree p).mIsMsg =
      (takeItems impl.items ele .head next impl.mFirstFree p).entry.arg.isMsg
    rw [(hKept p).entry, (hKept p).mIsMsg]
    exact hShape.tagged p (List.mem_cons_of_mem _ hp)
  · exact List.map_congr_left fun p _ => (hKept p).entry

/-- The callback of an entry. -/
def UQEntry.call (e : UQEntry C D Γ M) : Option (UQCall C D Γ M) :=
  e.cb.map fun cb => ⟨cb, e.data, e.arg⟩

/-- The union is read as it was written. -/
theorem arg_eq {it : UQueueItem C D Γ M} (h : it.mIsMsg = it.union.isMsg) :
    it.arg = .ok it.union := by
  rw [UQueueItem.arg, h]
  cases it.union with
  | closure c => rfl
  | msg m => rfl

/-- **Dispatching the first item.** -/
theorem Shape.dispatchInt (hShape : Shape impl (ele :: queue) free) :
    ∃ impl' : UQueueImpl C D Γ M, UQueue.dispatchInt impl =
        .ok (impl', .ok, (impl.items ele).entry.call) ∧
      Shape impl' queue (ele :: free) ∧ impl'.entries queue = impl.entries queue ∧
      impl'.mSem = impl.mSem ∧ impl'.mCurrSize = narrowInt (impl.mCurrSize - 1) ∧
      impl'.mChunkSize = impl.mChunkSize := by
  obtain ⟨impl', hRemove, hShape', hEntries, hEntry, hTag, hSem, hCurr, hChunk⟩ := hShape.uqRemove
  refine ⟨impl', ?_, hShape', hEntries, hSem, hCurr, hChunk⟩
  have hIn : ele ∈ ele :: queue ++ free := by simp
  have hNext : (impl.items .head).mNext = some ele :=
    (List.isChain_cons_cons.mp hShape.linked).1.1
  have hArg : (impl'.items ele).arg = .ok (impl'.items ele).union := by
    refine arg_eq ?_
    rw [hTag, hShape.tagged ele List.mem_cons_self]
    exact congrArg (fun e : UQEntry C D Γ M => e.arg.isMsg) hEntry.symm
  simp only [UQueue.dispatchInt, bind, Except.bind, pure, Except.pure]
  rw [deref_some (p := .head) trivial]
  simp only [hNext]
  rw [if_neg (hShape.ne_tail hIn), hRemove]
  simp only
  rw [deref_some (hShape'.valid (by simp))]
  simp only [hArg]
  rw [← hEntry]
  rfl

/-- A queue without items has nothing to dispatch. -/
theorem Shape.dispatchInt_nil (hShape : Shape impl [] free) :
    UQueue.dispatchInt impl = .ok (impl, .ok, none) := by
  have hNext : (impl.items .head).mNext = some .tail :=
    (List.isChain_cons_cons.mp hShape.linked).1.1
  simp only [UQueue.dispatchInt, bind, Except.bind, pure, Except.pure]
  rw [deref_some (p := .head) trivial]
  simp only [hNext]
  rfl

end Dispatch

end ZmqBridge
