import ZmqBridge.Model.Queue
import ZmqBridge.Queue.Fifo

/-!
# ZmqBridge — what is on a queue

The entries of an event queue as a list that is read off the memory, and each
call as an operation on that list.

* `UQueueImpl.Sound.enqueue`     — an entry goes to the end, or is refused;
* `UQueueImpl.Sound.dispatchInt` — the first entry is taken off and called;
* `UQueueImpl.Sound.destroy`     — every chunk is freed, once;
* `ZmqQueueBridge.Fifo`          — queues of the bridge whose semaphore is right.
-/

namespace ZmqBridge

open Lib

variable {C D Γ M : Type} {impl : UQueueImpl C D Γ M} {queue free : List UQPtr}

-- ---------------------------------------------------------------------------
-- Reading the list
-- ---------------------------------------------------------------------------

/-- The items of all chunks. -/
def UQueueImpl.allNodes (impl : UQueueImpl C D Γ M) : List UQPtr :=
  impl.blocks.zipIdx.flatMap fun b => chunkNodes b.2 b.1

theorem mem_allNodes {p : UQPtr} : p ∈ impl.allNodes ↔ impl.IsNode p := by
  rw [UQueueImpl.allNodes, List.mem_flatMap]
  constructor
  · rintro ⟨⟨size, chunk⟩, hMem, hp⟩
    obtain ⟨index, hIndex, rfl⟩ := mem_chunkNodes.mp hp
    exact ⟨chunk, index, rfl, size, List.mem_zipIdx_iff_getElem?.mp hMem, hIndex⟩
  · rintro ⟨chunk, index, rfl, size, hSize, hIndex⟩
    exact ⟨(size, chunk), List.mem_zipIdx_iff_getElem?.mpr hSize,
      mem_chunkNodes.mpr ⟨index, hIndex, rfl⟩⟩

theorem length_allNodes (impl : UQueueImpl C D Γ M) :
    impl.allNodes.length = impl.blocks.sum := by
  have hLen : (fun b : Nat × Nat => (chunkNodes b.2 b.1).length) = Prod.fst := by
    funext b
    rw [chunkNodes, List.length_map, List.length_range]
  rw [UQueueImpl.allNodes, List.length_flatMap, hLen, List.zipIdx_map_fst]

theorem nodup_allNodes (impl : UQueueImpl C D Γ M) : impl.allNodes.Nodup := by
  refine List.nodup_flatMap.mpr ⟨fun b _ => chunkNodes_nodup b.2 b.1, ?_⟩
  have hNumbers : (impl.blocks.zipIdx.map Prod.snd).Nodup := by
    rw [List.zipIdx_map_snd]
    exact List.nodup_range'
  refine (List.pairwise_map.mp hNumbers).imp fun {b c} hbc p hb hc => ?_
  obtain ⟨i, -, rfl⟩ := mem_chunkNodes.mp hb
  obtain ⟨j, -, hEq⟩ := mem_chunkNodes.mp hc
  exact hbc (UQPtr.node.inj hEq).1

/-- Every item is on one of the two lists. -/
theorem Shape.length_eq (hShape : Shape impl queue free) :
    queue.length + free.length = impl.blocks.sum := by
  have hSame : ∀ p, p ∈ queue ++ free ↔ p ∈ impl.allNodes := fun p =>
    (hShape.nodes p).trans mem_allNodes.symm
  rw [← List.length_append, ← length_allNodes]
  exact ((List.perm_ext_iff_of_nodup hShape.nodup (nodup_allNodes impl)).mpr hSame).length_eq

/-- No list is longer than there are items. -/
theorem Shape.length_le (hShape : Shape impl queue free) : queue.length ≤ impl.blocks.sum := by
  rw [← hShape.length_eq]
  exact Nat.le_add_right _ _

/-- The entries between the dummy nodes, in order. -/
def UQueueImpl.pending (impl : UQueueImpl C D Γ M) : List (UQEntry C D Γ M) :=
  impl.entries (impl.links.walk .tail impl.blocks.sum (impl.items .head).mNext)

theorem Shape.pending_eq (hShape : Shape impl queue free) :
    impl.pending = impl.entries queue := by
  rw [UQueueImpl.pending]
  exact congrArg impl.entries (hShape.linked.walk_eq hShape.tail_notMem hShape.length_le)

-- ---------------------------------------------------------------------------
-- The calls
-- ---------------------------------------------------------------------------

/-- The lists are in order, and the queue can grow. -/
structure UQueueImpl.Sound (impl : UQueueImpl C D Γ M) : Prop where
  shape : ∃ queue free, Shape impl queue free
  mChunkSize : 0 < impl.mChunkSize

theorem Fresh.sound {size : Nat} (h : Fresh impl size) : impl.Sound :=
  ⟨⟨_, _, h.shape⟩, h.mChunkSize⟩

theorem Fresh.pending {size : Nat} (h : Fresh impl size) : impl.pending = [] :=
  h.shape.pending_eq

/-- The list does not depend on the semaphore. -/
theorem pending_withSem (impl : UQueueImpl C D Γ M) (sem : Nat) :
    UQueueImpl.pending { impl with mSem := sem } = impl.pending := rfl

theorem UQueueImpl.Sound.withSem (h : impl.Sound) (sem : Nat) :
    UQueueImpl.Sound { impl with mSem := sem } := by
  obtain ⟨queue, free, hShape⟩ := h.shape
  exact ⟨⟨queue, free, hShape.withSem sem⟩, h.mChunkSize⟩

/-- An entry that is not refused goes to the end of the list. -/
theorem UQueueImpl.Sound.enqueue (h : impl.Sound) {calloc : Bool}
    (hRoom : ¬ impl.Exhausted calloc) (e : UQEntry C D Γ M) :
    ∃ impl', UQueue.enqueue impl calloc e = .ok (impl', .ok) ∧ impl'.Sound ∧
      impl'.pending = impl.pending ++ [e] ∧ impl'.mSem = wsemPost impl.mSem := by
  obtain ⟨queue, free, hShape⟩ := h.shape
  obtain ⟨impl', queue', free', hEnq, hShape', -, hEntries, hSem, -, hChunk⟩ :=
    hShape.enqueue_ok h.mChunkSize hRoom e
  refine ⟨impl', hEnq, ⟨⟨queue', free', hShape'⟩, ?_⟩, ?_, hSem⟩
  · rw [hChunk]
    exact h.mChunkSize
  · rw [hShape'.pending_eq, hShape.pending_eq, hEntries]

/-- A dispatch that finds nothing. -/
theorem UQueueImpl.Sound.dispatchInt_nil (h : impl.Sound) (hNil : impl.pending = []) :
    UQueue.dispatchInt impl = .ok (impl, .ok, none) := by
  obtain ⟨queue, free, hShape⟩ := h.shape
  rw [hShape.pending_eq, UQueueImpl.entries, List.map_eq_nil_iff] at hNil
  subst hNil
  exact hShape.dispatchInt_nil

/-- A dispatch calls the first entry. -/
theorem UQueueImpl.Sound.dispatchInt (h : impl.Sound) {e : UQEntry C D Γ M}
    {rest : List (UQEntry C D Γ M)} (hPending : impl.pending = e :: rest) :
    ∃ impl', UQueue.dispatchInt impl = .ok (impl', .ok, e.call) ∧ impl'.Sound ∧
      impl'.pending = rest ∧ impl'.mSem = impl.mSem := by
  obtain ⟨queue, free, hShape⟩ := h.shape
  rw [hShape.pending_eq, UQueueImpl.entries] at hPending
  cases queue with
  | nil => cases hPending
  | cons ele queue =>
    obtain ⟨rfl, hRest⟩ := List.cons.inj hPending
    obtain ⟨impl', hOut, hShape', hEntries, hSem, -, hChunk⟩ := hShape.dispatchInt
    refine ⟨impl', hOut, ⟨⟨queue, ele :: free, hShape'⟩, ?_⟩, ?_, hSem⟩
    · rw [hChunk]
      exact h.mChunkSize
    · rw [hShape'.pending_eq, hEntries]
      exact hRest

/-- Freeing the chunks follows the list of their first items. -/
theorem freeChunks_eq {p : Option UQPtr} {l : List UQPtr} (h : impl.chunkLinks.Path p l)
    (hValid : ∀ q ∈ l, impl.Valid q) {n : Nat} (hn : l.length ≤ n) :
    impl.freeChunks n p = .ok l := by
  induction l generalizing p n with
  | nil =>
    obtain rfl : p = none := h
    cases n <;> rfl
  | cons q l ih =>
    obtain ⟨rfl, hRest⟩ := h
    cases n with
    | zero => exact absurd hn (Nat.not_succ_le_zero _)
    | succ n =>
      have hIh := ih hRest (fun r hr => hValid r (List.mem_cons_of_mem _ hr))
        (Nat.le_of_succ_le_succ hn)
      rw [UQueueImpl.freeChunks, deref_some (hValid q List.mem_cons_self)]
      simp only [bind, Except.bind, pure, Except.pure]
      rw [show (impl.items q).mChunkNext = impl.chunkLinks.next q from rfl, hIh]

/-- **Destroying a queue frees each of its chunks once**, whatever is on it. -/
theorem UQueueImpl.Sound.destroy (h : impl.Sound) (semDestroy : Bool) :
    UQueue.destroy impl semDestroy =
      .ok (chunkHeads impl.blocks.length, if semDestroy then .ok else .semErr) := by
  obtain ⟨queue, free, hShape⟩ := h.shape
  have hFree : impl.freeChunks impl.blocks.length impl.mChunks =
      .ok (chunkHeads impl.blocks.length) := by
    refine freeChunks_eq hShape.chunks ?_ ?_
    · intro p hp
      obtain ⟨c, hc, rfl⟩ := List.mem_map.mp hp
      rw [List.mem_reverse, List.mem_range] at hc
      exact ⟨impl.blocks[c], List.getElem?_eq_getElem hc,
        hShape.sizes _ (List.getElem_mem hc)⟩
    · rw [chunkHeads, List.length_map, List.length_reverse, List.length_range]
  rw [UQueue.destroy, hFree]
  rfl

-- ---------------------------------------------------------------------------
-- Queues of the bridge
-- ---------------------------------------------------------------------------

section Bridge

variable {b : ZmqQueueBridge C D Γ M} {calloc : Bool}

/-- A queue that is full refuses the entry. -/
theorem enqueueEventInt_full (hFull : b.mQueue.Exhausted calloc) (cb : C) (arg : UQUnion Γ M) :
    Queue.enqueueEventInt b (some cb) arg calloc = .ok (b, .platform) := by
  simp only [Queue.enqueueEventInt, enqueue_full hFull, bind, Except.bind, pure, Except.pure]
  rfl

/-- Any other queue has the entry at its end. -/
theorem UQueueImpl.Sound.enqueueEventInt (h : b.mQueue.Sound)
    (hRoom : ¬ b.mQueue.Exhausted calloc) (cb : C) (arg : UQUnion Γ M) :
    ∃ mQueue, Queue.enqueueEventInt b (some cb) arg calloc = .ok ({ b with mQueue }, .ok) ∧
      mQueue.Sound ∧ mQueue.pending = b.mQueue.pending ++ [⟨some cb, some b.mParent, arg⟩] ∧
      mQueue.mSem = wsemPost b.mQueue.mSem := by
  obtain ⟨mQueue, hEnq, hSound, hPending, hSem⟩ :=
    h.enqueue hRoom ⟨some cb, some b.mParent, arg⟩
  refine ⟨mQueue, ?_, hSound, hPending, hSem⟩
  simp only [Queue.enqueueEventInt, hEnq, bind, Except.bind, pure, Except.pure]
  rfl

/-- A dispatch that got past the semaphore takes the first entry off, if there
is one, and calls it. -/
theorem UQueueImpl.Sound.dispatched (h : b.mQueue.Sound) :
    ∃ mQueue call, Queue.dispatched b
        (UQueue.dispatchInt { b.mQueue with mSem := b.mQueue.mSem - 1 }) =
          .ok ({ b with mQueue }, .ok, call) ∧ mQueue.Sound ∧
      mQueue.mSem = b.mQueue.mSem - 1 ∧ mQueue.pending = b.mQueue.pending.tail ∧
      call = b.mQueue.pending.head?.bind UQEntry.call := by
  have hSound := h.withSem (b.mQueue.mSem - 1)
  have hSame := pending_withSem b.mQueue (b.mQueue.mSem - 1)
  cases hPending : b.mQueue.pending with
  | nil =>
    rw [hSound.dispatchInt_nil (hSame.trans hPending)]
    exact ⟨_, none, rfl, hSound, rfl, hSame.trans hPending, rfl⟩
  | cons e rest =>
    obtain ⟨mQueue, hOut, hSound', hRest, hSem⟩ := hSound.dispatchInt (hSame.trans hPending)
    rw [hOut]
    exact ⟨mQueue, e.call, rfl, hSound', hSem, hRest, rfl⟩

/-- The list is in order, and the semaphore counts its entries. -/
structure ZmqQueueBridge.Fifo (b : ZmqQueueBridge C D Γ M) : Prop where
  sound : b.mQueue.Sound
  counted : b.mQueue.mSem = b.mQueue.pending.length

/-- One more entry can be taken, and counted. -/
def ZmqQueueBridge.HasRoom (b : ZmqQueueBridge C D Γ M) (calloc : Bool) : Prop :=
  ¬ b.mQueue.Exhausted calloc ∧ b.mQueue.mSem < semValueMax

instance : Decidable (b.HasRoom calloc) := inferInstanceAs (Decidable (¬ _ ∧ _ < _))

/-- An entry goes to the end of a FIFO with room for it. -/
theorem ZmqQueueBridge.Fifo.enqueueEventInt (h : b.Fifo) (hRoom : b.HasRoom calloc) (cb : C)
    (arg : UQUnion Γ M) :
    ∃ b', Queue.enqueueEventInt b (some cb) arg calloc = .ok (b', .ok) ∧ b'.Fifo ∧
      b'.mQueue.pending = b.mQueue.pending ++ [⟨some cb, some b.mParent, arg⟩] := by
  obtain ⟨mQueue, hEnq, hSound, hPending, hSem⟩ := h.sound.enqueueEventInt hRoom.1 cb arg
  refine ⟨{ b with mQueue }, hEnq, ⟨hSound, ?_⟩, hPending⟩
  show mQueue.mSem = mQueue.pending.length
  rw [hSem, wsemPost, if_pos hRoom.2, hPending, h.counted, List.length_append,
    List.length_singleton]

/-- A dispatch takes the first entry of a FIFO. -/
theorem ZmqQueueBridge.Fifo.dispatched (h : b.Fifo) {e : UQEntry C D Γ M}
    {rest : List (UQEntry C D Γ M)} (hPending : b.mQueue.pending = e :: rest) :
    ∃ b', Queue.dispatched b
        (UQueue.dispatchInt { b.mQueue with mSem := b.mQueue.mSem - 1 }) =
          .ok (b', .ok, e.call) ∧ b'.Fifo ∧ b'.mQueue.pending = rest := by
  obtain ⟨mQueue, call, hOut, hSound, hSem, hTail, hCall⟩ := h.sound.dispatched
  rw [hPending] at hTail hCall
  refine ⟨{ b with mQueue }, by rw [hOut, hCall]; rfl, ⟨hSound, ?_⟩, hTail⟩
  show mQueue.mSem = mQueue.pending.length
  rw [hSem, hTail, h.counted, hPending, List.length_cons, List.tail_cons]
  rfl

/-- A FIFO with entries does not make its thread wait. -/
theorem ZmqQueueBridge.Fifo.mSem_ne_zero (h : b.Fifo) (hPending : b.mQueue.pending ≠ []) :
    b.mQueue.mSem ≠ 0 := by
  rw [h.counted]
  exact fun hLen => hPending (List.eq_nil_of_length_eq_zero hLen)

/-- **Running a FIFO** either changes nothing or takes the first entry off. -/
theorem ZmqQueueBridge.Fifo.timedDispatch (h : b.Fifo) (interrupted : Bool) :
    Queue.timedDispatch b interrupted = .ok (b, .ok, none) ∨
    ∃ e rest b', b.mQueue.pending = e :: rest ∧
      Queue.timedDispatch b interrupted = .ok (b', .ok, e.call) ∧ b'.Fifo ∧
      b'.mQueue.pending = rest := by
  rw [Queue.timedDispatch, UQueue.timedDispatch]
  split
  · exact Or.inl rfl
  · rename_i hWait
    right
    cases hPending : b.mQueue.pending with
    | nil => exact absurd (Or.inl (by rw [h.counted, hPending]; rfl)) hWait
    | cons e rest =>
      obtain ⟨b', hOut, hFifo, hRest⟩ := h.dispatched hPending
      exact ⟨e, rest, b', rfl, hOut, hFifo, hRest⟩

theorem ZmqQueueBridge.Fifo.dispatchEvent (h : b.Fifo)
    {out : Except Fault (ZmqQueueBridge C D Γ M × MamaStatus × Option (UQCall C D Γ M))}
    (hOut : Queue.dispatchEvent b = some out) :
    ∃ e rest b', b.mQueue.pending = e :: rest ∧ out = .ok (b', .ok, e.call) ∧ b'.Fifo ∧
      b'.mQueue.pending = rest := by
  obtain ⟨disp, hDisp, rfl⟩ := Option.map_eq_some_iff.mp hOut
  rw [UQueue.dispatch] at hDisp
  split at hDisp
  · cases hDisp
  · rename_i hSem
    cases hDisp
    cases hPending : b.mQueue.pending with
    | nil => exact absurd (by rw [h.counted, hPending]; rfl) hSem
    | cons e rest =>
      obtain ⟨b', hEq, hFifo, hRest⟩ := h.dispatched hPending
      exact ⟨e, rest, b', rfl, hEq, hFifo, hRest⟩

end Bridge

end ZmqBridge
