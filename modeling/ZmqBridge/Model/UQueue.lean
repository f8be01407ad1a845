import ZmqBridge.Lib.Chain
import ZmqBridge.Lib.CMemory

/-!
# ZmqBridge — the event queue (`uqueue.c`)

A queue is a doubly linked list of items between two dummy nodes. Items that are
not in use are on a free list, which uses the same link field; they are
allocated in chunks, and the first item of each chunk links the chunks.

Items live at addresses: the dummy nodes `mHead` and `mTail`, and item `index`
of chunk number `chunk`. `blocks` is what the allocator knows: the number of
items of each chunk. Following a null pointer, or one past the end of a chunk,
is a `Fault`. Of the dummy node `mFirstFree` only the link is used.

`wsem_t` is a POSIX semaphore: posting at `SEM_VALUE_MAX` fails, and the queue
does not look at the result. The mutex makes each call one step.
-/

namespace ZmqBridge

open Lib

/-- `wombatQueueStatus`, as far as it is returned. -/
inductive WombatQueueStatus where
  | ok
  | nomem
  | semErr
  | full
  | timeout
  deriving DecidableEq, Repr

/-- The address of a `uQueueItem`. -/
inductive UQPtr where
  | head
  | tail
  | node (chunk index : Nat)
  deriving DecidableEq, Repr

/-- The union in a `uQueueItem`: a closure, or a copy of a message. -/
inductive UQUnion (Γ M : Type) where
  | closure (mClosure : Option Γ)
  | msg (mMsg : M)
  deriving DecidableEq, Repr

/-- `uQueueItem`. -/
structure UQueueItem (C D Γ M : Type) where
  mCb : Option C
  mData : Option D
  mIsMsg : Byte
  union : UQUnion Γ M
  mNext : Option UQPtr
  mPrev : Option UQPtr
  mChunkNext : Option UQPtr

/-- `uQueueImpl`. -/
structure UQueueImpl (C D Γ M : Type) where
  mSem : Nat
  mMaxSize : Nat
  mChunkSize : Nat
  mCurrSize : Int
  mFirstFree : Option UQPtr
  mChunks : Option UQPtr
  blocks : List Nat
  items : UQPtr → UQueueItem C D Γ M

/-- What is enqueued: the arguments of `uQueue_enqueue`. A message is passed with
`isMsg` 1, a closure with 0. -/
structure UQEntry (C D Γ M : Type) where
  cb : Option C
  data : Option D
  arg : UQUnion Γ M
  deriving DecidableEq, Repr

/-- A call `cb (data, ..)`, with the closure or the message it is given. -/
structure UQCall (C D Γ M : Type) where
  cb : C
  data : Option D
  arg : UQUnion Γ M
  deriving DecidableEq, Repr

variable {C D Γ M : Type}

def UQUnion.isMsg : UQUnion Γ M → Byte
  | .closure _ => 0
  | .msg _ => 1

/-! ## Memory -/

/-- The dummy nodes and the items of allocated chunks. -/
def UQueueImpl.Valid (impl : UQueueImpl C D Γ M) : UQPtr → Prop
  | .head => True
  | .tail => True
  | .node chunk index => ∃ size ∈ impl.blocks[chunk]?, index < size

instance (impl : UQueueImpl C D Γ M) (p : UQPtr) : Decidable (impl.Valid p) :=
  match p with
  | .head => isTrue trivial
  | .tail => isTrue trivial
  | .node chunk index =>
    match h : impl.blocks[chunk]? with
    | none => isFalse (by simp [UQueueImpl.Valid, h])
    | some size => decidable_of_iff (index < size) (by simp [UQueueImpl.Valid, h])

/-- Read the item a pointer points to. -/
def UQueueImpl.deref (impl : UQueueImpl C D Γ M) (p : Option UQPtr) :
    Except Fault (UQueueItem C D Γ M) :=
  match p with
  | none => .error .badPointer
  | some p => if impl.Valid p then .ok (impl.items p) else .error .badPointer

/-- Write to the item a pointer points to. -/
def UQueueImpl.store (impl : UQueueImpl C D Γ M) (p : Option UQPtr)
    (f : UQueueItem C D Γ M → UQueueItem C D Γ M) : Except Fault (UQueueImpl C D Γ M) :=
  match p with
  | none => .error .badPointer
  | some p =>
    if impl.Valid p then
      .ok { impl with items := Function.update impl.items p (f (impl.items p)) }
    else .error .badPointer

def UQueueItem.zero : UQueueItem C D Γ M :=
  ⟨none, none, 0, .closure none, none, none, none⟩

/-! ## Semaphore -/

/-- `SEM_VALUE_MAX`. -/
def semValueMax : Nat := 2 ^ 31 - 1

/-- `wsem_post`. -/
def wsemPost (sem : Nat) : Nat := if sem < semValueMax then sem + 1 else sem

/-! ## Chunks -/

/-- The loop that links the items of a new chunk, after `n` rounds. -/
def UQueueImpl.linkChunk (impl : UQueueImpl C D Γ M) (chunk : Nat) :
    Nat → Except Fault (UQueueImpl C D Γ M)
  | 0 => .ok impl
  | i + 1 => do
    let impl ← UQueueImpl.linkChunk impl chunk i
    let impl ← impl.store (some (.node chunk i)) fun it =>
      { it with mNext := some (.node chunk (i + 1)) }
    impl.store (some (.node chunk (i + 1))) fun it => { it with mPrev := some (.node chunk i) }

/-- `calloc` gives a chunk of zeroes. -/
def UQueueImpl.calloc (impl : UQueueImpl C D Γ M) (items : Nat) : UQueueImpl C D Γ M :=
  { impl with
    blocks := impl.blocks ++ [items]
    items := fun p =>
      match p with
      | .node chunk _ => if chunk = impl.blocks.length then .zero else impl.items p
      | p => impl.items p }

/-- `size + items > impl->mMaxSize`, computed in `unsigned int`. -/
def UQueueImpl.TooBig (impl : UQueueImpl C D Γ M) (items : Nat) : Prop :=
  (impl.mSem + items) % 2 ^ 32 > impl.mMaxSize

instance (impl : UQueueImpl C D Γ M) (items : Nat) : Decidable (impl.TooBig items) :=
  inferInstanceAs (Decidable (_ > _))

/-- `uQueueImpl_allocChunk`; `calloc` tells whether the allocation succeeds. -/
def UQueueImpl.allocChunk (impl : UQueueImpl C D Γ M) (items : Nat) (calloc : Bool) :
    Except Fault (UQueueImpl C D Γ M × WombatQueueStatus) :=
  if impl.TooBig items then pure (impl, .full)
  else if !calloc then pure (impl, .nomem)
  else do
    let result : UQPtr := .node impl.blocks.length 0
    let chunk := impl.blocks.length
    let impl := impl.calloc items
    let impl ← impl.store (some result) fun it => { it with mChunkNext := impl.mChunks }
    let impl := { impl with mChunks := some result, mFirstFree := some result }
    -- -1 so last is NULL
    let impl ← UQueueImpl.linkChunk impl chunk (items - 1)
    pure (impl, .ok)

/-! ## Creating a queue -/

instance neZero_uint32 : NeZero (2 ^ 32 : Nat) := ⟨by decide⟩

/-- `WOMBAT_QUEUE_MAX_SIZE` and `WOMBAT_QUEUE_CHUNK_SIZE`. -/
structure QueueDefaults where
  maxSize : Nat
  chunkSize : Nat
  maxSize_lt : maxSize < 2 ^ 32
  chunkSize_pos : 0 < chunkSize
  chunkSize_lt : chunkSize < 2 ^ 32

/-- `uQueue_allocate`, when the allocation succeeds. -/
def UQueue.allocate (d : QueueDefaults) : UQueueImpl C D Γ M where
  mSem := 0
  mMaxSize := d.maxSize
  mChunkSize := d.chunkSize
  mCurrSize := 0
  mFirstFree := none
  mChunks := none
  blocks := []
  items := fun p =>
    match p with
    | .head => { UQueueItem.zero with mNext := some .tail, mPrev := some .head }
    | .tail => { UQueueItem.zero with mNext := some .tail, mPrev := some .head }
    | .node _ _ => .zero

/-- `uQueue_create` on an allocated queue. `semInit` and `calloc` tell whether
the calls succeed; the sizes are of type `uint32_t`. -/
def UQueue.create (d : QueueDefaults) (impl : UQueueImpl C D Γ M)
    (maxSize initialSize growBySize : Fin (2 ^ 32)) (semInit calloc : Bool) :
    Except Fault (UQueueImpl C D Γ M × WombatQueueStatus) :=
  let impl := if maxSize ≠ 0 then { impl with mMaxSize := maxSize } else impl
  let impl := if growBySize ≠ 0 then { impl with mChunkSize := growBySize } else impl
  if !semInit then pure (impl, .semErr)
  else do
    let impl := { impl with mSem := 0 }
    let initialSize := if initialSize = 0 then d.chunkSize else initialSize
    let (impl, _) ← UQueueImpl.allocChunk impl initialSize calloc
    -- alloc failed
    if impl.mFirstFree = none then pure (impl, .nomem)
    else pure ({ impl with mCurrSize := 0 }, .ok)

/-! ## Destroying a queue -/

/-- Free the chunks from `curItem` on. There are no more than were allocated. -/
def UQueueImpl.freeChunks (impl : UQueueImpl C D Γ M) :
    Nat → Option UQPtr → Except Fault (List UQPtr)
  | _, none => pure []
  | 0, some _ => .error .badPointer
  | n + 1, some curItem => do
    let it ← impl.deref (some curItem)
    let rest ← UQueueImpl.freeChunks impl n it.mChunkNext
    pure (curItem :: rest)

/-- `uQueue_destroy`: the chunks that are freed, whatever their items hold.
`semDestroy` tells whether the semaphore can be destroyed. -/
def UQueue.destroy (impl : UQueueImpl C D Γ M) (semDestroy : Bool) :
    Except Fault (List UQPtr × WombatQueueStatus) := do
  let freed ← impl.freeChunks impl.blocks.length impl.mChunks
  pure (freed, if semDestroy then .ok else .semErr)

/-! ## Enqueueing -/

/-- Put the item at `item` on the queue, in front of the dummy tail node. -/
def UQueueImpl.putLast (impl : UQueueImpl C D Γ M) (item : UQPtr) :
    Except Fault (UQueueImpl C D Γ M) := do
  let impl ← impl.store (some item) fun it => { it with mNext := some .tail }
  let tail ← impl.deref (some .tail)
  let impl ← impl.store (some item) fun it => { it with mPrev := tail.mPrev }
  let it ← impl.deref (some item)
  let impl ← impl.store it.mPrev fun prev => { prev with mNext := some item }
  impl.store (some .tail) fun tail => { tail with mPrev := some item }

/-- `uQueue_enqueue`. -/
def UQueue.enqueue (impl : UQueueImpl C D Γ M) (calloc : Bool) (e : UQEntry C D Γ M) :
    Except Fault (UQueueImpl C D Γ M × WombatQueueStatus) := do
  -- if there are no items in the free list, allocate some
  let impl ←
    if impl.mFirstFree = none then do
      let out ← UQueueImpl.allocChunk impl impl.mChunkSize calloc
      pure out.1
    else pure impl
  match impl.mFirstFree with
  | none => pure (impl, .full)
  | some item => do
    let free ← impl.deref (some item)
    let impl := { impl with mFirstFree := free.mNext }
    -- initialize the item
    let impl ← impl.store (some item) fun it =>
      { it with mCb := e.cb, mData := e.data, mIsMsg := e.arg.isMsg, union := e.arg }
    let impl ← impl.putLast item
    pure ({ impl with
      mCurrSize := narrowInt (impl.mCurrSize + 1), mSem := wsemPost impl.mSem }, .ok)

/-! ## Dispatching -/

/-- `UQ_REMOVE`. -/
def UQueueImpl.uqRemove (impl : UQueueImpl C D Γ M) (ele : UQPtr) :
    Except Fault (UQueueImpl C D Γ M) := do
  let it ← impl.deref (some ele)
  let impl ← impl.store it.mPrev fun prev => { prev with mNext := it.mNext }
  let it ← impl.deref (some ele)
  let impl ← impl.store it.mNext fun next => { next with mPrev := it.mPrev }
  let impl ← impl.store (some ele) fun it => { it with mNext := impl.mFirstFree }
  pure { impl with mFirstFree := some ele, mCurrSize := narrowInt (impl.mCurrSize - 1) }

/-- What the callback is given: the union is read as `mIsMsg` says. -/
def UQueueItem.arg (it : UQueueItem C D Γ M) : Except Fault (UQUnion Γ M) :=
  if it.mIsMsg ≠ 0 then
    match it.union with
    | .msg mMsg => pure (if it.mIsMsg = 1 then .msg mMsg else .closure none)
    | .closure _ => .error .badPointer
  else
    match it.union with
    | .closure mClosure => pure (.closure mClosure)
    | .msg _ => .error .badPointer

/-- `uQueue_dispatchInt` after the wait has succeeded; the semaphore is already
decremented. -/
def UQueue.dispatchInt (impl : UQueueImpl C D Γ M) :
    Except Fault (UQueueImpl C D Γ M × WombatQueueStatus × Option (UQCall C D Γ M)) := do
  let mHead ← impl.deref (some .head)
  match mHead.mNext with
  | none => .error .badPointer
  | some first =>
    if first = .tail then pure (impl, .ok, none)
    else do
      let impl ← impl.uqRemove first
      let it ← impl.deref (some first)
      let arg ← it.arg
      pure (impl, .ok, it.mCb.map fun cb => ⟨cb, it.mData, arg⟩)

/-- `uQueue_dispatch`; it does not return while there is nothing to dispatch. -/
def UQueue.dispatch (impl : UQueueImpl C D Γ M) :
    Option (Except Fault (UQueueImpl C D Γ M × WombatQueueStatus × Option (UQCall C D Γ M))) :=
  if impl.mSem = 0 then none
  else some (UQueue.dispatchInt { impl with mSem := impl.mSem - 1 })

/-- `uQueue_timedDispatch`. The wait fails when the time is up, and it may also
fail before, on a signal. -/
def UQueue.timedDispatch (impl : UQueueImpl C D Γ M) (interrupted : Bool) :
    Except Fault (UQueueImpl C D Γ M × WombatQueueStatus × Option (UQCall C D Γ M)) :=
  if impl.mSem = 0 ∨ interrupted = true then pure (impl, .timeout, none)
  else UQueue.dispatchInt { impl with mSem := impl.mSem - 1 }

end ZmqBridge
