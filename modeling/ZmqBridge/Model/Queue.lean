import ZmqBridge.Model.Defs
import ZmqBridge.Model.UQueue

/-!
# ZmqBridge — queues (`queue.c`)

A queue of the bridge is an event queue with a flag that says whether messages
and events are taken. `mIsDispatching` belongs to `zmqBridgeMamaQueue_dispatch`, a
loop that it ends, and is in `Queue.Loop`; `enqueueEventInt` only logs it. The
watermarks are fields of the same record that nothing else reads; they are a record
of their own here.
-/

namespace ZmqBridge

open Lib

variable {C D Γ M : Type}

/-- `zmqQueueBridge`. -/
structure ZmqQueueBridge (C D Γ M : Type) where
  mParent : D
  mQueue : UQueueImpl C D Γ M
  mIsActive : Bool

/-- `zmqBridgeMamaQueue_create`. The flags tell whether the allocations of the
two records, `wsem_init` and the allocation of the first chunk succeed. -/
def Queue.create (d : QueueDefaults) (parent : D) (calloc allocate semInit chunk : Bool) :
    Except Fault (Option (ZmqQueueBridge C D Γ M) × MamaStatus) :=
  if !calloc then pure (none, .nomem)
  else if !allocate then pure (none, .nomem)
  else do
    let (mQueue, status) ← UQueue.create d (UQueue.allocate d) ⟨d.maxSize, d.maxSize_lt⟩
      ⟨d.chunkSize, d.chunkSize_lt⟩ ⟨d.chunkSize, d.chunkSize_lt⟩ semInit chunk
    if status ≠ .ok then pure (none, .platform)
    else pure (some { mParent := parent, mQueue, mIsActive := true }, .ok)

/-- `zmqBridgeMamaQueue_destroy`: the chunks that are freed. -/
def Queue.destroy (impl : ZmqQueueBridge C D Γ M) (semDestroy : Bool) :
    Except Fault (List UQPtr × MamaStatus) := do
  let (freed, status) ← UQueue.destroy impl.mQueue semDestroy
  pure (freed, if status ≠ .ok then .platform else .ok)

/-- `zmqBridgeMamaQueue_activate`. -/
def Queue.activate (impl : ZmqQueueBridge C D Γ M) : ZmqQueueBridge C D Γ M :=
  { impl with mIsActive := true }

/-- `zmqBridgeMamaQueue_deactivate`. -/
def Queue.deactivate (impl : ZmqQueueBridge C D Γ M) : ZmqQueueBridge C D Γ M :=
  { impl with mIsActive := false }

/-- `zmqBridgeMamaQueue_enqueueEventInt`; the last argument of the source is
`arg.isMsg`. -/
def Queue.enqueueEventInt (impl : ZmqQueueBridge C D Γ M) (callback : Option C)
    (arg : UQUnion Γ M) (calloc : Bool) :
    Except Fault (ZmqQueueBridge C D Γ M × MamaStatus) :=
  match callback with
  | none => pure (impl, .nullArg)
  | some cb => do
    let (mQueue, status) ← UQueue.enqueue impl.mQueue calloc ⟨some cb, some impl.mParent, arg⟩
    pure ({ impl with mQueue }, if status ≠ .ok then .platform else .ok)

/-- `zmqBridgeMamaQueue_enqueueMsg`. -/
def Queue.enqueueMsg (impl : ZmqQueueBridge C D Γ M) (callback : Option C) (msg : M)
    (calloc : Bool) : Except Fault (ZmqQueueBridge C D Γ M × MamaStatus) :=
  if impl.mIsActive then Queue.enqueueEventInt impl callback (.msg msg) calloc
  -- silently drop events if the queue is set to inactive
  else pure (impl, .ok)

/-- `zmqBridgeMamaQueue_enqueueEvent`. -/
def Queue.enqueueEvent (impl : ZmqQueueBridge C D Γ M) (callback : Option C)
    (closure : Option Γ) (calloc : Bool) : Except Fault (ZmqQueueBridge C D Γ M × MamaStatus) :=
  Queue.enqueueEventInt impl callback (.closure closure) calloc

/-- `zmqBridgeMamaQueue_enqueueEventEx`. -/
def Queue.enqueueEventEx (impl : ZmqQueueBridge C D Γ M) (callback : Option C)
    (closure : Option Γ) (calloc : Bool) : Except Fault (ZmqQueueBridge C D Γ M × MamaStatus) :=
  if impl.mIsActive then Queue.enqueueEvent impl callback closure calloc
  else pure (impl, .ok)

/-- What the two dispatch functions return. -/
def Queue.dispatched (impl : ZmqQueueBridge C D Γ M)
    (out : Except Fault (UQueueImpl C D Γ M × WombatQueueStatus × Option (UQCall C D Γ M))) :
    Except Fault (ZmqQueueBridge C D Γ M × MamaStatus × Option (UQCall C D Γ M)) := do
  let (mQueue, status, call) ← out
  pure ({ impl with mQueue },
    if status ≠ .ok ∧ status ≠ .timeout then .platform else .ok, call)

/-- `zmqBridgeMamaQueue_timedDispatch`. -/
def Queue.timedDispatch (impl : ZmqQueueBridge C D Γ M) (interrupted : Bool) :
    Except Fault (ZmqQueueBridge C D Γ M × MamaStatus × Option (UQCall C D Γ M)) :=
  Queue.dispatched impl (UQueue.timedDispatch impl.mQueue interrupted)

/-- `zmqBridgeMamaQueue_dispatchEvent`; it waits for an event. -/
def Queue.dispatchEvent (impl : ZmqQueueBridge C D Γ M) :
    Option (Except Fault (ZmqQueueBridge C D Γ M × MamaStatus × Option (UQCall C D Γ M))) :=
  (UQueue.dispatch impl.mQueue).map (Queue.dispatched impl)

/-! ## Watermarks -/

/-- The fields of `zmqQueueBridge` about the watermarks; 0 is "not set". -/
structure Watermarks where
  mHighWaterFired : Bool
  mHighWatermark : Nat
  mLowWatermark : Nat
  deriving DecidableEq, Repr

/-- The callbacks of the parent: `mamaQueueImpl_highWatermarkExceeded` and
`mamaQueueImpl_lowWatermarkExceeded`. -/
inductive WatermarkEvent where
  | highWatermarkExceeded
  | lowWatermarkExceeded
  deriving DecidableEq, Repr

/-- The record is allocated with `calloc`. -/
def Watermarks.init : Watermarks := ⟨false, 0, 0⟩

/-- `zmqBridgeMamaQueue_setHighWatermark`. -/
def Queue.setHighWatermark (impl : Watermarks) (highWatermark : Nat) :
    Watermarks × MamaStatus :=
  if highWatermark = 0 then (impl, .nullArg)
  else ({ impl with mHighWatermark := highWatermark }, .ok)

/-- `zmqBridgeMamaQueue_setLowWatermark`. -/
def Queue.setLowWatermark (impl : Watermarks) (lowWatermark : Nat) :
    Watermarks × MamaStatus :=
  if lowWatermark = 0 then (impl, .nullArg)
  else ({ impl with mLowWatermark := lowWatermark }, .ok)

/-- `zmqBridgeMamaQueue_getEventCount`: `uQueue_getSize` is the value of the semaphore. -/
def Queue.getEventCount (mQueue : UQueueImpl C D Γ M) : Nat := mQueue.mSem

/-- `zmqBridgeMamaQueueImpl_checkWatermarks`, with the callback that is called. -/
def Queue.checkWatermarks (mQueue : UQueueImpl C D Γ M) (impl : Watermarks) :
    Watermarks × Option WatermarkEvent :=
  let eventCount := Queue.getEventCount mQueue
  -- if the high watermark had been fired but the event count is now down
  if impl.mHighWaterFired = true ∧ eventCount = impl.mLowWatermark then
    ({ impl with mHighWaterFired := false }, some .lowWatermarkExceeded)
  -- if the high watermark is not currently fired and now above threshold
  else if impl.mHighWaterFired = false ∧ eventCount ≥ impl.mHighWatermark then
    ({ impl with mHighWaterFired := true }, some .highWatermarkExceeded)
  else (impl, none)

end ZmqBridge
