import ZmqBridge.Lib.Run
import ZmqBridge.Model.Queue

/-!
# ZmqBridge — timers (`timer.c`)

A timer is shared by two threads. The thread of the timer heap runs
`timerCallback` for each element that fires, while it holds the heap's lock. The
thread that runs the timer's queue runs `queueCallback` and `destroyCallback`,
and the application calls `reset` and `destroy` on it. Each access to what the
threads share is a step of its own; what is done under the lock in `reset` is
one step.

The timer heap is OpenMAMA's. An element may fire until it is removed with
`destroyTimer`; removing one that is not there has no effect. When an element
fires is left open, so intervals are not modelled. `mOnTimerDestroyed` is the
application's, and only its calls are recorded.
-/

namespace ZmqBridge

open Lib

/-- `zmqTimerImpl`; of `mAction` whether it is set. -/
structure ZmqTimerImpl where
  mTimerElement : Option Nat
  mDestroying : Bool
  mAction : Bool
  deriving DecidableEq, Repr

inductive TimerThread where
  | heap
  | queue
  deriving DecidableEq, Repr

/-- The timer heap: the elements that can fire, and the thread that holds the
lock. -/
structure TimerHeap where
  elements : List Nat
  next : Nat
  owner : Option TimerThread
  deriving DecidableEq, Repr

def TimerHeap.destroyTimer (heap : TimerHeap) (element : Nat) : TimerHeap :=
  { heap with elements := heap.elements.filter (· ≠ element) }

/-- The heap without the timer's element. -/
def TimerHeap.without (heap : TimerHeap) (timer : ZmqTimerImpl) : TimerHeap :=
  match timer.mTimerElement with
  | none => heap
  | some element => heap.destroyTimer element

/-- The callbacks on the timer's queue: two of the timer, and those of others. -/
inductive TimerCb where
  | queueCallback
  | destroyCallback
  | other (id : Nat)
  deriving DecidableEq, Repr

abbrev TimerQueue : Type := ZmqQueueBridge TimerCb Unit Unit Empty

/-- Where the heap's thread is in `timerCallback`, and in the `reset` it calls. -/
inductive HeapPc where
  | idle
  | test
  | resetTest
  | resetLocked
  | enqueue
  | leave
  deriving DecidableEq, Repr

/-- Where the queue's thread is: in `reset`, at a step of `destroy`, or running
the queue before or after `destroy`. -/
inductive QueuePc where
  | idle
  | resetLocked
  | nullify
  | lock
  | destroyTimer
  | unlock
  | enqueue
  | returned
  deriving DecidableEq, Repr

/-- What the application sees. -/
inductive TimerEvent where
  | action
  | destroyStarted
  | destroyed
  deriving DecidableEq, Repr

/-- A timer and what it shares. `freed` tells whether the timer's memory is freed,
`faulted` whether it was used after that. -/
structure TimerWorld where
  timer : ZmqTimerImpl
  freed : Bool
  heap : TimerHeap
  queue : TimerQueue
  heapPc : HeapPc
  queuePc : QueuePc
  log : List TimerEvent
  faulted : Bool

/-- A timer that `zmqBridgeMamaTimer_create` made, with its first element. -/
def TimerWorld.init (queue : TimerQueue) : TimerWorld where
  timer := ⟨some 0, false, true⟩
  freed := false
  heap := ⟨[0], 1, none⟩
  queue := queue
  heapPc := .idle
  queuePc := .idle
  log := []
  faulted := false

inductive TimerAct where
  | fire (element : Nat)
  | heapStep (createOk calloc : Bool)
  | reset
  | destroy
  | queueStep (createOk calloc : Bool)
  | dispatchEvent
  | timedDispatch (interrupted : Bool)
  | activate
  | deactivate
  | enqueueOther (id : Nat) (calloc : Bool)

variable (w : TimerWorld)

/-- Use the timer. -/
def TimerWorld.use (f : TimerWorld → TimerWorld) : TimerWorld :=
  if w.freed then { w with faulted := true } else f w

/-- `zmqBridgeMamaTimerImpl_reset` under the lock: the element is replaced.
`createOk` tells whether `createTimer` succeeds. -/
def TimerImpl.resetLocked (timer : ZmqTimerImpl) (heap : TimerHeap) (createOk : Bool) :
    ZmqTimerImpl × TimerHeap :=
  let heap := heap.without timer
  if createOk then
    ({ timer with mTimerElement := some heap.next },
      { heap with elements := heap.elements ++ [heap.next], next := heap.next + 1 })
  else (timer, heap)

def TimerWorld.resetElement (createOk : Bool) : TimerWorld :=
  let (timer, heap) := TimerImpl.resetLocked w.timer w.heap createOk
  { w with timer, heap }

/-- What enqueueing leaves behind. -/
def TimerWorld.enqueued (out : Except Fault (TimerQueue × MamaStatus)) : TimerWorld :=
  match out with
  | .error _ => { w with faulted := true }
  | .ok (queue, _) => { w with queue }

/-- The next step of `zmqBridgeMamaTimerImpl_timerCallback`. -/
def TimerWorld.heapStep (createOk calloc : Bool) : Option TimerWorld :=
  match w.heapPc with
  | .idle => none
  | .test =>
    -- only enqueue further timer callbacks if the timer is not getting destroyed
    some (w.use fun w =>
      { w with heapPc := if w.timer.mDestroying then .leave else .resetTest })
  | .resetTest =>
    some (w.use fun w =>
      { w with heapPc := if w.timer.mDestroying then .enqueue else .resetLocked })
  | .resetLocked => some (w.use fun w => { w.resetElement createOk with heapPc := .enqueue })
  | .enqueue =>
    some (w.use fun w =>
      { w.enqueued (Queue.enqueueEventEx w.queue (some .queueCallback) (some ()) calloc) with
        heapPc := .leave })
  | .leave => some { w with heapPc := .idle, heap := { w.heap with owner := none } }

/-- The next step of the queue's thread in `zmqBridgeMamaTimerImpl_reset` or in
`zmqBridgeMamaTimer_destroy`. It waits for the heap's lock. -/
def TimerWorld.queueStep (createOk calloc : Bool) : Option TimerWorld :=
  match w.queuePc with
  | .idle => none
  | .resetLocked =>
    if w.heap.owner = none then
      some (w.use fun w => { w.resetElement createOk with queuePc := .idle })
    else none
  | .nullify =>
    some (w.use fun w =>
      { w with timer := { w.timer with mAction := false }, queuePc := .lock })
  | .lock =>
    if w.heap.owner = none then
      some { w with heap := { w.heap with owner := some .queue }, queuePc := .destroyTimer }
    else none
  | .destroyTimer =>
    some (w.use fun w =>
      { w with
        heap := w.heap.without w.timer
        timer := { w.timer with mTimerElement := none }
        queuePc := .unlock })
  | .unlock => some { w with heap := { w.heap with owner := none }, queuePc := .enqueue }
  | .enqueue =>
    some (w.use fun w =>
      { w.enqueued (Queue.enqueueEvent w.queue (some .destroyCallback) (some ()) calloc) with
        queuePc := .returned })
  | .returned => none

/-- `queueCallback`, `destroyCallback`, or a callback that has nothing to do with
the timer. -/
def TimerWorld.runCall (call : UQCall TimerCb Unit Unit Empty) : TimerWorld :=
  match call.cb with
  | .queueCallback =>
    w.use fun w => if w.timer.mAction then { w with log := w.log ++ [.action] } else w
  | .destroyCallback =>
    w.use fun w => { w with log := w.log ++ [.destroyed], freed := true }
  | .other _ => w

/-- What a dispatch leaves behind. -/
def TimerWorld.afterDispatch
    (out : Except Fault (TimerQueue × MamaStatus × Option (UQCall TimerCb Unit Unit Empty))) :
    TimerWorld :=
  match out with
  | .error _ => { w with faulted := true }
  | .ok (queue, _, none) => { w with queue }
  | .ok (queue, _, some call) => TimerWorld.runCall { w with queue } call

/-- The queue's thread is free to run the queue. -/
def QueuePc.dispatching : QueuePc → Bool
  | .idle | .returned => true
  | _ => false

def TimerWorld.step : TimerAct → Option TimerWorld
  | .fire element =>
    if w.heapPc = .idle ∧ w.heap.owner = none ∧ element ∈ w.heap.elements then
      some { w with heapPc := .test, heap := { w.heap with owner := some .heap } }
    else none
  | .heapStep createOk calloc => w.heapStep createOk calloc
  | .reset =>
    if w.queuePc = .idle then
      some (w.use fun w => if w.timer.mDestroying then w else { w with queuePc := .resetLocked })
    else none
  | .destroy =>
    if w.queuePc = .idle then
      some (w.use fun w =>
        { w with
          timer := { w.timer with mDestroying := true }
          queuePc := .nullify
          log := w.log ++ [.destroyStarted] })
    else none
  | .queueStep createOk calloc => w.queueStep createOk calloc
  | .dispatchEvent =>
    if w.queuePc.dispatching then (Queue.dispatchEvent w.queue).map w.afterDispatch else none
  | .timedDispatch interrupted =>
    if w.queuePc.dispatching then
      some (w.afterDispatch (Queue.timedDispatch w.queue interrupted))
    else none
  | .activate => some { w with queue := Queue.activate w.queue }
  | .deactivate => some { w with queue := Queue.deactivate w.queue }
  | .enqueueOther id calloc =>
    some (w.enqueued (Queue.enqueueEvent w.queue (some (.other id)) (some ()) calloc))

end ZmqBridge
