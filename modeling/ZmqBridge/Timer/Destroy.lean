import ZmqBridge.Model.Timer
import ZmqBridge.Queue.Contents

/-!
# ZmqBridge — destroying a timer

`zmqBridgeMamaTimer_destroy` sets a flag, removes the timer's element from the
heap under the heap's lock, and puts `destroyCallback` behind whatever events of
the timer are already queued. The heap's thread may be anywhere in
`timerCallback` meanwhile.

* `timer_destroy_clean` — from the start of `destroy` on the action is not
  called; `mOnTimerDestroyed` is called once; nothing uses the timer afterwards.

It is assumed that the queue takes every event and counts it.
-/

namespace ZmqBridge

open Lib

-- ---------------------------------------------------------------------------
-- What is to be shown
-- ---------------------------------------------------------------------------

/-- `destroy` has started. -/
def QueuePc.started : QueuePc → Bool
  | .idle | .resetLocked => false
  | _ => true

/-- The callback of an entry, if it is one of the timer's. -/
def timerRef (e : UQEntry TimerCb Unit Unit Empty) : Option TimerCb :=
  match e.cb with
  | some .queueCallback => some .queueCallback
  | some .destroyCallback => some .destroyCallback
  | _ => none

section Clean

variable (w : TimerWorld)

/-- The events on the queue that refer to the timer, in order. -/
def TimerWorld.refs : List TimerCb := w.queue.mQueue.pending.filterMap timerRef

/-- The two threads have come to rest: the heap's thread is not in a callback, the
queue's thread is not in `reset` or `destroy`, and the queue is empty. -/
def TimerWorld.Resting : Prop :=
  w.heapPc = .idle ∧ w.queuePc.dispatching = true ∧ w.queue.mQueue.pending = []

/-- **A clean destruction**, at any time. -/
structure TimerWorld.Clean : Prop where
  /-- No callback, and no step of `destroy`, uses the timer after it is freed. -/
  notFaulted : w.faulted = false
  /-- The action is not called after `destroy` has started. -/
  noAction : ∀ pre post, w.log = pre ++ .destroyStarted :: post → .action ∉ post
  /-- `mOnTimerDestroyed` is called at most once, and only after `destroy` has
  started. -/
  atMostOnce : w.log.count .destroyed ≤ 1
  onlyStarted : .destroyed ∈ w.log → w.queuePc.started = true
  /-- Once all is done it has been called. -/
  exactlyOnce : w.queuePc.started = true → w.Resting → w.log.count .destroyed = 1
  /-- Until then some thread can go on. -/
  goesOn : w.queuePc.started = true → w.log.count .destroyed = 1 ∨
    (∃ a ∈ [.heapStep true true, .queueStep true true, .dispatchEvent],
      (w.step a).isSome)
  /-- `destroyCallback` is the last event that refers to the timer, and when it is
  queued no event can be added: the heap's thread is not in a callback, and no
  element is left to fire. -/
  last : ∀ pre post, w.refs = pre ++ .destroyCallback :: post →
    post = [] ∧ .destroyCallback ∉ pre ∧ w.heap.elements = [] ∧ w.heapPc = .idle
  /-- When the timer is freed nothing refers to it. -/
  freed : w.freed = true → w.refs = [] ∧ w.heap.elements = [] ∧ w.heapPc = .idle

/-- The queue takes the event that the step puts on it, and counts it. -/
def TimerWorld.QueueTakes : TimerAct → Prop
  | .heapStep _ calloc => w.heapPc = .enqueue → w.queue.HasRoom calloc
  | .queueStep _ calloc => w.queuePc = .enqueue → w.queue.HasRoom calloc
  | .enqueueOther _ calloc => w.queue.HasRoom calloc
  | _ => True

instance : ∀ a, Decidable (w.QueueTakes a)
  | .heapStep _ calloc => inferInstanceAs (Decidable (_ → w.queue.HasRoom calloc))
  | .queueStep _ calloc => inferInstanceAs (Decidable (_ → w.queue.HasRoom calloc))
  | .enqueueOther _ calloc => inferInstanceAs (Decidable (w.queue.HasRoom calloc))
  | .fire _ | .reset | .destroy | .dispatchEvent | .timedDispatch _ | .activate
  | .deactivate => isTrue trivial

end Clean

-- ---------------------------------------------------------------------------
-- The invariant
-- ---------------------------------------------------------------------------

/-- `mAction` is still set. -/
def QueuePc.keepsAction : QueuePc → Bool
  | .idle | .resetLocked | .nullify => true
  | _ => false

/-- The queue's thread holds the heap's lock. -/
def QueuePc.locked : QueuePc → Bool
  | .destroyTimer | .unlock => true
  | _ => false

/-- The element is removed for good. -/
def QueuePc.gone : QueuePc → Bool
  | .unlock | .enqueue | .returned => true
  | _ => false

/-- The timer's last event, once it is queued and until it has run. -/
def QueuePc.lastEvent (pc : QueuePc) (freed : Bool) : List TimerCb :=
  match pc, freed with
  | .returned, false => [.destroyCallback]
  | _, _ => []

/-- What is logged after the last action. -/
def QueuePc.history (pc : QueuePc) (freed : Bool) : List TimerEvent :=
  (if pc.started then [.destroyStarted] else []) ++ if freed then [.destroyed] else []

structure TimerWorld.Inv (w : TimerWorld) : Prop where
  notFaulted : w.faulted = false
  queue : w.queue.Fifo
  destroying : w.timer.mDestroying = w.queuePc.started
  action : w.timer.mAction = w.queuePc.keepsAction
  heapLock : w.heap.owner = some .heap ↔ w.heapPc ≠ .idle
  queueLock : w.heap.owner = some .queue ↔ w.queuePc.locked = true
  element : ∀ e ∈ w.heap.elements, w.timer.mTimerElement = some e
  gone : w.queuePc.gone = true → w.heap.elements = [] ∧ w.heapPc = .idle
  freed : w.freed = true → w.queuePc = .returned ∧ w.refs = []
  refs : ∃ n, w.refs = List.replicate n .queueCallback ++ w.queuePc.lastEvent w.freed
  log : ∃ n, w.log = List.replicate n .action ++ w.queuePc.history w.freed

section Steps

variable {w w' : TimerWorld}

theorem use_of_not_freed (h : w.freed = false) (f : TimerWorld → TimerWorld) : w.use f = f w :=
  if_neg (by rw [h]; exact Bool.false_ne_true)

/-- As long as `destroy` has not returned the timer is there. -/
theorem TimerWorld.Inv.not_freed (hInv : w.Inv) (h : w.queuePc ≠ .returned) :
    w.freed = false :=
  Bool.eq_false_of_not_eq_true fun hFreed => h (hInv.freed hFreed).1

/-- While the heap's thread is in a callback the element is not removed. -/
theorem TimerWorld.Inv.not_gone (hInv : w.Inv) (h : w.heapPc ≠ .idle) :
    w.queuePc.gone = false :=
  Bool.eq_false_of_not_eq_true fun hGone => h (hInv.gone hGone).2

theorem TimerWorld.Inv.not_returned (hInv : w.Inv) (h : w.heapPc ≠ .idle) :
    w.queuePc ≠ .returned := by
  intro hPc
  have hGone := hInv.not_gone h
  rw [hPc] at hGone
  exact absurd hGone Bool.true_eq_false.mp

theorem lastEvent_nil {pc : QueuePc} (h : pc ≠ .returned) (freed : Bool) :
    pc.lastEvent freed = [] := by
  cases pc with
  | returned => exact absurd rfl h
  | _ => rfl

/-- The timer has one element at most. -/
theorem TimerWorld.Inv.without_nil (hInv : w.Inv) : (w.heap.without w.timer).elements = [] := by
  cases hElement : w.timer.mTimerElement with
  | none =>
    rw [TimerHeap.without, hElement]
    refine List.eq_nil_iff_forall_not_mem.mpr ?_
    intro e he
    have hSame := hInv.element e he
    rw [hElement] at hSame
    cases hSame
  | some element =>
    rw [TimerHeap.without, hElement]
    refine List.filter_eq_nil_iff.mpr ?_
    intro e he
    have hSame := hInv.element e he
    rw [hElement] at hSame
    simp [Option.some.inj hSame]

theorem without_owner (heap : TimerHeap) (timer : ZmqTimerImpl) :
    (heap.without timer).owner = heap.owner := by
  rw [TimerHeap.without]
  split <;> rfl

/-- Replacing the element only changes the element. -/
theorem resetElement_eq (createOk : Bool) : ∃ element elements next,
    w.resetElement createOk =
      { w with
        timer := { w.timer with mTimerElement := element }
        heap := { w.heap with elements, next } } ∧
      (w.Inv → ∀ e ∈ elements, element = some e) := by
  have hOwner := without_owner w.heap w.timer
  cases createOk with
  | true =>
    refine ⟨some (w.heap.without w.timer).next,
      (w.heap.without w.timer).elements ++ [(w.heap.without w.timer).next],
      (w.heap.without w.timer).next + 1, ?_, ?_⟩
    · dsimp only
      rw [← hOwner]
      rfl
    · intro hInv e he
      rw [hInv.without_nil, List.nil_append, List.mem_singleton] at he
      rw [he]
  | false =>
    refine ⟨w.timer.mTimerElement, (w.heap.without w.timer).elements,
      (w.heap.without w.timer).next, ?_, ?_⟩
    · dsimp only
      rw [← hOwner]
      rfl
    · intro hInv e he
      rw [hInv.without_nil] at he
      cases he

/-- The queue changes, and with it the events that refer to the timer. -/
theorem TimerWorld.Inv.withQueue (hInv : w.Inv) {queue : TimerQueue} (hFifo : queue.Fifo)
    (hRefs : queue.mQueue.pending.filterMap timerRef = w.refs) :
    TimerWorld.Inv { w with queue } := by
  have hSame : TimerWorld.refs { w with queue } = w.refs := hRefs
  refine { hInv with queue := hFifo, freed := ?_, refs := ?_ }
  · intro hFreed
    rw [hSame]
    exact hInv.freed hFreed
  · rw [hSame]
    exact hInv.refs

/-- An event of the timer, or of something else, goes on the queue. -/
theorem TimerWorld.Inv.enqueueEvent (hInv : w.Inv) {calloc : Bool}
    (hRoom : w.queue.HasRoom calloc) {cb : TimerCb}
    (hCb : cb = .queueCallback ∧ w.queuePc ≠ .returned ∨ ∃ id, cb = .other id) :
    ∃ queue, w.enqueued (Queue.enqueueEvent w.queue (some cb) (some ()) calloc) =
      { w with queue } ∧ TimerWorld.Inv { w with queue } := by
  obtain ⟨queue, hEnq, hFifo, hPending⟩ :=
    hInv.queue.enqueueEventInt hRoom cb (.closure (some ()))
  refine ⟨queue, by rw [Queue.enqueueEvent, hEnq]; rfl, ?_⟩
  rcases hCb with ⟨rfl, hReturned⟩ | ⟨id, rfl⟩
  · have hRefs : TimerWorld.refs { w with queue } = w.refs ++ [.queueCallback] := by
      show queue.mQueue.pending.filterMap timerRef = _
      rw [hPending, List.filterMap_append]
      rfl
    refine { hInv with queue := hFifo, freed := ?_, refs := ?_ }
    · intro hFreed
      exact absurd (hInv.freed hFreed).1 hReturned
    · obtain ⟨n, hn⟩ := hInv.refs
      rw [lastEvent_nil hReturned, List.append_nil] at hn
      refine ⟨n + 1, ?_⟩
      rw [hRefs, hn, lastEvent_nil hReturned, List.append_nil, List.replicate_succ']
  · refine hInv.withQueue hFifo ?_
    rw [hPending, List.filterMap_append]
    exact List.append_nil _

/-- **A step of `timerCallback`.** -/
theorem TimerWorld.Inv.heapStep (hInv : w.Inv) {createOk calloc : Bool}
    (hTakes : w.heapPc = .enqueue → w.queue.HasRoom calloc)
    (h : w.heapStep createOk calloc = some w') : w'.Inv := by
  by_cases hIdle : w.heapPc = .idle
  · rw [TimerWorld.heapStep, hIdle] at h
    cases h
  have hHeld : w.heap.owner = some .heap := hInv.heapLock.mpr hIdle
  have hReturned := hInv.not_returned hIdle
  have hFreed := hInv.not_freed hReturned
  have hNotGone : ∀ {p : Prop}, w.queuePc.gone = true → p := by
    intro p hGone
    exact absurd (hInv.gone hGone).2 hIdle
  rw [TimerWorld.heapStep] at h
  cases hPc : w.heapPc with
  | idle => exact absurd hPc hIdle
  | test =>
    rw [hPc] at h
    cases h
    rw [use_of_not_freed hFreed]
    refine { hInv with heapLock := iff_of_true hHeld ?_, gone := hNotGone }
    show (if w.timer.mDestroying then HeapPc.leave else .resetTest) ≠ .idle
    split <;> exact HeapPc.noConfusion
  | resetTest =>
    rw [hPc] at h
    cases h
    rw [use_of_not_freed hFreed]
    refine { hInv with heapLock := iff_of_true hHeld ?_, gone := hNotGone }
    show (if w.timer.mDestroying then HeapPc.enqueue else .resetLocked) ≠ .idle
    split <;> exact HeapPc.noConfusion
  | resetLocked =>
    rw [hPc] at h
    cases h
    rw [use_of_not_freed hFreed]
    obtain ⟨element, elements, next, hReset, hElement⟩ := resetElement_eq (w := w) createOk
    rw [hReset]
    exact { hInv with
      heapLock := iff_of_true hHeld HeapPc.noConfusion
      element := hElement hInv
      gone := hNotGone }
  | enqueue =>
    rw [hPc] at h
    cases h
    rw [use_of_not_freed hFreed, Queue.enqueueEventEx]
    split
    · obtain ⟨queue, hEq, hNext⟩ := hInv.enqueueEvent (hTakes hPc) (Or.inl ⟨rfl, hReturned⟩)
      rw [hEq]
      exact { hNext with
        heapLock := iff_of_true hHeld HeapPc.noConfusion
        gone := hNotGone }
    · -- the queue is inactive and the event is dropped
      exact { hInv with
        heapLock := iff_of_true hHeld HeapPc.noConfusion
        gone := hNotGone }
  | leave =>
    rw [hPc] at h
    cases h
    have hUnlocked : w.queuePc.locked ≠ true := by
      intro hLocked
      have hOwner := hInv.queueLock.mpr hLocked
      rw [hHeld] at hOwner
      cases hOwner
    exact { hInv with
      heapLock := iff_of_false (fun hOwner => by cases hOwner) fun hPc => hPc rfl
      queueLock := iff_of_false (fun hOwner => by cases hOwner) hUnlocked
      gone := hNotGone }

/-- **A step of `reset` or of `destroy`.** -/
theorem TimerWorld.Inv.queueStep (hInv : w.Inv) {createOk calloc : Bool}
    (hTakes : w.queuePc = .enqueue → w.queue.HasRoom calloc)
    (h : w.queueStep createOk calloc = some w') : w'.Inv := by
  obtain ⟨timer, freed, heap, queue, heapPc, queuePc, log, faulted⟩ := w
  by_cases hReturned : queuePc = .returned
  · subst hReturned
    cases h
  obtain rfl : freed = false := hInv.not_freed hReturned
  have hNever : ∀ {p : Prop}, false = true → p := fun h => Bool.noConfusion h
  -- the lock is either free or held by one of the threads
  have hIdle : heap.owner ≠ some .heap → heapPc = .idle := by
    intro hOwner
    by_contra hBusy
    exact hOwner (hInv.heapLock.mpr hBusy)
  cases queuePc with
  | idle => cases h
  | returned => exact absurd rfl hReturned
  | resetLocked =>
    simp only [TimerWorld.queueStep] at h
    split at h
    · cases h
      rw [use_of_not_freed rfl]
      obtain ⟨element, elements, next, hReset, hElement⟩ := resetElement_eq
        (w := ⟨timer, false, heap, queue, heapPc, .resetLocked, log, faulted⟩) createOk
      rw [hReset]
      exact { hInv with element := hElement hInv, gone := hNever, freed := hNever }
    · cases h
  | nullify =>
    cases h
    exact { hInv with action := rfl, freed := hNever }
  | lock =>
    simp only [TimerWorld.queueStep] at h
    split at h
    · rename_i hFree
      cases h
      have hHeap : heapPc = .idle := hIdle (by rw [hFree]; exact (Option.some_ne_none _).symm)
      exact { hInv with
        heapLock := iff_of_false (fun hOwner => by cases hOwner) fun hBusy => hBusy hHeap
        queueLock := iff_of_true rfl rfl
        freed := hNever }
    · cases h
  | destroyTimer =>
    cases h
    have hOwner : heap.owner = some .queue := hInv.queueLock.mpr rfl
    have hHeap : heapPc = .idle := hIdle (by rw [hOwner]; exact fun h => by cases h)
    have hNil : (heap.without timer).elements = [] := hInv.without_nil
    have hOwner' : (heap.without timer).owner = some .queue :=
      (without_owner heap timer).trans hOwner
    refine { hInv with
      heapLock := iff_of_false ?_ fun hBusy => hBusy hHeap
      queueLock := iff_of_true hOwner' rfl
      element := ?_
      gone := fun _ => ⟨hNil, hHeap⟩
      freed := hNever }
    · intro h
      cases hOwner'.symm.trans h
    · intro e he
      have he' : e ∈ (heap.without timer).elements := he
      rw [hNil] at he'
      cases he'
  | unlock =>
    cases h
    have hHeap : heapPc = .idle := (hInv.gone rfl).2
    exact { hInv with
      heapLock := iff_of_false (fun hOwner => by cases hOwner) fun hBusy => hBusy hHeap
      queueLock := iff_of_false (fun hOwner => by cases hOwner) Bool.false_ne_true
      freed := hNever }
  | enqueue =>
    cases h
    rw [use_of_not_freed rfl]
    obtain ⟨queue', hEnq, hFifo, hPending⟩ :=
      hInv.queue.enqueueEventInt (hTakes rfl) .destroyCallback (.closure (some ()))
    rw [Queue.enqueueEvent, hEnq]
    refine { hInv with queue := hFifo, freed := hNever, refs := ?_ }
    obtain ⟨n, hn⟩ := hInv.refs
    have hOld : queue.mQueue.pending.filterMap timerRef = List.replicate n .queueCallback := by
      rw [← List.append_nil (List.replicate n TimerCb.queueCallback)]
      exact hn
    refine ⟨n, ?_⟩
    show queue'.mQueue.pending.filterMap timerRef = _ ++ [TimerCb.destroyCallback]
    rw [hPending, List.filterMap_append, hOld]
    rfl

/-- The queue's thread only runs the queue with the action set before `destroy`. -/
theorem eq_idle : ∀ pc : QueuePc, pc.keepsAction = true → pc.dispatching = true → pc = .idle := by
  intro pc
  cases pc <;> decide

theorem eq_returned : ∀ pc : QueuePc, pc.started = true → pc.dispatching = true →
    pc = .returned := by
  intro pc
  cases pc <;> decide

/-- The first event that refers to the timer. -/
theorem TimerWorld.Inv.refs_cons (hInv : w.Inv) {cb : TimerCb} {rest : List TimerCb}
    (h : w.refs = cb :: rest) :
    w.freed = false ∧
    ((cb = .queueCallback ∧ ∃ n, rest = List.replicate n .queueCallback ++
        w.queuePc.lastEvent w.freed) ∨
      (cb = .destroyCallback ∧ w.queuePc = .returned ∧ rest = [])) := by
  have hFreed : w.freed = false := by
    refine Bool.eq_false_of_not_eq_true ?_
    intro hFreed
    rw [(hInv.freed hFreed).2] at h
    cases h
  obtain ⟨n, hn⟩ := hInv.refs
  rw [h] at hn
  refine ⟨hFreed, ?_⟩
  cases n with
  | succ n =>
    rw [List.replicate_succ, List.cons_append] at hn
    obtain ⟨rfl, hRest⟩ := List.cons.inj hn
    exact Or.inl ⟨rfl, n, hRest⟩
  | zero =>
    by_cases hReturned : w.queuePc = .returned
    · rw [hReturned, hFreed] at hn
      obtain ⟨rfl, hRest⟩ := List.cons.inj hn
      exact Or.inr ⟨rfl, hReturned, hRest⟩
    · rw [lastEvent_nil hReturned] at hn
      cases hn

/-- **Running the first event of the queue.** -/
theorem TimerWorld.Inv.runEvent (hInv : w.Inv) (hDispatching : w.queuePc.dispatching = true)
    {e : UQEntry TimerCb Unit Unit Empty} {rest : List (UQEntry TimerCb Unit Unit Empty)}
    (hPending : w.queue.mQueue.pending = e :: rest) {queue : TimerQueue} (hFifo : queue.Fifo)
    (hRest : queue.mQueue.pending = rest) :
    (w.afterDispatch (.ok (queue, .ok, e.call))).Inv := by
  obtain ⟨cb, data, arg⟩ := e
  have hRefs : w.refs = (timerRef ⟨cb, data, arg⟩).toList ++ rest.filterMap timerRef := by
    rw [TimerWorld.refs, hPending]
    cases hRef : timerRef ⟨cb, data, arg⟩ with
    | none => exact List.filterMap_cons_none hRef
    | some c => exact List.filterMap_cons_some hRef
  have hNew : TimerWorld.refs { w with queue } = rest.filterMap timerRef := by
    rw [← hRest]
    rfl
  match cb with
  | none => exact hInv.withQueue hFifo (by rw [hRest, hRefs]; rfl)
  | some (.other id) => exact hInv.withQueue hFifo (by rw [hRest, hRefs]; rfl)
  | some .queueCallback =>
    obtain ⟨hFreed, hFirst⟩ :=
      hInv.refs_cons (show w.refs = .queueCallback :: rest.filterMap timerRef from hRefs)
    have hMore : ∃ n, TimerWorld.refs { w with queue } =
        List.replicate n .queueCallback ++ w.queuePc.lastEvent w.freed := by
      rcases hFirst with ⟨-, n, hn⟩ | ⟨hWrong, -⟩
      · exact ⟨n, by rw [hNew, hn]⟩
      · cases hWrong
    have hNotFreed : ∀ {p : Prop}, w.freed = true → p := by
      intro p hTrue
      rw [hFreed] at hTrue
      cases hTrue
    have hCall : w.afterDispatch (.ok (queue, .ok, some ⟨.queueCallback, data, arg⟩)) =
        if w.timer.mAction then { w with queue, log := w.log ++ [.action] }
        else { w with queue } := use_of_not_freed (w := { w with queue }) hFreed _
    show (w.afterDispatch (.ok (queue, .ok, some ⟨.queueCallback, data, arg⟩))).Inv
    rw [hCall]
    split
    · -- the action is called, so `destroy` has not started
      rename_i hAction
      have hStart : w.queuePc = .idle := eq_idle w.queuePc (hInv.action ▸ hAction) hDispatching
      obtain ⟨n, hn⟩ := hInv.log
      refine { hInv with queue := hFifo, freed := hNotFreed, refs := hMore, log := ⟨n + 1, ?_⟩ }
      show w.log ++ [.action] = _ ++ w.queuePc.history w.freed
      rw [hn, hStart, hFreed, List.replicate_succ']
      simp [QueuePc.history, QueuePc.started]
    · exact { hInv with queue := hFifo, freed := hNotFreed, refs := hMore }
  | some .destroyCallback =>
    obtain ⟨hFreed, hFirst⟩ :=
      hInv.refs_cons (show w.refs = .destroyCallback :: rest.filterMap timerRef from hRefs)
    obtain ⟨hReturned, hLast⟩ : w.queuePc = .returned ∧ rest.filterMap timerRef = [] := by
      rcases hFirst with ⟨hWrong, -⟩ | ⟨-, hReturned, hLast⟩
      · cases hWrong
      · exact ⟨hReturned, hLast⟩
    have hCall : w.afterDispatch (.ok (queue, .ok, some ⟨.destroyCallback, data, arg⟩)) =
        { w with queue, log := w.log ++ [.destroyed], freed := true } :=
      use_of_not_freed (w := { w with queue }) hFreed
        fun w => { w with log := w.log ++ [.destroyed], freed := true }
    show (w.afterDispatch (.ok (queue, .ok, some ⟨.destroyCallback, data, arg⟩))).Inv
    rw [hCall]
    have hNone : TimerWorld.refs { w with queue } = [] := hNew.trans hLast
    obtain ⟨n, hn⟩ := hInv.log
    refine { hInv with
      queue := hFifo
      freed := fun _ => ⟨hReturned, hNone⟩
      refs := ⟨0, ?_⟩
      log := ⟨n, ?_⟩ }
    · show TimerWorld.refs { w with queue } = [] ++ w.queuePc.lastEvent true
      rw [hNone, hReturned]
      rfl
    · show w.log ++ [.destroyed] = _ ++ w.queuePc.history true
      rw [hn, hFreed, hReturned, List.append_assoc]
      rfl

/-- **One step.** -/
theorem TimerWorld.Inv.step (hInv : w.Inv) {a : TimerAct} (hTakes : w.QueueTakes a)
    (h : w.step a = some w') : w'.Inv := by
  cases a with
  | fire element =>
    simp only [TimerWorld.step] at h
    split at h
    · rename_i hFire
      cases h
      obtain ⟨hIdle, hOwner, hElement⟩ := hFire
      have hNotGone : ∀ {p : Prop}, w.queuePc.gone = true → p := by
        intro p hGone
        rw [(hInv.gone hGone).1] at hElement
        cases hElement
      have hUnlocked : w.queuePc.locked ≠ true := by
        intro hLocked
        have hHeld := hInv.queueLock.mpr hLocked
        rw [hOwner] at hHeld
        cases hHeld
      exact { hInv with
        heapLock := iff_of_true rfl HeapPc.noConfusion
        queueLock := iff_of_false (fun hHeld => by cases hHeld) hUnlocked
        gone := hNotGone }
    · cases h
  | heapStep createOk calloc => exact hInv.heapStep hTakes h
  | queueStep createOk calloc => exact hInv.queueStep hTakes h
  | reset =>
    simp only [TimerWorld.step] at h
    split at h
    · rename_i hIdle
      cases h
      obtain ⟨timer, freed, heap, queue, heapPc, queuePc, log, faulted⟩ := w
      subst hIdle
      obtain rfl : freed = false := hInv.not_freed QueuePc.noConfusion
      rw [use_of_not_freed rfl]
      split
      · exact hInv
      · exact { hInv with freed := fun h => Bool.noConfusion h }
    · cases h
  | destroy =>
    simp only [TimerWorld.step] at h
    split at h
    · rename_i hIdle
      cases h
      obtain ⟨timer, freed, heap, queue, heapPc, queuePc, log, faulted⟩ := w
      subst hIdle
      obtain rfl : freed = false := hInv.not_freed QueuePc.noConfusion
      rw [use_of_not_freed rfl]
      obtain ⟨n, hn⟩ := hInv.log
      refine { hInv with destroying := rfl, freed := fun h => Bool.noConfusion h, log := ⟨n, ?_⟩ }
      show log ++ [.destroyStarted] = _
      rw [show log = _ from hn, List.append_assoc]
      rfl
    · cases h
  | dispatchEvent =>
    simp only [TimerWorld.step] at h
    split at h
    · rename_i hDispatching
      obtain ⟨out, hOut, rfl⟩ := Option.map_eq_some_iff.mp h
      obtain ⟨e, rest, queue, hPending, rfl, hFifo, hRest⟩ := hInv.queue.dispatchEvent hOut
      exact hInv.runEvent hDispatching hPending hFifo hRest
    · cases h
  | timedDispatch interrupted =>
    simp only [TimerWorld.step] at h
    split at h
    · rename_i hDispatching
      cases h
      rcases hInv.queue.timedDispatch interrupted with
        hNothing | ⟨e, rest, queue, hPending, hOut, hFifo, hRest⟩
      · rw [hNothing]
        exact hInv
      · rw [hOut]
        exact hInv.runEvent hDispatching hPending hFifo hRest
    · cases h
  | activate =>
    cases h
    exact hInv.withQueue ⟨hInv.queue.sound, hInv.queue.counted⟩ rfl
  | deactivate =>
    cases h
    exact hInv.withQueue ⟨hInv.queue.sound, hInv.queue.counted⟩ rfl
  | enqueueOther id calloc =>
    cases h
    obtain ⟨queue, hEq, hNext⟩ := hInv.enqueueEvent hTakes (Or.inr ⟨id, rfl⟩)
    rw [hEq]
    exact hNext

end Steps

-- ---------------------------------------------------------------------------
-- Runs
-- ---------------------------------------------------------------------------

section Runs

variable {w : TimerWorld}

theorem TimerWorld.inv_init {queue : TimerQueue} (hFifo : queue.Fifo)
    (hNew : ∀ e ∈ queue.mQueue.pending, timerRef e = none) : (TimerWorld.init queue).Inv where
  notFaulted := rfl
  queue := hFifo
  destroying := rfl
  action := rfl
  heapLock := iff_of_false (fun h => by cases h) fun h => h rfl
  queueLock := iff_of_false (fun h => by cases h) Bool.false_ne_true
  element := fun e he => by rw [List.mem_singleton.mp he]; rfl
  gone := fun h => Bool.noConfusion h
  freed := fun h => Bool.noConfusion h
  refs := ⟨0, List.filterMap_eq_nil_iff.mpr hNew⟩
  log := ⟨0, rfl⟩

theorem history_ordered : ∀ (pc : QueuePc) (freed : Bool), (pc.history freed).Pairwise
    fun a b => a = .destroyStarted → b ≠ .action := by
  intro pc freed
  cases pc <;> cases freed <;> decide

theorem history_count : ∀ (pc : QueuePc) (freed : Bool),
    (pc.history freed).count .destroyed = if freed then 1 else 0 := by
  intro pc freed
  cases pc <;> cases freed <;> decide

/-- The action is not called after `destroy` has started. -/
theorem TimerWorld.Inv.noAction (hInv : w.Inv) {pre post : List TimerEvent}
    (h : w.log = pre ++ .destroyStarted :: post) : .action ∉ post := by
  have hOrdered : w.log.Pairwise fun a b => a = .destroyStarted → b ≠ .action := by
    obtain ⟨n, hn⟩ := hInv.log
    rw [hn]
    refine List.pairwise_append.mpr ⟨?_, history_ordered _ _, ?_⟩
    · exact List.pairwise_replicate.mpr (Or.inr fun h => by cases h)
    · intro a ha b _ hStarted
      rw [List.eq_of_mem_replicate ha] at hStarted
      cases hStarted
  rw [h] at hOrdered
  have hPost := (List.pairwise_cons.mp (List.pairwise_append.mp hOrdered).2.1).1
  exact fun hAction => hPost .action hAction rfl rfl

theorem TimerWorld.Inv.count_destroyed (hInv : w.Inv) :
    w.log.count .destroyed = if w.freed then 1 else 0 := by
  obtain ⟨n, hn⟩ := hInv.log
  rw [hn, List.count_append, history_count, List.count_replicate, if_neg (by decide),
    Nat.zero_add]

/-- After `destroy` has returned, the queue has the timer's last event until it
has run. -/
theorem TimerWorld.Inv.refs_ne_nil (hInv : w.Inv) (hReturned : w.queuePc = .returned)
    (hFreed : w.freed = false) : w.refs ≠ [] := by
  obtain ⟨n, hn⟩ := hInv.refs
  rw [hReturned, hFreed] at hn
  intro hNil
  rw [hNil] at hn
  exact absurd hn.symm (List.append_ne_nil_of_right_ne_nil _ (List.cons_ne_nil _ _))

/-- `destroyCallback` is queued once, behind all others. -/
theorem TimerWorld.Inv.last (hInv : w.Inv) {pre post : List TimerCb}
    (h : w.refs = pre ++ .destroyCallback :: post) :
    w.queuePc = .returned ∧ post = [] ∧ .destroyCallback ∉ pre := by
  obtain ⟨n, hn⟩ := hInv.refs
  have hOther : TimerCb.destroyCallback ∉ List.replicate n .queueCallback := by
    intro hMem
    cases List.eq_of_mem_replicate hMem
  rw [h] at hn
  by_cases hReturned : w.queuePc = .returned
  · cases hFreed : w.freed with
    | true =>
      rw [(hInv.freed hFreed).2] at h
      exact absurd h.symm (List.append_ne_nil_of_right_ne_nil _ (List.cons_ne_nil _ _))
    | false =>
      rw [hReturned, hFreed] at hn
      obtain ⟨rfl, -, rfl⟩ :=
        (List.append_cons_inj_of_notMem hOther List.not_mem_nil).mp hn.symm
      exact ⟨hReturned, rfl, hOther⟩
  · rw [lastEvent_nil hReturned, List.append_nil] at hn
    exact absurd (hn ▸ List.mem_append_right pre List.mem_cons_self) hOther

/-- A thread that can go on, as long as the timer is not freed. -/
theorem TimerWorld.Inv.goesOn (hInv : w.Inv) (hStarted : w.queuePc.started = true)
    (hFreed : w.freed = false) :
    ∃ a ∈ [TimerAct.heapStep true true, .queueStep true true, .dispatchEvent],
      (w.step a).isSome := by
  cases hPc : w.queuePc with
  | idle =>
    rw [hPc] at hStarted
    cases hStarted
  | resetLocked =>
    rw [hPc] at hStarted
    cases hStarted
  | lock =>
    cases hOwner : w.heap.owner with
    | none =>
      refine ⟨.queueStep true true, by simp, ?_⟩
      simp only [TimerWorld.step, TimerWorld.queueStep, hPc, hOwner, if_true, Option.isSome_some]
    | some thread =>
      cases thread with
      | heap =>
        refine ⟨.heapStep true true, by simp, ?_⟩
        have hBusy := hInv.heapLock.mp hOwner
        simp only [TimerWorld.step, TimerWorld.heapStep]
        split <;> first | rfl | contradiction
      | queue =>
        have hLocked := hInv.queueLock.mp hOwner
        rw [hPc] at hLocked
        cases hLocked
  | returned =>
    refine ⟨.dispatchEvent, by simp, ?_⟩
    have hPending : w.queue.mQueue.pending ≠ [] := by
      intro hNil
      refine hInv.refs_ne_nil hPc hFreed ?_
      rw [TimerWorld.refs, hNil]
      rfl
    simp only [TimerWorld.step, hPc, QueuePc.dispatching, if_true, Queue.dispatchEvent,
      UQueue.dispatch, if_neg (hInv.queue.mSem_ne_zero hPending), Option.map_some,
      Option.isSome_some]
  | _ =>
    refine ⟨.queueStep true true, by simp, ?_⟩
    simp only [TimerWorld.step, TimerWorld.queueStep, hPc, Option.isSome_some]

theorem TimerWorld.Inv.clean (hInv : w.Inv) : w.Clean where
  notFaulted := hInv.notFaulted
  noAction := fun pre post h => hInv.noAction h
  atMostOnce := by
    rw [hInv.count_destroyed]
    split <;> omega
  onlyStarted := by
    intro hMem
    have hCount := List.count_pos_iff.mpr hMem
    rw [hInv.count_destroyed] at hCount
    split at hCount
    · rename_i hFreed
      rw [(hInv.freed hFreed).1]
      rfl
    · omega
  exactlyOnce := by
    rintro hStarted ⟨-, hDispatching, hNil⟩
    have hReturned := eq_returned w.queuePc hStarted hDispatching
    rw [hInv.count_destroyed, if_pos]
    by_contra hFreed
    refine hInv.refs_ne_nil hReturned (Bool.eq_false_of_not_eq_true hFreed) ?_
    rw [TimerWorld.refs, hNil]
    rfl
  goesOn := by
    intro hStarted
    rw [hInv.count_destroyed]
    cases hFreed : w.freed with
    | true => exact Or.inl rfl
    | false => exact Or.inr (hInv.goesOn hStarted hFreed)
  last := by
    intro pre post h
    obtain ⟨hReturned, rfl, hPre⟩ := hInv.last h
    exact ⟨rfl, hPre, hInv.gone (by rw [hReturned]; rfl)⟩
  freed := by
    intro hFreed
    obtain ⟨hReturned, hNil⟩ := hInv.freed hFreed
    exact ⟨hNil, hInv.gone (by rw [hReturned]; rfl)⟩

/--
**Destroying a timer is clean.** For a timer created on a FIFO queue that takes
and counts every event, and for every interleaving of the heap's thread, the
queue's thread in `reset`, `destroy` and the callbacks, other events on the
queue, and its activation and deactivation, in every state:

* from the start of `destroy` on the action is not called;
* `mOnTimerDestroyed` is called at most once, and exactly once when the threads
  have come to rest after `destroy`; until then one of them can go on;
* `destroyCallback` is the last event that refers to the timer, and nothing uses
  the timer after it has run.
-/
theorem timer_destroy_clean {queue : TimerQueue} (hFifo : queue.Fifo)
    (hNew : ∀ e ∈ queue.mQueue.pending, timerRef e = none) {as : List TimerAct}
    (hRun : run TimerWorld.step (TimerWorld.init queue) as = some w)
    (hTakes : StepsMeet TimerWorld.step TimerWorld.QueueTakes (TimerWorld.init queue) as) :
    w.Clean := by
  have hInv : w.Inv := by
    refine run_induction_meet (P := fun _ w => w.Inv) (TimerWorld.inv_init hFifo hNew) ?_ hRun
      hTakes
    intro as s a s' _ hInv hTake h
    exact hInv.step hTake h
  exact hInv.clean

end Runs

/-- A queue as it is created. -/
def freshTimerQueue : TimerQueue :=
  match UQueue.create smallDefaults (UQueue.allocate smallDefaults) 3 2 1 true true with
  | .ok (mQueue, _) => ⟨(), mQueue, true⟩
  | .error _ => ⟨(), UQueue.allocate smallDefaults, false⟩

theorem freshTimerQueue_fresh : Fresh freshTimerQueue.mQueue 2 :=
  fresh_of_create (d := smallDefaults)
    (show UQueue.create smallDefaults (UQueue.allocate smallDefaults) 3 2 1 true true =
      .ok (freshTimerQueue.mQueue, .ok) from rfl)

/-- The timer fires once before `destroy`, and fires again while `destroy` waits
for the heap's lock: the flag is set after the first test and before the
second. -/
def fireDuringDestroy : List TimerAct :=
  [.fire 0, .heapStep true true, .heapStep true true, .heapStep true true, .heapStep true true,
    .heapStep true true, .dispatchEvent, .fire 1, .heapStep true true, .destroy,
    .heapStep true true, .queueStep true true, .heapStep true true, .heapStep true true,
    .queueStep true true, .queueStep true true, .queueStep true true, .queueStep true true,
    .deactivate, .timedDispatch false, .dispatchEvent]

theorem timer_destroy_fireDuringDestroy :
    ∃ w, run TimerWorld.step (TimerWorld.init freshTimerQueue) fireDuringDestroy = some w ∧
      w.log = [.action, .destroyStarted, .destroyed] ∧ w.Clean := by
  obtain ⟨w, hRun, hLog⟩ :
      ∃ w, run TimerWorld.step (TimerWorld.init freshTimerQueue) fireDuringDestroy = some w ∧
        w.log = [.action, .destroyStarted, .destroyed] := exists_run (by decide +kernel)
  have hFresh := freshTimerQueue_fresh
  refine ⟨w, hRun, hLog, timer_destroy_clean ⟨hFresh.sound, ?_⟩ ?_ hRun ?_⟩
  · rw [hFresh.mSem, hFresh.pending]
    rfl
  · intro e he
    rw [hFresh.pending] at he
    cases he
  · exact stepsMeet_of_meetsAll (by decide +kernel)

end ZmqBridge
