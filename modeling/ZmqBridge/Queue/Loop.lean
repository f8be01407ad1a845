import ZmqBridge.Lib.Mutex
import ZmqBridge.Queue.Dispatchers

/-!
# ZmqBridge — threads that dispatch a queue until they are told to stop

`zmqBridgeMamaQueue_dispatch` takes the dispatch lock, sets `mIsDispatching` and
dispatches one event after another for as long as the flag stays set;
`zmqBridgeMamaQueue_stopDispatch` clears it, from any thread and without the lock.
`zmqBridgeMamaQueue_destroy` takes the lock too. Any number of threads call any of
these, put events on the queue and also dispatch outside the loop, with
`timedDispatch` or `dispatchEvent`; the steps of the event queue itself are those of
`SharedQueue`. A thread that waits for the lock when `destroy` gives it back takes it and
is in the loop of a queue that is gone; what it does there, and whatever else is done to
the queue then, is undefined and not followed any further.

* `dispatch_exclusive`  — one thread at a time is in the loop, and `destroy` waits
  for it, but not for those who wait with it;
* `dispatch_in_order`   — so callbacks run one at a time in the order the events were
  accepted in, if nobody dispatches outside the loop;
* `stop_ends_loop`      — a stop that finds a thread in the loop ends it: at most one
  more event is dispatched, whatever the others do;
* `stops_needed`        — every call that returns has used up a stop of its own.
-/

namespace ZmqBridge

open Lib

variable {ι C D Γ M : Type}

-- ---------------------------------------------------------------------------
-- The loop
-- ---------------------------------------------------------------------------

/-- Where a thread is in `zmqBridgeMamaQueue_dispatch`: before it takes the lock, sets
the flag, checks the watermarks, calls `uQueue_timedDispatch`, and so on. It is
`dispatching` from the end of the wait on, callback included. -/
inductive LoopPc where
  | idle
  | lock
  | set
  | check
  | dispatch
  | dispatching
  | test
  | unlock
  deriving DecidableEq, Repr

/-- The places at which a thread has the dispatch lock. -/
def LoopPc.inside : LoopPc → Bool
  | .idle | .lock => false
  | _ => true

/-- A queue of the bridge and its threads. `stops` and `returns` count the calls of
`stopDispatch`, and those of `dispatch` that have returned. -/
structure DispatchLoop (ι C D Γ M : Type) where
  queue : SharedQueue ι C D Γ M
  marks : Watermarks
  mDispatchLock : Option ι
  mIsDispatching : Bool
  pc : ι → LoopPc
  destroyed : Bool
  stops : Nat
  returns : Nat

def DispatchLoop.init (impl : UQueueImpl C D Γ M) : DispatchLoop ι C D Γ M where
  queue := .init impl
  marks := .init
  mDispatchLock := none
  mIsDispatching := false
  pc := fun _ => .idle
  destroyed := false
  stops := 0
  returns := 0

/-- The thread is not inside `uQueue_dispatchInt`, unless in its callback. -/
def DispatcherPc.isIdle : DispatcherPc C D Γ M → Bool
  | .idle => true
  | _ => false

def SharedAct.thread : SharedAct ι C D Γ M → ι
  | .enqueue i _ _ => i
  | .wait i => i
  | .waitFails i => i
  | .remove i => i
  | .call i => i

/-- Where a step of the event queue takes a thread that is at `pc`. Outside the loop a
thread may do anything; in it there is one wait for each round. -/
def LoopPc.next (pc : LoopPc) (a : SharedAct ι C D Γ M) : Option LoopPc :=
  match pc, a with
  | .idle, _ => some .idle
  | .dispatch, .wait _ => some .dispatching
  | .dispatch, .waitFails _ => some .test
  | .dispatching, .enqueue .. => some .dispatching
  | .dispatching, .remove _ => some .dispatching
  | .dispatching, .call _ => some .dispatching
  | _, _ => none

/-- A step of the event queue neither enters nor leaves the loop. -/
theorem LoopPc.inside_next {pc p : LoopPc} {a : SharedAct ι C D Γ M}
    (h : pc.next a = some p) : p.inside = pc.inside := by
  cases pc <;> cases a <;> simp [LoopPc.next] at h <;> rw [← h] <;> rfl

/-- A thread that gets past the wait is `dispatching`, and stays so until it is idle. -/
theorem LoopPc.next_of_busy {pc p : LoopPc} {a : SharedAct ι C D Γ M}
    (h : pc.next a = some p) (hBusy : pc = .dispatching ∨ (pc = .dispatch ∧ a = .wait a.thread)) :
    p = .dispatching := by
  rcases hBusy with rfl | ⟨rfl, hWait⟩
  · cases a <;> simp [LoopPc.next] at h <;> exact h.symm
  · rw [hWait] at h
    simpa [LoopPc.next] using h.symm

inductive LoopAct (ι C D Γ M : Type) where
  | dispatch (i : ι)
  | queue (a : SharedAct ι C D Γ M)
  | stop
  | destroy

/-- The lock is held by the thread in the loop, and after `destroy` nobody gets further
than that. -/
structure DispatchLoop.Locked (s : DispatchLoop ι C D Γ M) : Prop where
  held : Held LoopPc.inside s.mDispatchLock s.pc
  destroyed : s.destroyed = true → ∀ i, (s.pc i).inside = true → s.pc i = .set

theorem DispatchLoop.locked_init (impl : UQueueImpl C D Γ M) :
    (DispatchLoop.init impl : DispatchLoop ι C D Γ M).Locked where
  held := held_of_outside fun _ => rfl
  destroyed h := absurd h Bool.false_ne_true

section Step

variable [DecidableEq ι]

/-- One step of `zmqBridgeMamaQueue_dispatch` outside `uQueue_timedDispatch`, which
does not return before the callback does. Its status is OK or TIMEOUT, so the flag
alone decides on the next round. -/
def DispatchLoop.dispatch (s : DispatchLoop ι C D Γ M) (i : ι) :
    Option (DispatchLoop ι C D Γ M) :=
  match s.pc i with
  | .idle =>
    if (s.queue.pc i).isIdle then some { s with pc := Function.update s.pc i .lock } else none
  | .lock =>
    if s.mDispatchLock = none then
      some { s with mDispatchLock := some i, pc := Function.update s.pc i .set }
    else none
  | .set => some { s with mIsDispatching := true, pc := Function.update s.pc i .check }
  | .check =>
    some { s with
      marks := (Queue.checkWatermarks s.queue.impl s.marks).1
      pc := Function.update s.pc i .dispatch }
  | .dispatch => none
  | .dispatching =>
    if (s.queue.pc i).isIdle then some { s with pc := Function.update s.pc i .test } else none
  | .test =>
    some { s with
      pc := Function.update s.pc i (if s.mIsDispatching then .check else .unlock) }
  | .unlock =>
    some { s with
      mDispatchLock := none, pc := Function.update s.pc i .idle, returns := s.returns + 1 }

/-- The thread that moves is waiting for the dispatch lock. -/
def DispatchLoop.awaited (s : DispatchLoop ι C D Γ M) : LoopAct ι C D Γ M → Bool
  | .dispatch i => s.pc i = .lock
  | _ => false

def DispatchLoop.step (s : DispatchLoop ι C D Γ M) (a : LoopAct ι C D Γ M) :
    Option (DispatchLoop ι C D Γ M) :=
  if s.destroyed && !s.awaited a then none
  else
    match a with
    | .dispatch i => s.dispatch i
    | .queue a =>
      match (s.pc a.thread).next a, s.queue.step a with
      | some pc, some queue => some { s with queue, pc := Function.update s.pc a.thread pc }
      | _, _ => none
    -- zmqBridgeMamaQueue_stopDispatch
    | .stop => some { s with mIsDispatching := false, stops := s.stops + 1 }
    -- zmqBridgeMamaQueue_destroy, once it has the lock
    | .destroy => if s.mDispatchLock = none then some { s with destroyed := true } else none

-- ---------------------------------------------------------------------------
-- What one step does
-- ---------------------------------------------------------------------------

/-- **Everything a step can do.** -/
inductive DispatchLoop.Moves (s : DispatchLoop ι C D Γ M) :
    LoopAct ι C D Γ M → DispatchLoop ι C D Γ M → Prop where
  | enter {i : ι} (hPc : s.pc i = .idle) (hIdle : (s.queue.pc i).isIdle = true) :
    s.Moves (.dispatch i) { s with pc := Function.update s.pc i .lock }
  | lock {i : ι} (hPc : s.pc i = .lock) (hFree : s.mDispatchLock = none) :
    s.Moves (.dispatch i) { s with
      mDispatchLock := some i, pc := Function.update s.pc i .set }
  | set {i : ι} (hPc : s.pc i = .set) :
    s.Moves (.dispatch i) { s with
      mIsDispatching := true, pc := Function.update s.pc i .check }
  | check {i : ι} (hPc : s.pc i = .check) :
    s.Moves (.dispatch i) { s with
      marks := (Queue.checkWatermarks s.queue.impl s.marks).1
      pc := Function.update s.pc i .dispatch }
  | ran {i : ι} (hPc : s.pc i = .dispatching) (hIdle : (s.queue.pc i).isIdle = true) :
    s.Moves (.dispatch i) { s with pc := Function.update s.pc i .test }
  | again {i : ι} (hPc : s.pc i = .test) (hFlag : s.mIsDispatching = true) :
    s.Moves (.dispatch i) { s with pc := Function.update s.pc i .check }
  | ends {i : ι} (hPc : s.pc i = .test) (hFlag : s.mIsDispatching = false) :
    s.Moves (.dispatch i) { s with pc := Function.update s.pc i .unlock }
  | unlock {i : ι} (hPc : s.pc i = .unlock) :
    s.Moves (.dispatch i) { s with
      mDispatchLock := none, pc := Function.update s.pc i .idle, returns := s.returns + 1 }
  | queue {a : SharedAct ι C D Γ M} {pc : LoopPc} {queue : SharedQueue ι C D Γ M}
      (hPc : (s.pc a.thread).next a = some pc) (hQueue : s.queue.step a = some queue) :
    s.Moves (.queue a) { s with queue, pc := Function.update s.pc a.thread pc }
  | stop : s.Moves .stop { s with mIsDispatching := false, stops := s.stops + 1 }
  | destroy (hFree : s.mDispatchLock = none) : s.Moves .destroy { s with destroyed := true }

variable {s s' : DispatchLoop ι C D Γ M} {a : LoopAct ι C D Γ M}

theorem DispatchLoop.moves_of_dispatch {i : ι} (h : s.dispatch i = some s') :
    s.Moves (.dispatch i) s' := by
  unfold DispatchLoop.dispatch at h
  split at h
  · rename_i hPc
    split at h
    · rename_i hIdle
      cases h
      exact .enter hPc hIdle
    · cases h
  · rename_i hPc
    split at h
    · rename_i hFree
      cases h
      exact .lock hPc hFree
    · cases h
  · rename_i hPc
    cases h
    exact .set hPc
  · rename_i hPc
    cases h
    exact .check hPc
  · cases h
  · rename_i hPc
    split at h
    · rename_i hIdle
      cases h
      exact .ran hPc hIdle
    · cases h
  · rename_i hPc
    split at h
    · rename_i hFlag
      cases h
      exact .again hPc hFlag
    · rename_i hFlag
      cases h
      exact .ends hPc (Bool.eq_false_of_not_eq_true hFlag)
  · rename_i hPc
    cases h
    exact .unlock hPc

theorem DispatchLoop.moves_of_step (h : s.step a = some s') :
    (s.destroyed = true → s.awaited a = true) ∧ s.Moves a s' := by
  unfold DispatchLoop.step at h
  split at h
  · cases h
  rename_i hAlive
  refine ⟨fun hGone => by simpa [hGone] using hAlive, ?_⟩
  cases a with
  | dispatch i => exact DispatchLoop.moves_of_dispatch h
  | queue a =>
    dsimp only at h
    split at h
    · rename_i pc queue hPc hQueue
      cases h
      exact .queue hPc hQueue
    · cases h
  | stop =>
    cases h
    exact .stop
  | destroy =>
    dsimp only at h
    split at h
    · rename_i hFree
      cases h
      exact .destroy hFree
    · cases h

theorem DispatchLoop.Locked.step (hs : s.Locked) (h : s.step a = some s') : s'.Locked := by
  obtain ⟨hLate, hMove⟩ := DispatchLoop.moves_of_step h
  have hMoved {i : ι} {p : LoopPc} (hp : p.inside = (s.pc i).inside) :
      Held LoopPc.inside s.mDispatchLock (Function.update s.pc i p) := hs.held.move hp
  -- a thread at another place than the lock only moves while the queue is there
  have hGone {i : ι} {p : LoopPc} (hPc : s.pc i = p) (hp : p ≠ .lock) (ha : a = .dispatch i)
      (hD : s.destroyed = true) {P : Prop} : P := by
    have hLock := hLate hD
    rw [ha, DispatchLoop.awaited, decide_eq_true_eq, hPc] at hLock
    exact absurd hLock hp
  cases hMove with
  | enter hPc _ =>
    exact ⟨hMoved (by rw [hPc]; rfl), fun hD => hGone hPc (by decide) rfl hD⟩
  | @lock i hPc hFree =>
    refine ⟨Held.acquire (hFree ▸ hs.held) rfl, fun _ j hj => ?_⟩
    by_cases hji : j = i
    · rw [hji]
      exact Function.update_self ..
    · have hOut := Held.of_free (hFree ▸ hs.held) j
      simp only [Function.update_of_ne hji] at hj
      exact absurd (hOut.symm.trans hj) Bool.false_ne_true
  | set hPc =>
    exact ⟨hMoved (by rw [hPc]; rfl), fun hD => hGone hPc (by decide) rfl hD⟩
  | check hPc =>
    exact ⟨hMoved (by rw [hPc]; rfl), fun hD => hGone hPc (by decide) rfl hD⟩
  | ran hPc _ =>
    exact ⟨hMoved (by rw [hPc]; rfl), fun hD => hGone hPc (by decide) rfl hD⟩
  | again hPc _ =>
    exact ⟨hMoved (by rw [hPc]; rfl), fun hD => hGone hPc (by decide) rfl hD⟩
  | ends hPc _ =>
    exact ⟨hMoved (by rw [hPc]; rfl), fun hD => hGone hPc (by decide) rfl hD⟩
  | unlock hPc =>
    exact ⟨hs.held.release (by rw [hPc]; rfl) rfl, fun hD => hGone hPc (by decide) rfl hD⟩
  | queue hPc _ =>
    exact ⟨hMoved (LoopPc.inside_next hPc), fun hD => absurd (hLate hD) Bool.false_ne_true⟩
  | stop => exact ⟨hs.held, hs.destroyed⟩
  | destroy hFree =>
    refine ⟨hs.held, fun _ i hi => ?_⟩
    have hOut := Held.of_free (hFree ▸ hs.held) i
    exact absurd (hOut.symm.trans hi) Bool.false_ne_true

theorem DispatchLoop.locked_run {impl : UQueueImpl C D Γ M} {as : List (LoopAct ι C D Γ M)}
    (hRun : run DispatchLoop.step (.init impl) as = some s) : s.Locked :=
  run_invariant (J := DispatchLoop.Locked) (fun _ _ _ hs h => hs.step h)
    (DispatchLoop.locked_init impl) hRun

/-- Nobody is waiting for the lock when `destroy` has it. -/
def DispatchLoop.Unawaited (s : DispatchLoop ι C D Γ M) : LoopAct ι C D Γ M → Prop
  | .destroy => ∀ i, s.pc i ≠ .lock
  | _ => True

/-- After such a `destroy` nobody is in the loop, or on the way there. -/
def DispatchLoop.Deserted (s : DispatchLoop ι C D Γ M) : Prop :=
  s.destroyed = true → ∀ i, s.pc i ≠ .lock ∧ (s.pc i).inside = false

theorem DispatchLoop.Deserted.step (hs : s.Deserted) (hLocked : s.Locked)
    (hOk : s.Unawaited a) (h : s.step a = some s') : s'.Deserted := by
  obtain ⟨hLate, hMove⟩ := DispatchLoop.moves_of_step h
  have hAlive : s.destroyed = false := by
    by_contra hGone
    have hD := Bool.eq_true_of_not_eq_false hGone
    cases a with
    | dispatch i => exact (hs hD i).1 (of_decide_eq_true (hLate hD))
    | queue a => exact absurd (hLate hD) Bool.false_ne_true
    | stop => exact absurd (hLate hD) Bool.false_ne_true
    | destroy => exact absurd (hLate hD) Bool.false_ne_true
  have hNever (hD : s.destroyed = true) (P : Prop) : P :=
    absurd (hAlive.symm.trans hD) Bool.false_ne_true
  cases hMove with
  | destroy hFree => exact fun _ i => ⟨hOk i, Held.of_free (hFree ▸ hLocked.held) i⟩
  | _ => exact fun hD => hNever hD _

end Step

/-- A thread waits for the lock when the queue is destroyed, and enters the loop. -/
example : ∃ s, run DispatchLoop.step (DispatchLoop.init smallQueue)
    [.dispatch false, .destroy, .dispatch false] = some s ∧ s.destroyed = true ∧
      (s.pc false).inside = true :=
  ⟨_, rfl, rfl, rfl⟩

-- ---------------------------------------------------------------------------
-- Callbacks in order
-- ---------------------------------------------------------------------------

/-- The event queue is only dispatched in the loop. -/
def DispatchLoop.InLoop (s : DispatchLoop ι C D Γ M) : LoopAct ι C D Γ M → Prop
  | .queue (.wait i) => s.pc i = .dispatch
  | _ => True

/-- `d` is the callback that is still to be called, by the one thread that is in
`uQueue_dispatchInt`. -/
structure SharedQueue.Due (q : SharedQueue ι C D Γ M) (d : List (UQCall C D Γ M)) :
    Prop where
  calls : q.calls.map Prod.snd ++ d = (q.removed.map Prod.snd).filterMap UQEntry.call
  busy : ∀ i, (q.pc i).isIdle = false → (q.pc i).due = d
  quiet : (∀ i, (q.pc i).isIdle = true) → d = []

/-- What the loop adds to the invariants of the event queue, when nobody dispatches
outside it. -/
structure DispatchLoop.Serial (s : DispatchLoop ι C D Γ M) : Prop where
  locked : s.Locked
  inv : s.queue.Inv
  busy : ∀ i, (s.queue.pc i).isIdle = false → s.pc i = .dispatching
  order : s.queue.accepted = s.queue.removed.map Prod.snd ++ s.queue.impl.pending
  due : ∃ d, s.queue.Due d

theorem DispatcherPc.due_of_isIdle {pc : DispatcherPc C D Γ M} (h : pc.isIdle = true) :
    pc.due = [] := by
  cases pc with
  | idle => rfl
  | passed => rfl
  | removed call => exact absurd h Bool.false_ne_true

/-- What is due, as seen from a thread that nobody else is busy next to. -/
theorem SharedQueue.Due.eq_of_alone {q : SharedQueue ι C D Γ M} {i : ι}
    {d : List (UQCall C D Γ M)} (h : q.Due d)
    (hAlone : ∀ j, j ≠ i → (q.pc j).isIdle = true) : d = (q.pc i).due := by
  cases hi : (q.pc i).isIdle with
  | false => exact (h.busy i hi).symm
  | true =>
    rw [DispatcherPc.due_of_isIdle hi]
    refine h.quiet fun j => ?_
    by_cases hj : j = i
    · rw [hj, hi]
    · exact hAlone j hj

theorem DispatcherPc.length_due_le (pc : DispatcherPc C D Γ M) : pc.due.length ≤ 1 := by
  cases pc with
  | idle => exact Nat.zero_le _
  | passed => exact Nat.zero_le _
  | removed call => cases call <;> simp [DispatcherPc.due]

/-- There is never more than one. -/
theorem SharedQueue.Due.length_le {q : SharedQueue ι C D Γ M} {d : List (UQCall C D Γ M)}
    (h : q.Due d) : d.length ≤ 1 := by
  by_cases hAll : ∀ i, (q.pc i).isIdle = true
  · rw [h.quiet hAll]
    exact Nat.zero_le _
  · obtain ⟨i, hi⟩ := not_forall.mp hAll
    rw [← h.busy i (Bool.eq_false_of_not_eq_true hi)]
    exact (q.pc i).length_due_le

/-- A thread that is not dispatching is idle as far as the event queue goes. -/
theorem DispatchLoop.Serial.idle_of_pc {s : DispatchLoop ι C D Γ M} (hs : s.Serial) {i : ι}
    (hPc : s.pc i ≠ .dispatching) : (s.queue.pc i).isIdle = true := by
  by_contra hBusy
  exact hPc (hs.busy i (Bool.eq_false_of_not_eq_true hBusy))

theorem DispatchLoop.serial_init {impl : UQueueImpl C D Γ M} {size : Nat}
    (hFresh : Fresh impl size) : (DispatchLoop.init impl : DispatchLoop ι C D Γ M).Serial where
  locked := DispatchLoop.locked_init impl
  inv := SharedQueue.inv_init hFresh
  busy _ hi := absurd hi.symm Bool.false_ne_true
  order := hFresh.pending.symm
  due := ⟨[], rfl, fun _ hi => absurd hi.symm Bool.false_ne_true, fun _ => rfl⟩

section Serial

variable [DecidableEq ι]

/-- With everybody else idle, thread `i` alone decides what is due. -/
theorem SharedQueue.due_of_alone {q : SharedQueue ι C D Γ M} {i : ι}
    (hAlone : ∀ j, j ≠ i → (q.pc j).isIdle = true)
    (hCalls : q.calls.map Prod.snd ++ (q.pc i).due =
      (q.removed.map Prod.snd).filterMap UQEntry.call)
    (hIdle : (q.pc i).isIdle = true → (q.pc i).due = []) : q.Due (q.pc i).due where
  calls := hCalls
  busy j hj := by
    by_cases h : j = i
    · rw [h]
    · exact absurd (hAlone j h) (by simp [hj])
  quiet hAll := hIdle (hAll i)

/-- The steps of `uQueue_dispatchInt` from a wait that succeeds on. -/
def SharedAct.dispatches : SharedAct ι C D Γ M → Bool
  | .enqueue .. | .waitFails _ => false
  | _ => true

/-- A step of the event queue by a thread that, if it dispatches, nobody else is busy
next to. -/
theorem SharedQueue.Moves.due {q q' : SharedQueue ι C D Γ M} {a : SharedAct ι C D Γ M}
    (hMove : q.Moves a q') {d : List (UQCall C D Γ M)} (hDue : q.Due d)
    (hAlone : a.dispatches = true → ∀ j, j ≠ a.thread → (q.pc j).isIdle = true) :
    ∃ d', q'.Due d' := by
  have hNow (hA : a.dispatches = true) : q.calls.map Prod.snd ++ (q.pc a.thread).due =
      (q.removed.map Prod.snd).filterMap UQEntry.call :=
    hDue.eq_of_alone (hAlone hA) ▸ hDue.calls
  -- the state after a step of the thread alone
  have hAt {i : ι} {p : DispatcherPc C D Γ M} {calls : List (ι × UQCall C D Γ M)}
      {removed : List (ι × UQEntry C D Γ M)} {impl : UQueueImpl C D Γ M}
      (hOthers : ∀ j, j ≠ i → (q.pc j).isIdle = true)
      (hCalls : calls.map Prod.snd ++ p.due =
        (removed.map Prod.snd).filterMap UQEntry.call) :
      ∃ d', SharedQueue.Due
        { q with impl, calls, removed, pc := Function.update q.pc i p } d' := by
    refine ⟨_, SharedQueue.due_of_alone (i := i) (fun j hj => ?_) ?_ ?_⟩
    · simpa [Function.update_of_ne hj] using hOthers j hj
    · simpa using hCalls
    · simpa using DispatcherPc.due_of_isIdle
  cases hMove with
  | refused _ => exact ⟨d, hDue⟩
  | accepted _ _ _ _ => exact ⟨d, hDue.calls, hDue.busy, hDue.quiet⟩
  | waitFails => exact ⟨d, hDue⟩
  | wait hPc _ =>
    refine hAt (hAlone rfl) ?_
    simpa [SharedAct.thread, hPc, DispatcherPc.due] using hNow rfl
  | @found i e rest impl hPc _ _ _ _ =>
    refine hAt (hAlone rfl) ?_
    have hCalls := hNow rfl
    simp only [SharedAct.thread, hPc, DispatcherPc.due, List.append_nil] at hCalls
    rw [List.map_append, List.filterMap_append, ← hCalls]
    cases hCall : e.call <;> simp [DispatcherPc.due, hCall]
  | missed hPc _ =>
    refine hAt (hAlone rfl) ?_
    simpa [SharedAct.thread, hPc, DispatcherPc.due] using hNow rfl
  | @call i call hPc =>
    refine hAt (hAlone rfl) ?_
    have hCalls := hNow rfl
    simp only [SharedAct.thread, hPc, DispatcherPc.due] at hCalls
    rw [← hCalls]
    cases call <;> simp [DispatcherPc.due]

/-- Entries leave the list in the order they were accepted in. -/
theorem SharedQueue.Moves.order {q q' : SharedQueue ι C D Γ M} {a : SharedAct ι C D Γ M}
    (hMove : q.Moves a q')
    (hOrder : q.accepted = q.removed.map Prod.snd ++ q.impl.pending) :
    q'.accepted = q'.removed.map Prod.snd ++ q'.impl.pending := by
  cases hMove with
  | refused _ => exact hOrder
  | accepted _ _ hPending _ => simp [hPending, hOrder]
  | wait _ _ => exact hOrder
  | waitFails => exact hOrder
  | found _ hFront _ hPending _ => simp [hPending, hOrder, hFront]
  | missed _ _ => exact hOrder
  | call _ => exact hOrder

/-- Which threads a step of the event queue can make busy. -/
theorem SharedQueue.Moves.busy {q q' : SharedQueue ι C D Γ M} {a : SharedAct ι C D Γ M}
    (hMove : q.Moves a q') {i : ι} (hBusy : (q'.pc i).isIdle = false) :
    (q.pc i).isIdle = false ∨ a = .wait i := by
  have hOf {j : ι} {p : DispatcherPc C D Γ M}
      (h : (Function.update q.pc j p i).isIdle = false) :
      (q.pc i).isIdle = false ∨ (i = j ∧ p.isIdle = false) := by
    by_cases hij : i = j
    · subst hij
      exact Or.inr ⟨rfl, by simpa using h⟩
    · exact Or.inl (by simpa [Function.update_of_ne hij] using h)
  cases hMove with
  | refused _ => exact Or.inl hBusy
  | accepted _ _ _ _ => exact Or.inl hBusy
  | waitFails => exact Or.inl hBusy
  | wait _ _ =>
    rcases hOf hBusy with h | ⟨rfl, -⟩
    · exact Or.inl h
    · exact Or.inr rfl
  | found hPc _ _ _ _ =>
    rcases hOf hBusy with h | ⟨rfl, -⟩
    · exact Or.inl h
    · exact Or.inl (by rw [hPc]; rfl)
  | missed hPc _ =>
    rcases hOf hBusy with h | ⟨rfl, -⟩
    · exact Or.inl h
    · exact Or.inl (by rw [hPc]; rfl)
  | call _ =>
    rcases hOf hBusy with h | ⟨-, hIdle⟩
    · exact Or.inl h
    · exact absurd hIdle (by simp [DispatcherPc.isIdle])

/-- A thread that takes a step of a dispatch is past the wait, or gets past it now. -/
theorem SharedQueue.Moves.thread_busy {q q' : SharedQueue ι C D Γ M}
    {a : SharedAct ι C D Γ M} (hMove : q.Moves a q') (hA : a.dispatches = true) :
    (q.pc a.thread).isIdle = false ∨ a = .wait a.thread := by
  cases hMove with
  | refused _ => exact absurd hA Bool.false_ne_true
  | accepted _ _ _ _ => exact absurd hA Bool.false_ne_true
  | wait _ _ => exact Or.inr rfl
  | waitFails => exact absurd hA Bool.false_ne_true
  | found hPc _ _ _ _ => exact Or.inl (by rw [SharedAct.thread, hPc]; rfl)
  | missed hPc _ => exact Or.inl (by rw [SharedAct.thread, hPc]; rfl)
  | call hPc => exact Or.inl (by rw [SharedAct.thread, hPc]; rfl)

variable {s s' : DispatchLoop ι C D Γ M} {a : LoopAct ι C D Γ M}

/-- A move of one thread in the loop, while the event queue stays as it is. -/
theorem DispatchLoop.Serial.move (hs : s.Serial) (hLocked : s'.Locked)
    (hQueue : s'.queue = s.queue) {i : ι} {p : LoopPc}
    (hPcs : s'.pc = Function.update s.pc i p) (hIdle : (s.queue.pc i).isIdle = true) :
    s'.Serial where
  locked := hLocked
  inv := hQueue ▸ hs.inv
  busy j hj := by
    rw [hQueue] at hj
    rw [hPcs]
    by_cases hji : j = i
    · exact absurd hIdle (by rw [← hji, hj]; exact Bool.false_ne_true)
    · rw [Function.update_of_ne hji]
      exact hs.busy j hj
  order := hQueue ▸ hs.order
  due := hQueue ▸ hs.due

/-- Nobody else is busy next to a thread that dispatches. -/
theorem DispatchLoop.Serial.alone (hs : s.Serial) {a : SharedAct ι C D Γ M}
    {queue : SharedQueue ι C D Γ M} (hMove : s.queue.Moves a queue)
    (hOk : s.InLoop (.queue a)) (hA : a.dispatches = true) :
    ∀ j, j ≠ a.thread → (s.queue.pc j).isIdle = true := by
  have hInside : (s.pc a.thread).inside = true := by
    rcases hMove.thread_busy hA with hBusy | hWait
    · rw [hs.busy _ hBusy]
      rfl
    · rw [hWait] at hOk
      have hPc : s.pc a.thread = .dispatch := hOk
      rw [hPc]
      rfl
  intro j hj
  by_contra hNot
  have hPc := hs.busy j (Bool.eq_false_of_not_eq_true hNot)
  exact hj (hs.locked.held.unique (by rw [hPc]; rfl) hInside)

/-- A step of the event queue. -/
theorem DispatchLoop.Serial.queue (hs : s.Serial) {a : SharedAct ι C D Γ M} {p : LoopPc}
    {queue : SharedQueue ι C D Γ M} (hPc : (s.pc a.thread).next a = some p)
    (hQueue : s.queue.step a = some queue) (hOk : s.InLoop (.queue a))
    (hLocked : DispatchLoop.Locked { s with queue, pc := Function.update s.pc a.thread p }) :
    DispatchLoop.Serial { s with queue, pc := Function.update s.pc a.thread p } where
  locked := hLocked
  inv := hs.inv.step hQueue
  order := (hs.inv.moves hQueue).order hs.order
  busy i hi := by
    have hDispatching : s.pc i = .dispatching ∨ a = .wait i :=
      ((hs.inv.moves hQueue).busy hi).imp_left (hs.busy i)
    show Function.update s.pc a.thread p i = .dispatching
    by_cases hia : i = a.thread
    · subst hia
      rw [Function.update_self]
      refine LoopPc.next_of_busy hPc (hDispatching.imp_right fun hWait => ⟨?_, hWait⟩)
      rw [hWait] at hOk
      exact hOk
    · rw [Function.update_of_ne hia]
      exact hDispatching.resolve_right fun hWait => hia (by rw [hWait]; rfl)
  due := by
    obtain ⟨d, hDue⟩ := hs.due
    have hMove := hs.inv.moves hQueue
    exact hMove.due hDue (hs.alone hMove hOk)

theorem DispatchLoop.Serial.step (hs : s.Serial) (hOk : s.InLoop a)
    (h : s.step a = some s') : s'.Serial := by
  have hLocked := hs.locked.step h
  obtain ⟨-, hMove⟩ := DispatchLoop.moves_of_step h
  have hStay {i : ι} {p : LoopPc} (hPc : s.pc i = p) (hNot : p ≠ .dispatching) :
      (s.queue.pc i).isIdle = true := hs.idle_of_pc (hPc ▸ hNot)
  cases hMove with
  | enter hPc hIdle => exact hs.move hLocked rfl rfl hIdle
  | lock hPc _ => exact hs.move hLocked rfl rfl (hStay hPc (by decide))
  | set hPc => exact hs.move hLocked rfl rfl (hStay hPc (by decide))
  | check hPc => exact hs.move hLocked rfl rfl (hStay hPc (by decide))
  | ran hPc hIdle => exact hs.move hLocked rfl rfl hIdle
  | again hPc _ => exact hs.move hLocked rfl rfl (hStay hPc (by decide))
  | ends hPc _ => exact hs.move hLocked rfl rfl (hStay hPc (by decide))
  | unlock hPc => exact hs.move hLocked rfl rfl (hStay hPc (by decide))
  | queue hPc hQueue => exact hs.queue hPc hQueue hOk hLocked
  | stop => exact ⟨hLocked, hs.inv, hs.busy, hs.order, hs.due⟩
  | destroy _ => exact ⟨hLocked, hs.inv, hs.busy, hs.order, hs.due⟩

/--
**Callbacks run one at a time and in order.** Whatever threads enqueue and whatever
threads call `zmqBridgeMamaQueue_dispatch`, as long as nobody dispatches the queue by other
means: no access of the event queue is invalid, at most one thread is in a callback, and
the callbacks that were called are the first ones of those accepted, in their order, each
once. What is left of them is with the thread that dispatches and on the list.
-/
theorem dispatch_in_order {d : QueueDefaults} {maxSize initialSize growBySize : Fin (2 ^ 32)}
    {semInit callocOk : Bool} {impl : UQueueImpl C D Γ M}
    (hCreate : UQueue.create d (UQueue.allocate d) maxSize initialSize growBySize semInit
      callocOk = .ok (impl, .ok))
    {as : List (LoopAct ι C D Γ M)} {s : DispatchLoop ι C D Γ M}
    (hRun : run DispatchLoop.step (.init impl) as = some s)
    (hInLoop : StepsMeet DispatchLoop.step DispatchLoop.InLoop (.init impl) as) :
    s.queue.faulted = false ∧
    (∀ i j, s.pc i = .dispatching → s.pc j = .dispatching → i = j) ∧
    ∃ due, due.length ≤ 1 ∧ s.queue.accepted.filterMap UQEntry.call =
      s.queue.calls.map Prod.snd ++ due ++ s.queue.impl.pending.filterMap UQEntry.call := by
  have hFresh := fresh_of_create hCreate
  have hs : s.Serial := run_induction_meet (P := fun _ s => s.Serial)
    (DispatchLoop.serial_init hFresh) (fun _ s a s' _ hs hOk h => hs.step hOk h) hRun hInLoop
  obtain ⟨due, hDue⟩ := hs.due
  refine ⟨hs.inv.notFaulted, fun i j hi hj => ?_, due, hDue.length_le, ?_⟩
  · exact hs.locked.held.unique (by rw [hi]; rfl) (by rw [hj]; rfl)
  · rw [hs.order, List.filterMap_append, ← hDue.calls]

end Serial

instance [DecidableEq ι] (s : DispatchLoop ι C D Γ M) (a : LoopAct ι C D Γ M) :
    Decidable (s.InLoop a) :=
  match a with
  | .queue (.wait i) => inferInstanceAs (Decidable (s.pc i = .dispatch))
  | .queue (.enqueue ..) => isTrue trivial
  | .queue (.waitFails _) => isTrue trivial
  | .queue (.remove _) => isTrue trivial
  | .queue (.call _) => isTrue trivial
  | .dispatch _ => isTrue trivial
  | .stop => isTrue trivial
  | .destroy => isTrue trivial

/-- One thread runs an event and is in its callback when the second one calls `dispatch`
and more is enqueued; then the first is stopped. -/
def stopInCallback : List (LoopAct Bool Nat Nat Nat Nat) :=
  [.queue (.enqueue false true (tick 1)), .dispatch false, .dispatch false, .dispatch false,
    .dispatch false, .dispatch true, .queue (.wait false), .queue (.remove false),
    .queue (.call false), .queue (.enqueue false true (note 2)), .stop, .dispatch false]

theorem dispatch_in_order_stopInCallback :
    ∃ s, run DispatchLoop.step (DispatchLoop.init smallQueue) stopInCallback = some s ∧
      s.queue.calls.map Prod.fst = [false] ∧ s.queue.impl.pending = [note 2] ∧
      ∃ due, due.length ≤ 1 ∧ s.queue.accepted.filterMap UQEntry.call =
        s.queue.calls.map Prod.snd ++ due ++
          s.queue.impl.pending.filterMap UQEntry.call := by
  have hCreate : UQueue.create smallDefaults (UQueue.allocate smallDefaults) 3 2 1 true true =
      .ok (smallQueue, .ok) := rfl
  have hRun : run DispatchLoop.step (DispatchLoop.init smallQueue) stopInCallback = some _ := rfl
  exact ⟨_, hRun, rfl, rfl, (dispatch_in_order hCreate hRun
    (stepsMeet_of_meetsAll (by decide +kernel))).2.2⟩

-- ---------------------------------------------------------------------------
-- Stopping
-- ---------------------------------------------------------------------------

/-- The thread has set the flag, and looks at it before it leaves. -/
def LoopPc.looping : LoopPc → Bool
  | .idle | .lock | .set => false
  | _ => true

/-- The waits a thread still makes, once the flag is cleared. -/
def LoopPc.waits : LoopPc → Nat
  | .check | .dispatch => 1
  | _ => 0

/-- The steps of the loop it still takes before it unlocks. -/
def LoopPc.steps : LoopPc → Nat
  | .check => 3
  | .dispatch | .dispatching => 2
  | .test => 1
  | _ => 0

/-- The action is a call of `uQueue_timedDispatch` by thread `i`: a wait that succeeds or
fails. -/
def LoopAct.waitsOf [DecidableEq ι] (i : ι) : LoopAct ι C D Γ M → Bool
  | .queue (.wait j) => j = i
  | .queue (.waitFails j) => j = i
  | _ => false

/-- The action is a step of the loop by thread `i`. -/
def LoopAct.stepsOf [DecidableEq ι] (i : ι) : LoopAct ι C D Γ M → Bool
  | .dispatch j => j = i
  | _ => false

/-- The call of thread `i` does not return yet. -/
def DispatchLoop.Stays [DecidableEq ι] (i : ι) (s : DispatchLoop ι C D Γ M)
    (a : LoopAct ι C D Γ M) : Prop :=
  s.pc i = .unlock → a.stepsOf i = false

/-- The flag is cleared under a thread in the loop. -/
structure DispatchLoop.Ending (s : DispatchLoop ι C D Γ M) (i : ι) : Prop where
  locked : s.Locked
  looping : (s.pc i).looping = true
  flag : s.mIsDispatching = false

theorem LoopPc.inside_of_looping {pc : LoopPc} (h : pc.looping = true) : pc.inside = true := by
  cases pc <;> first | rfl | exact absurd h Bool.false_ne_true

theorem LoopPc.looping_next {pc p : LoopPc} {a : SharedAct ι C D Γ M}
    (h : pc.next a = some p) : p.looping = pc.looping := by
  cases pc <;> cases a <;> simp [LoopPc.next] at h <;> rw [← h] <;> rfl

/-- A wait is for threads outside the loop and for those at `uQueue_timedDispatch`. -/
theorem LoopPc.next_of_wait {pc p : LoopPc} {a : SharedAct ι C D Γ M} {i : ι}
    (h : pc.next a = some p) (ha : a = .wait i) : p = .idle ∨ p = .dispatching := by
  subst ha
  cases pc <;> simp [LoopPc.next] at h <;> simp [← h]

theorem DispatchLoop.Ending.alive {s : DispatchLoop ι C D Γ M} {i : ι}
    (hs : s.Ending i) : s.destroyed = false := by
  have hLooping := hs.looping
  by_contra hD
  rw [hs.locked.destroyed (Bool.eq_true_of_not_eq_false hD) i
    (LoopPc.inside_of_looping hLooping)] at hLooping
  exact Bool.false_ne_true hLooping

/-- A thread in the loop is inside the event queue only while it is `dispatching`. -/
structure DispatchLoop.Apart (s : DispatchLoop ι C D Γ M) : Prop where
  inv : s.queue.Inv
  busy : ∀ i, (s.queue.pc i).isIdle = false → s.pc i = .idle ∨ s.pc i = .dispatching

theorem DispatchLoop.Apart.idle_of_pc {s : DispatchLoop ι C D Γ M} (hs : s.Apart) {i : ι}
    {p : LoopPc} (hPc : s.pc i = p) (hIdle : p ≠ .idle) (hDispatching : p ≠ .dispatching) :
    (s.queue.pc i).isIdle = true := by
  by_contra hBusy
  rcases hs.busy i (Bool.eq_false_of_not_eq_true hBusy) with h | h
  · exact hIdle (hPc.symm.trans h)
  · exact hDispatching (hPc.symm.trans h)

section Stop

variable [DecidableEq ι] {s s' : DispatchLoop ι C D Γ M} {a : LoopAct ι C D Γ M} {i : ι}

/-- A step of thread `i` takes from what it still has to do, any other step leaves it. -/
structure DispatchLoop.Advances (i : ι) (a : LoopAct ι C D Γ M) (pc pc' : LoopPc) : Prop where
  waits : (if a.waitsOf i then 1 else 0) + pc'.waits ≤ pc.waits
  steps : (if a.stepsOf i then 1 else 0) + pc'.steps ≤ pc.steps

/-- The step of another thread. -/
theorem DispatchLoop.advances_of_other (pc : LoopPc) (hWaits : a.waitsOf i = false)
    (hSteps : a.stepsOf i = false) : DispatchLoop.Advances i a pc pc := by
  refine ⟨?_, ?_⟩
  · rw [hWaits, if_neg Bool.false_ne_true, Nat.zero_add]
  · rw [hSteps, if_neg Bool.false_ne_true, Nat.zero_add]

/-- A step of the event queue, made in the loop. -/
theorem LoopPc.advances_next {pc p : LoopPc} {a : SharedAct ι C D Γ M}
    (h : pc.next a = some p) (hLooping : pc.looping = true) :
    DispatchLoop.Advances a.thread (.queue a) pc p := by
  cases pc <;> cases a <;> simp [LoopPc.next, LoopPc.looping] at h hLooping <;> subst h <;>
    constructor <;> simp [LoopAct.waitsOf, LoopAct.stepsOf, SharedAct.thread, LoopPc.waits,
      LoopPc.steps]

theorem SharedAct.waitsOf_of_ne {a : SharedAct ι C D Γ M} (h : a.thread ≠ i) :
    (LoopAct.queue a).waitsOf i = false := by
  cases a <;> simp_all [LoopAct.waitsOf, SharedAct.thread]

/-- **The flag stays cleared until the thread has left**, since nobody else gets to set
it. -/
theorem DispatchLoop.Ending.step (hs : s.Ending i) (h : s.step a = some s')
    (hStays : s.Stays i a) :
    s'.Ending i ∧ DispatchLoop.Advances i a (s.pc i) (s'.pc i) := by
  have hLocked := hs.locked.step h
  obtain ⟨-, hMove⟩ := DispatchLoop.moves_of_step h
  -- another thread moves, and the flag is left alone
  have hOther {j : ι} {p : LoopPc} (hj : j ≠ i) (hPcs : s'.pc = Function.update s.pc j p)
      (hFlag : s'.mIsDispatching = s.mIsDispatching) (ha : a = .dispatch j) :
      s'.Ending i ∧ DispatchLoop.Advances i a (s.pc i) (s'.pc i) := by
    have hPc : s'.pc i = s.pc i := by rw [hPcs, Function.update_of_ne (Ne.symm hj)]
    rw [hPc]
    refine ⟨⟨hLocked, hPc ▸ hs.looping, hFlag.trans hs.flag⟩, ?_⟩
    refine DispatchLoop.advances_of_other _ ?_ ?_ <;> simp [ha, LoopAct.waitsOf,
      LoopAct.stepsOf, hj]
  -- thread `i` itself moves
  have hSelf {j : ι} {q p : LoopPc} (hj : j = i) (hPc : s.pc j = q)
      (hPcs : s'.pc = Function.update s.pc j p)
      (hFlag : s'.mIsDispatching = s.mIsDispatching)
      (hAdv : DispatchLoop.Advances i a q p) (hLooping : p.looping = true) :
      s'.Ending i ∧ DispatchLoop.Advances i a (s.pc i) (s'.pc i) := by
    subst hj
    have hPc' : s'.pc j = p := by rw [hPcs, Function.update_self]
    rw [hPc', hPc]
    exact ⟨⟨hLocked, hPc' ▸ hLooping, hFlag.trans hs.flag⟩, hAdv⟩
  have hNot {j : ι} {q : LoopPc} (hPc : s.pc j = q) (hq : q.looping = false) : j ≠ i := by
    rintro rfl
    have hLooping := hs.looping
    rw [hPc, hq] at hLooping
    exact Bool.false_ne_true hLooping
  cases hMove with
  | enter hPc _ => exact hOther (hNot hPc rfl) rfl rfl rfl
  | lock hPc _ => exact hOther (hNot hPc rfl) rfl rfl rfl
  | @set j hPc =>
    have hIn : (s.pc j).inside = true := by rw [hPc]; rfl
    exact absurd (hs.locked.held.unique hIn (LoopPc.inside_of_looping hs.looping))
      (hNot hPc rfl)
  | @check j hPc =>
    by_cases hj : j = i
    · exact hSelf hj hPc rfl rfl ⟨by simp [LoopAct.waitsOf, LoopPc.waits],
        by simp [LoopAct.stepsOf, hj, LoopPc.steps]⟩ rfl
    · exact hOther hj rfl rfl rfl
  | @ran j hPc _ =>
    by_cases hj : j = i
    · exact hSelf hj hPc rfl rfl ⟨by simp [LoopAct.waitsOf, LoopPc.waits],
        by simp [LoopAct.stepsOf, hj, LoopPc.steps]⟩ rfl
    · exact hOther hj rfl rfl rfl
  | again hPc hFlag => exact absurd (hs.flag.symm.trans hFlag) Bool.false_ne_true
  | @ends j hPc _ =>
    by_cases hj : j = i
    · exact hSelf hj hPc rfl rfl ⟨by simp [LoopAct.waitsOf, LoopPc.waits],
        by simp [LoopAct.stepsOf, hj, LoopPc.steps]⟩ rfl
    · exact hOther hj rfl rfl rfl
  | @unlock j hPc =>
    by_cases hj : j = i
    · have hLeft := hStays (hj ▸ hPc)
      rw [LoopAct.stepsOf, decide_eq_false_iff_not] at hLeft
      exact absurd hj hLeft
    · exact hOther hj rfl rfl rfl
  | @queue b p queue hPc _ =>
    by_cases hb : b.thread = i
    · have hLooping : (s.pc b.thread).looping = true := hb ▸ hs.looping
      exact hSelf hb rfl rfl rfl (hb ▸ LoopPc.advances_next hPc hLooping)
        ((LoopPc.looping_next hPc).trans hLooping)
    · have hPc' : Function.update s.pc b.thread p i = s.pc i :=
        Function.update_of_ne (Ne.symm hb) ..
      refine ⟨⟨hLocked, (congrArg LoopPc.looping hPc').trans hs.looping, hs.flag⟩, ?_⟩
      show DispatchLoop.Advances i (.queue b) (s.pc i) (Function.update s.pc b.thread p i)
      rw [hPc']
      exact DispatchLoop.advances_of_other _ (SharedAct.waitsOf_of_ne hb) rfl
  | stop => exact ⟨⟨hLocked, hs.looping, rfl⟩, DispatchLoop.advances_of_other _ rfl rfl⟩
  | destroy hFree =>
    have hOwner := (hs.locked.held i).mp (LoopPc.inside_of_looping hs.looping)
    exact absurd (hFree.symm.trans hOwner) (by simp)

/-- Clearing the flag under a thread in the loop. -/
theorem DispatchLoop.Locked.ending (hs : s.Locked) (h : s.step .stop = some s')
    (hLooping : (s.pc i).looping = true) : s'.Ending i ∧ s'.pc = s.pc := by
  have hLocked := hs.step h
  obtain ⟨-, hMove⟩ := DispatchLoop.moves_of_step h
  cases hMove with
  | stop => exact ⟨⟨hLocked, hLooping, rfl⟩, rfl⟩

/-- The steps of a whole run come out of what there was to do at its start. -/
theorem DispatchLoop.Ending.run (hs : s.Ending i) {as : List (LoopAct ι C D Γ M)}
    {t : DispatchLoop ι C D Γ M} (hRun : run DispatchLoop.step s as = some t)
    (hStays : StepsMeet DispatchLoop.step (DispatchLoop.Stays i) s as) :
    t.Ending i ∧ as.countP (·.waitsOf i) + (t.pc i).waits ≤ (s.pc i).waits ∧
      as.countP (·.stepsOf i) + (t.pc i).steps ≤ (s.pc i).steps := by
  refine run_induction_meet (P := fun as t => t.Ending i ∧
      as.countP (·.waitsOf i) + (t.pc i).waits ≤ (s.pc i).waits ∧
      as.countP (·.stepsOf i) + (t.pc i).steps ≤ (s.pc i).steps) ?_ ?_ hRun hStays
  · exact ⟨hs, by simp, by simp⟩
  · rintro as u a u' - ⟨hu, hWaits, hSteps⟩ hStay ha
    obtain ⟨hu', hAdv⟩ := hu.step ha hStay
    have hWait := hAdv.waits
    have hStep := hAdv.steps
    rw [List.countP_append, List.countP_append, List.countP_singleton, List.countP_singleton]
    exact ⟨hu', by omega, by omega⟩

/-- A thread that is not inside the event queue goes anywhere. -/
theorem DispatchLoop.Apart.move (hs : s.Apart) (hQueue : s'.queue = s.queue) {p : LoopPc}
    (hPcs : s'.pc = Function.update s.pc i p) (hIdle : (s.queue.pc i).isIdle = true) :
    s'.Apart where
  inv := hQueue ▸ hs.inv
  busy j hj := by
    rw [hQueue] at hj
    rw [hPcs]
    by_cases hji : j = i
    · exact absurd hIdle (by rw [← hji, hj]; exact Bool.false_ne_true)
    · rw [Function.update_of_ne hji]
      exact hs.busy j hj

theorem DispatchLoop.Apart.queue (hs : s.Apart) {a : SharedAct ι C D Γ M} {p : LoopPc}
    {queue : SharedQueue ι C D Γ M} (hPc : (s.pc a.thread).next a = some p)
    (hQueue : s.queue.step a = some queue) :
    DispatchLoop.Apart { s with queue, pc := Function.update s.pc a.thread p } where
  inv := hs.inv.step hQueue
  busy j hj := by
    show Function.update s.pc a.thread p j = .idle ∨ Function.update s.pc a.thread p j = _
    have hBusy := (hs.inv.moves hQueue).busy hj
    by_cases hja : j = a.thread
    · subst hja
      rw [Function.update_self]
      rcases hBusy with hOld | hWait
      · rcases hs.busy _ hOld with h | h
        · rw [h] at hPc
          exact Or.inl (Option.some.inj hPc).symm
        · exact Or.inr (LoopPc.next_of_busy hPc (Or.inl h))
      · exact LoopPc.next_of_wait hPc hWait
    · rw [Function.update_of_ne hja]
      refine hs.busy j (hBusy.resolve_right fun hWait => hja ?_)
      rw [hWait]
      rfl

theorem DispatchLoop.Apart.step (hs : s.Apart) (h : s.step a = some s') : s'.Apart := by
  obtain ⟨-, hMove⟩ := DispatchLoop.moves_of_step h
  cases hMove with
  | enter _ hIdle => exact hs.move rfl rfl hIdle
  | lock hPc _ => exact hs.move rfl rfl (hs.idle_of_pc hPc (by decide) (by decide))
  | set hPc => exact hs.move rfl rfl (hs.idle_of_pc hPc (by decide) (by decide))
  | check hPc => exact hs.move rfl rfl (hs.idle_of_pc hPc (by decide) (by decide))
  | ran _ hIdle => exact hs.move rfl rfl hIdle
  | again hPc _ => exact hs.move rfl rfl (hs.idle_of_pc hPc (by decide) (by decide))
  | ends hPc _ => exact hs.move rfl rfl (hs.idle_of_pc hPc (by decide) (by decide))
  | unlock hPc => exact hs.move rfl rfl (hs.idle_of_pc hPc (by decide) (by decide))
  | queue hPc hQueue => exact hs.queue hPc hQueue
  | stop => exact ⟨hs.inv, hs.busy⟩
  | destroy _ => exact ⟨hs.inv, hs.busy⟩

/-- The action is made by thread `i`. -/
def LoopAct.isOf (i : ι) : LoopAct ι C D Γ M → Bool
  | .dispatch j => j = i
  | .queue a => a.thread = i
  | _ => false

/-- **A thread in the loop is never stuck**: the wait can always time out, and nothing
else in the loop blocks. -/
theorem DispatchLoop.Apart.enabled (hs : s.Apart) (hAlive : s.destroyed = false)
    (hLooping : (s.pc i).looping = true) :
    ∃ a : LoopAct ι C D Γ M, a.isOf i = true ∧ (s.step a).isSome = true := by
  have hDispatch (h : (s.dispatch i).isSome = true) :
      ∃ a : LoopAct ι C D Γ M, a.isOf i = true ∧ (s.step a).isSome = true :=
    ⟨.dispatch i, by simp [LoopAct.isOf], by simpa [DispatchLoop.step, hAlive] using h⟩
  cases hPc : s.pc i with
  | idle | lock | set => rw [hPc] at hLooping; exact absurd hLooping Bool.false_ne_true
  | check | test | unlock => exact hDispatch (by simp [DispatchLoop.dispatch, hPc])
  | dispatch =>
    have hIdle := hs.idle_of_pc hPc (by decide) (by decide)
    refine ⟨.queue (.waitFails i), by simp [LoopAct.isOf, SharedAct.thread], ?_⟩
    cases hQueue : s.queue.pc i with
    | idle => simp [DispatchLoop.step, hAlive, SharedAct.thread, hPc, LoopPc.next,
        SharedQueue.step, hQueue]
    | passed | removed => rw [hQueue] at hIdle; exact absurd hIdle Bool.false_ne_true
  | dispatching =>
    cases hQueue : s.queue.pc i with
    | idle => exact hDispatch (by simp [DispatchLoop.dispatch, hPc, hQueue,
        DispatcherPc.isIdle])
    | passed =>
      refine ⟨.queue (.remove i), by simp [LoopAct.isOf, SharedAct.thread], ?_⟩
      cases hInt : UQueue.dispatchInt s.queue.impl <;>
        simp [DispatchLoop.step, hAlive, SharedAct.thread, hPc, LoopPc.next, SharedQueue.step,
          hQueue, hInt]
    | removed call =>
      refine ⟨.queue (.call i), by simp [LoopAct.isOf, SharedAct.thread], ?_⟩
      simp [DispatchLoop.step, hAlive, SharedAct.thread, hPc, LoopPc.next, SharedQueue.step,
        hQueue]

/--
**A stop ends the loop.** Let thread `i` be in the loop of `zmqBridgeMamaQueue_dispatch` when
`stopDispatch` is called, in any run. From then on and until its call returns, whatever the
other threads do, it waits for an event at most once more, takes at most three steps of the
loop before it unlocks, and is never blocked; and nobody sets the flag again.
-/
theorem stop_ends_loop {d : QueueDefaults} {maxSize initialSize growBySize : Fin (2 ^ 32)}
    {semInit callocOk : Bool} {impl : UQueueImpl C D Γ M}
    (hCreate : UQueue.create d (UQueue.allocate d) maxSize initialSize growBySize semInit
      callocOk = .ok (impl, .ok))
    {pre post : List (LoopAct ι C D Γ M)} {t : DispatchLoop ι C D Γ M}
    (hPre : Lib.run DispatchLoop.step (.init impl) pre = some s)
    (hLooping : (s.pc i).looping = true) (hStop : s.step .stop = some s')
    (hPost : Lib.run DispatchLoop.step s' post = some t)
    (hStays : StepsMeet DispatchLoop.step (DispatchLoop.Stays i) s' post) :
    t.mIsDispatching = false ∧
    post.countP (·.waitsOf i) ≤ (s.pc i).waits ∧ (s.pc i).waits ≤ 1 ∧
    post.countP (·.stepsOf i) ≤ (s.pc i).steps ∧ (s.pc i).steps ≤ 3 ∧
    ∃ a : LoopAct ι C D Γ M, a.isOf i = true ∧ (t.step a).isSome = true := by
  obtain ⟨hEnding, hPc⟩ := (DispatchLoop.locked_run hPre).ending hStop hLooping
  obtain ⟨ht, hWaits, hSteps⟩ := hEnding.run hPost hStays
  have hApart : (DispatchLoop.init impl : DispatchLoop ι C D Γ M).Apart :=
    ⟨SharedQueue.inv_init (fresh_of_create hCreate),
      fun _ hi => absurd hi.symm Bool.false_ne_true⟩
  have hKept {u v : DispatchLoop ι C D Γ M} {as : List (LoopAct ι C D Γ M)} (hu : u.Apart)
      (hRun : Lib.run DispatchLoop.step u as = some v) : v.Apart :=
    run_invariant (J := DispatchLoop.Apart) (fun _ _ _ hs h => hs.step h) hu hRun
  rw [hPc] at hWaits hSteps
  refine ⟨ht.flag, by omega, ?_, by omega, ?_, ?_⟩
  · cases s.pc i <;> decide
  · cases s.pc i <;> decide
  · exact (hKept ((hKept hApart hPre).step hStop) hPost).enabled ht.alive ht.looping

end Stop

instance [DecidableEq ι] (i : ι) (s : DispatchLoop ι C D Γ M) (a : LoopAct ι C D Γ M) :
    Decidable (s.Stays i a) :=
  inferInstanceAs (Decidable (_ → _))

/-- The thread is stopped in its callback, and then only the flag is left to look at. -/
theorem stop_ends_loop_inCallback :
    ∃ s s' t, run DispatchLoop.step (DispatchLoop.init smallQueue) (stopInCallback.take 9) =
        some s ∧ s.step .stop = some s' ∧
      run DispatchLoop.step s' [.queue (.enqueue false true (note 2)), .dispatch false,
        .dispatch false] = some t ∧
      t.pc false = .unlock ∧ t.mIsDispatching = false ∧
      ∃ a : LoopAct Bool Nat Nat Nat Nat, a.isOf false = true ∧ (t.step a).isSome = true := by
  have hCreate : UQueue.create smallDefaults (UQueue.allocate smallDefaults) 3 2 1 true true =
      .ok (smallQueue, .ok) := rfl
  have hPre : run DispatchLoop.step (DispatchLoop.init smallQueue) (stopInCallback.take 9) =
    some _ := rfl
  refine ⟨_, _, _, hPre, rfl, rfl, rfl, rfl, ?_⟩
  exact (stop_ends_loop (i := false) hCreate hPre rfl rfl
    (show run DispatchLoop.step _ [.queue (.enqueue false true (note 2)), .dispatch false,
      .dispatch false] = some _ from rfl)
    (stepsMeet_of_meetsAll (by decide +kernel))).2.2.2.2.2

-- ---------------------------------------------------------------------------
-- How many stops it takes
-- ---------------------------------------------------------------------------

/-- The thread will leave the loop, or has left it, as far as the flag is concerned. -/
def LoopPc.leaving (flag : Bool) : LoopPc → Bool
  | .unlock => true
  | pc => pc.looping && !flag

theorem LoopPc.leaving_of_looping {pc : LoopPc} (h : pc.looping = true) :
    pc.leaving false = true := by
  cases pc <;> first | rfl | exact absurd h Bool.false_ne_true

theorem LoopPc.looping_of_leaving {pc : LoopPc} {flag : Bool} (h : pc.leaving flag = true) :
    pc.looping = true := by
  cases pc <;> first | rfl | exact absurd h Bool.false_ne_true

theorem LoopPc.leaving_next {pc p : LoopPc} {a : SharedAct ι C D Γ M}
    (h : pc.next a = some p) (flag : Bool) : p.leaving flag = pc.leaving flag := by
  cases pc <;> cases a <;> simp [LoopPc.next] at h <;> rw [← h] <;> rfl

/-- Calls that return are covered by stops, and one stop is left over for a thread that is
about to. -/
structure DispatchLoop.Covered (s : DispatchLoop ι C D Γ M) : Prop where
  locked : s.Locked
  returns : s.returns ≤ s.stops
  leaving : ∀ i, (s.pc i).leaving s.mIsDispatching = true → s.returns + 1 ≤ s.stops

theorem DispatchLoop.covered_init (impl : UQueueImpl C D Γ M) :
    (DispatchLoop.init impl : DispatchLoop ι C D Γ M).Covered :=
  ⟨DispatchLoop.locked_init impl, Nat.le_refl _, fun _ h => absurd h Bool.false_ne_true⟩

section Covered

variable [DecidableEq ι] {s s' : DispatchLoop ι C D Γ M} {a : LoopAct ι C D Γ M} {i : ι}

/-- A thread moves, and does not get any closer to leaving. -/
theorem DispatchLoop.Covered.move (hs : s.Covered) (hLocked : s'.Locked) {p : LoopPc}
    (hPcs : s'.pc = Function.update s.pc i p) (hReturns : s'.returns = s.returns)
    (hStops : s'.stops = s.stops)
    (hOthers : ∀ j, j ≠ i → (s.pc j).leaving s'.mIsDispatching = true →
      (s.pc j).leaving s.mIsDispatching = true)
    (hp : p.leaving s'.mIsDispatching = true → (s.pc i).leaving s.mIsDispatching = true) :
    s'.Covered where
  locked := hLocked
  returns := by rw [hReturns, hStops]; exact hs.returns
  leaving j hj := by
    rw [hReturns, hStops]
    rw [hPcs] at hj
    by_cases hji : j = i
    · rw [hji, Function.update_self] at hj
      exact hs.leaving i (hp hj)
    · rw [Function.update_of_ne hji] at hj
      exact hs.leaving j (hOthers j hji hj)

theorem DispatchLoop.Covered.step (hs : s.Covered) (h : s.step a = some s') : s'.Covered := by
  have hLocked := hs.locked.step h
  obtain ⟨-, hMove⟩ := DispatchLoop.moves_of_step h
  cases hMove with
  | enter hPc _ => exact hs.move hLocked rfl rfl rfl (fun _ _ => id) nofun
  | lock hPc _ => exact hs.move hLocked rfl rfl rfl (fun _ _ => id) nofun
  | @set i hPc =>
    refine hs.move hLocked rfl rfl rfl (fun j hj hLeaving => ?_) nofun
    -- nobody else is in the loop
    have hIn := LoopPc.inside_of_looping (LoopPc.looping_of_leaving hLeaving)
    exact absurd (hs.locked.held.unique hIn (by rw [hPc]; rfl)) hj
  | check hPc => exact hs.move hLocked rfl rfl rfl (fun _ _ => id) (by rw [hPc]; exact id)
  | ran hPc _ => exact hs.move hLocked rfl rfl rfl (fun _ _ => id) (by rw [hPc]; exact id)
  | again hPc _ => exact hs.move hLocked rfl rfl rfl (fun _ _ => id) (by rw [hPc]; exact id)
  | ends hPc hFlag =>
    refine hs.move hLocked rfl rfl rfl (fun _ _ => id) fun _ => ?_
    rw [hFlag, hPc]
    rfl
  | @unlock i hPc =>
    refine ⟨hLocked, hs.leaving i (by rw [hPc]; rfl), fun j hj => ?_⟩
    by_cases hji : j = i
    · have hIdle : Function.update s.pc i .idle j = .idle := by rw [hji, Function.update_self]
      have hLeaving : (Function.update s.pc i .idle j).leaving s.mIsDispatching = true := hj
      rw [hIdle] at hLeaving
      exact absurd hLeaving Bool.false_ne_true
    · have hIn : (s.pc j).inside = true := LoopPc.inside_of_looping
        (LoopPc.looping_of_leaving (by simpa [Function.update_of_ne hji] using hj))
      exact absurd (hs.locked.held.unique hIn (by rw [hPc]; rfl)) hji
  | queue hPc _ =>
    refine hs.move hLocked rfl rfl rfl (fun _ _ => id) ?_
    rw [LoopPc.leaving_next hPc]
    exact id
  | stop =>
    exact ⟨hLocked, Nat.le_succ_of_le hs.returns, fun _ _ => Nat.succ_le_succ hs.returns⟩
  | destroy _ => exact ⟨hLocked, hs.returns, hs.leaving⟩

/--
**Every call that returns has used up a stop.** In every run `zmqBridgeMamaQueue_dispatch`
has returned at most as often as `stopDispatch` was called, and strictly less often while a
thread is on its way out or has the flag cleared under it. So one stop does not end the calls
of two threads: the second one takes the lock, sets the flag again and needs its own.
-/
theorem stops_needed {impl : UQueueImpl C D Γ M} {as : List (LoopAct ι C D Γ M)}
    (hRun : run DispatchLoop.step (.init impl) as = some s) :
    s.returns ≤ s.stops ∧
    (∀ i, s.pc i = .unlock → s.returns < s.stops) ∧
    (∀ i, (s.pc i).looping = true → s.mIsDispatching = false → s.returns < s.stops) := by
  have hs := run_invariant (J := DispatchLoop.Covered) (fun _ _ _ hs h => hs.step h)
    (DispatchLoop.covered_init impl) hRun
  refine ⟨hs.returns, fun i hPc => ?_, fun i hLooping hFlag => ?_⟩
  · exact hs.leaving i (by rw [hPc]; rfl)
  · refine hs.leaving i ?_
    rw [hFlag]
    exact LoopPc.leaving_of_looping hLooping

end Covered

/-- Two threads call `dispatch`, and there is one stop: the first returns, and the second is
in the loop with the flag set. -/
theorem stops_needed_oneStop :
    ∃ s, run DispatchLoop.step (DispatchLoop.init smallQueue)
        [.dispatch false, .dispatch true, .dispatch false, .dispatch false, .dispatch false,
          .queue (.waitFails false), .stop, .dispatch false, .dispatch false, .dispatch true,
          .dispatch true] = some s ∧
      s.returns = 1 ∧ s.pc true = .check ∧ s.mIsDispatching = true ∧ s.returns ≤ s.stops := by
  have hRun : run DispatchLoop.step (DispatchLoop.init smallQueue)
      [.dispatch false, .dispatch true, .dispatch false, .dispatch false, .dispatch false,
        .queue (.waitFails false), .stop, .dispatch false, .dispatch false, .dispatch true,
        .dispatch true] = some _ := rfl
  exact ⟨_, hRun, rfl, rfl, rfl, (stops_needed hRun).1⟩

end ZmqBridge
