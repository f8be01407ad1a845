import ZmqBridge.Lib.Ledger
import ZmqBridge.Data.World
import ZmqBridge.Queue.Contents

/-!
# ZmqBridge — the copies of received messages

Each record a message is queued for gets a copy of the message, made with
`zmq_msg_copy`. The item that holds the copy goes on the record's queue, and the
callback of the item closes the copy. This module follows the copies through
every interleaving of the dispatch thread, the application and the threads that
run the queues. Copies are numbered in the order in which they are made.

* `copies_balanced_iff` — every copy is held by an item or was closed once, as
  long as messages are only enqueued on queues that take them, and queues are
  only destroyed when no message is left on them;
* `copies_lost`         — an inactive, a full and a destroyed queue.
-/

namespace ZmqBridge

open Lib

variable {ρ : Type}

-- ---------------------------------------------------------------------------
-- Queues that hold copies
-- ---------------------------------------------------------------------------

/-- The callback of an item: one of the transport, or one of the application. -/
inductive QueueCb where
  | transport (callback : Callback)
  | event (id : Nat)
  deriving DecidableEq, Repr

/-- A `zmqTransportMsg` whose `mZmsg` is copy number `copy`. -/
structure CopiedMsg where
  copy : Nat
  tmsg : ZmqTransportMsg

abbrev CopyQueue : Type := ZmqQueueBridge QueueCb Nat Nat CopiedMsg

/-- The copy an entry holds. -/
def copyOf (e : UQEntry QueueCb Nat Nat CopiedMsg) : Option Nat :=
  match e.arg with
  | .msg mMsg => some mMsg.copy
  | .closure _ => none

/-- The copies held by the items of a queue. -/
def copiesOn (b : CopyQueue) : List Nat := b.mQueue.pending.filterMap copyOf

/-- A queue that was destroyed, or could not be created, holds nothing. -/
def copiesIn : Option CopyQueue → List Nat
  | none => []
  | some b => copiesOn b

/-- The copies a call closes: each of the three callbacks of the transport ends
with `exit: zmq_msg_close (&tmsg->mZmsg)`, on every path. -/
def closesOf (call : UQCall QueueCb Nat Nat CopiedMsg) : List Nat :=
  match call.cb, call.arg with
  | .transport _, .msg mMsg => [mMsg.copy]
  | _, _ => []

/-- A message is put on the queue. -/
def TakesMsg (b : CopyQueue) (calloc : Bool) : Prop :=
  b.mIsActive = true ∧ ¬ b.mQueue.Exhausted calloc

/-- The list is in order, and what holds a copy has a callback of the
transport. -/
structure CopyQueueOk (b : CopyQueue) : Prop where
  sound : b.mQueue.Sound
  closing : ∀ e ∈ b.mQueue.pending, (copyOf e).isSome → ∃ cb, e.cb = some (.transport cb)

section Calls

variable {b : CopyQueue} {calloc : Bool}

theorem create_ok {d : QueueDefaults} {parent : Nat} {calloc allocate semInit chunk : Bool}
    {status : MamaStatus}
    (h : Queue.create d parent calloc allocate semInit chunk = .ok (some b, status)) :
    CopyQueueOk b ∧ copiesOn b = [] := by
  simp only [Queue.create] at h
  split at h
  · cases h
  · split at h
    · cases h
    · cases hCreate : (UQueue.create d (UQueue.allocate d) ⟨d.maxSize, d.maxSize_lt⟩
          ⟨d.chunkSize, d.chunkSize_lt⟩ ⟨d.chunkSize, d.chunkSize_lt⟩ semInit chunk :
          Except Fault (UQueueImpl QueueCb Nat Nat CopiedMsg × WombatQueueStatus)) with
      | error f =>
        rw [hCreate] at h
        cases h
      | ok out =>
        obtain ⟨mQueue, underlyingStatus⟩ := out
        rw [hCreate] at h
        simp only [bind, Except.bind, pure, Except.pure] at h
        split at h
        · cases h
        · rename_i hOk
          rw [not_not] at hOk
          cases h
          subst hOk
          have hFresh := fresh_of_create hCreate
          refine ⟨⟨hFresh.sound, ?_⟩, ?_⟩
          · intro e he
            rw [show mQueue.pending = [] from hFresh.pending] at he
            cases he
          · rw [copiesOn, show mQueue.pending = [] from hFresh.pending]
            rfl

/-- Any other queue has the entry at its end. -/
theorem CopyQueueOk.enqueueEventInt (h : CopyQueueOk b) (hRoom : ¬ b.mQueue.Exhausted calloc)
    (cb : QueueCb) (arg : UQUnion Nat CopiedMsg)
    (hCb : (copyOf ⟨some cb, some b.mParent, arg⟩).isSome → ∃ c, cb = .transport c) :
    ∃ b', Queue.enqueueEventInt b (some cb) arg calloc = .ok (b', .ok) ∧ CopyQueueOk b' ∧
      copiesOn b' = copiesOn b ++ (copyOf ⟨some cb, some b.mParent, arg⟩).toList := by
  obtain ⟨mQueue, hEnq, hSound, hPending, -⟩ := h.sound.enqueueEventInt hRoom cb arg
  refine ⟨{ b with mQueue }, hEnq, ⟨hSound, ?_⟩, ?_⟩
  · intro e he hCopy
    rw [hPending] at he
    rcases List.mem_append.mp he with hOld | hNew
    · exact h.closing e hOld hCopy
    · obtain rfl := List.mem_singleton.mp hNew
      obtain ⟨c, rfl⟩ := hCb hCopy
      exact ⟨c, rfl⟩
  · rw [copiesOn, hPending, List.filterMap_append, copiesOn]
    congr 1

/-- A message on a queue that takes it. -/
theorem CopyQueueOk.enqueueMsg (h : CopyQueueOk b) (hTakes : TakesMsg b calloc)
    (callback : Callback) (mMsg : CopiedMsg) :
    ∃ b', Queue.enqueueMsg b (some (.transport callback)) mMsg calloc = .ok (b', .ok) ∧
      CopyQueueOk b' ∧ copiesOn b' = copiesOn b ++ [mMsg.copy] := by
  rw [Queue.enqueueMsg, if_pos hTakes.1]
  exact h.enqueueEventInt hTakes.2 _ _ fun _ => ⟨callback, rfl⟩

/-- A message on a queue that does not: it is dropped, in one case without an
error. -/
theorem enqueueMsg_dropped (hTakes : ¬ TakesMsg b calloc) (callback : Callback)
    (mMsg : CopiedMsg) :
    ∃ status, Queue.enqueueMsg b (some (.transport callback)) mMsg calloc = .ok (b, status) := by
  rw [Queue.enqueueMsg]
  by_cases hActive : b.mIsActive = true
  · have hFull : b.mQueue.Exhausted calloc := not_not.mp fun h => hTakes ⟨hActive, h⟩
    rw [if_pos hActive]
    exact ⟨_, enqueueEventInt_full hFull _ _⟩
  · rw [if_neg hActive]
    exact ⟨_, rfl⟩

/-- An event of the application holds no copy. -/
theorem CopyQueueOk.enqueueEvent (h : CopyQueueOk b) (id : Nat) (closure : Option Nat)
    (calloc : Bool) :
    ∃ b' status, Queue.enqueueEvent b (some (.event id)) closure calloc = .ok (b', status) ∧
      CopyQueueOk b' ∧ copiesOn b' = copiesOn b := by
  by_cases hFull : b.mQueue.Exhausted calloc
  · exact ⟨b, _, enqueueEventInt_full hFull _ _, h, rfl⟩
  · obtain ⟨b', hEnq, hOk, hCopies⟩ := h.enqueueEventInt hFull (.event id)
      (.closure closure) fun hCopy => absurd hCopy Bool.false_ne_true
    exact ⟨b', _, hEnq, hOk, hCopies.trans (List.append_nil _)⟩

/-- The call of an entry closes the copy that the entry holds. -/
theorem closesOf_call {e : UQEntry QueueCb Nat Nat CopiedMsg}
    (h : (copyOf e).isSome → ∃ cb, e.cb = some (.transport cb)) :
    e.call.toList.flatMap closesOf = (copyOf e).toList := by
  obtain ⟨cb, data, arg⟩ := e
  cases arg with
  | msg mMsg =>
    obtain ⟨c, rfl⟩ := h rfl
    rfl
  | closure c =>
    cases cb with
    | none => rfl
    | some cb => cases cb <;> rfl

/-- A dispatch that got past the semaphore closes the copy it takes off. -/
theorem CopyQueueOk.dispatched (h : CopyQueueOk b) :
    ∃ b' call, Queue.dispatched b
        (UQueue.dispatchInt { b.mQueue with mSem := b.mQueue.mSem - 1 }) = .ok (b', .ok, call) ∧
      CopyQueueOk b' ∧ copiesOn b = call.toList.flatMap closesOf ++ copiesOn b' := by
  obtain ⟨mQueue, call, hOut, hSound, -, hTail, hCall⟩ := h.sound.dispatched
  refine ⟨{ b with mQueue }, call, hOut, ⟨hSound, ?_⟩, ?_⟩
  · intro e he
    have he' : e ∈ b.mQueue.pending.tail := hTail ▸ he
    exact h.closing e (List.mem_of_mem_tail he')
  · show copiesOn b = call.toList.flatMap closesOf ++ mQueue.pending.filterMap copyOf
    rw [hTail, hCall, copiesOn]
    cases hPending : b.mQueue.pending with
    | nil => rfl
    | cons e rest =>
      have hClose := closesOf_call (h.closing e (by rw [hPending]; exact List.mem_cons_self))
      show (e :: rest).filterMap copyOf = e.call.toList.flatMap closesOf ++ rest.filterMap copyOf
      rw [hClose]
      cases hCopy : copyOf e with
      | none => exact List.filterMap_cons_none hCopy
      | some i => exact List.filterMap_cons_some hCopy

/-- A dispatch with a timeout. -/
theorem CopyQueueOk.timedDispatch (h : CopyQueueOk b) (interrupted : Bool) :
    ∃ b' call, Queue.timedDispatch b interrupted = .ok (b', .ok, call) ∧ CopyQueueOk b' ∧
      copiesOn b = call.toList.flatMap closesOf ++ copiesOn b' := by
  rw [Queue.timedDispatch, UQueue.timedDispatch]
  split
  · exact ⟨b, none, rfl, h, rfl⟩
  · exact h.dispatched

end Calls

-- ---------------------------------------------------------------------------
-- A transport and its queues
-- ---------------------------------------------------------------------------

/-- What the application does with subscriptions and inboxes. -/
inductive RegistryAct (κ ρ : Type) where
  | create (key : SubjectKey) (queue : κ) (sendOk : Bool)
  | createWildcard (key : SubjectKey) (regex : ρ) (queue : κ) (sendOk : Bool)
  | mute (handle : Nat)
  | destroy (handle : Nat) (sendOk : Bool)
  | createInbox (queue : κ)
  | destroyInbox (handle : Nat)

/-- The tables afterwards; a new record is allocated at `next`. -/
def RegistryAct.apply {κ : Type} (impl : DataTransport κ ρ) (next : Nat) :
    RegistryAct κ ρ → Option (DataTransport κ ρ)
  | .create key queue sendOk => some (SubscriptionImpl.create impl next key queue sendOk).1
  | .createWildcard key regex queue sendOk =>
    some (SubscriptionImpl.createWildcard impl next key regex queue sendOk).1
  | .mute handle => some (Subscription.mute impl handle)
  | .destroy handle sendOk => (Subscription.destroy impl handle sendOk).toOption.map Prod.fst
  | .createInbox queue => some (Inbox.createByIndex impl next queue)
  | .destroyInbox handle => (Inbox.destroy impl handle).toOption

/-- A transport and its queues. `pending` is what the dispatch thread still has
to enqueue for the message it is dispatching, `made` the number of copies made
so far and `closed` the copies that were closed, in order. -/
structure CopyWorld (ρ : Type) where
  impl : DataTransport Nat ρ
  next : Nat
  arrivals : Nat
  queues : List (Option CopyQueue)
  queueMsgs : Nat → ZmqBridgeMsgImpl
  pending : List (Enqueue Nat)
  made : Nat
  closed : List Nat

def CopyWorld.init (mUuid : Uuid) (queueMsgs : Nat → ZmqBridgeMsgImpl) : CopyWorld ρ where
  impl := .init mUuid
  next := 0
  arrivals := 0
  queues := []
  queueMsgs := queueMsgs
  pending := []
  made := 0
  closed := []

/-- A queue is named by its position; `cached` tells whether the callback gets
the message that is stored on the `mamaQueue`. -/
inductive CopyAct (ρ : Type) where
  | createQueue (calloc allocate semInit chunk : Bool)
  | activate (k : Nat)
  | deactivate (k : Nat)
  | destroyQueue (k : Nat) (semDestroy : Bool)
  | enqueueEvent (k id : Nat) (closure : Option Nat) (calloc : Bool)
  | registry (a : RegistryAct Nat ρ)
  | arrive (zmsg : List Byte) (wild : List (Enqueue Nat))
  | enqueueNext (calloc : Bool)
  | dispatchEvent (k : Nat) (cached : Bool)
  | timedDispatch (k : Nat) (interrupted cached : Bool)

section Step

variable (w : CopyWorld ρ)

/-- The queue with this name, if it is alive. -/
def CopyWorld.queue? (k : Nat) : Option CopyQueue := (w.queues[k]?).join

def CopyWorld.setQueue (k : Nat) (b : Option CopyQueue) : CopyWorld ρ :=
  { w with queues := w.queues.set k b }

/-- Run the callback of an item. Without a cached message it goes to its exit at
once. An invalid read leaves open what is handed on, and the callback reaches
its exit all the same. -/
def CopyWorld.runCall (cached : Bool) (call : UQCall QueueCb Nat Nat CopiedMsg) :
    CopyWorld ρ :=
  let queueMsgs :=
    match cached, call.arg with
    | true, .msg mMsg =>
      match TransportImpl.runCallback w.impl mMsg.tmsg w.queueMsgs with
      | .ok out => out.queueMsgs
      | .error _ => w.queueMsgs
    | _, _ => w.queueMsgs
  { w with queueMsgs, closed := w.closed ++ closesOf call }

/-- What a dispatch of queue `k` leaves behind. -/
def CopyWorld.afterDispatch (k : Nat) (cached : Bool) :
    Except Fault (CopyQueue × MamaStatus × Option (UQCall QueueCb Nat Nat CopiedMsg)) →
      Option (CopyWorld ρ)
  | .error _ => none
  | .ok (b, _, none) => some (w.setQueue k (some b))
  | .ok (b, _, some call) => some ((w.setQueue k (some b)).runCall cached call)

/-- Make a copy and enqueue it. What is enqueued on a queue that is no longer
there is gone. -/
def CopyWorld.enqueueCopy (e : Enqueue Nat) (calloc : Bool) : Option (CopyWorld ρ) :=
  let made := { w with made := w.made + 1 }
  match w.queue? e.queue with
  | none => some made
  | some b =>
    match Queue.enqueueMsg b (some (.transport e.tmsg.callback)) ⟨w.made, e.tmsg⟩ calloc with
    | .error _ => none
    | .ok (b, _) => some (made.setQueue e.queue (some b))

variable (reads : MemcmpReads) (L : Libraries ρ) (d : QueueDefaults)

/-- What the dispatch thread enqueues for a message. A subject that is read
outside the message may match anything: this is `wild`. -/
def CopyWorld.itemsFor (zmsg : List Byte) (wild : List (Enqueue Nat)) : List (Enqueue Nat) :=
  match TransportImpl.dispatchNormalMsg reads L.regexec (L.order w.arrivals) w.impl zmsg with
  | .ok (items, _) => items
  | .error _ => wild

def CopyWorld.step : CopyAct ρ → Option (CopyWorld ρ)
  | .createQueue calloc allocate semInit chunk =>
    match Queue.create d w.queues.length calloc allocate semInit chunk with
    | .error _ => none
    | .ok (b, _) => some { w with queues := w.queues ++ [b] }
  | .activate k => (w.queue? k).map fun b => w.setQueue k (some (Queue.activate b))
  | .deactivate k => (w.queue? k).map fun b => w.setQueue k (some (Queue.deactivate b))
  | .destroyQueue k semDestroy =>
    (w.queue? k).bind fun b =>
      match Queue.destroy b semDestroy with
      | .error _ => none
      | .ok _ => some (w.setQueue k none)
  | .enqueueEvent k id closure calloc =>
    (w.queue? k).bind fun b =>
      match Queue.enqueueEvent b (some (.event id)) closure calloc with
      | .error _ => none
      | .ok (b, _) => some (w.setQueue k (some b))
  | .registry a => (a.apply w.impl w.next).map fun impl => { w with impl, next := w.next + 1 }
  | .arrive zmsg wild =>
    if w.pending = [] then
      some { w with arrivals := w.arrivals + 1, pending := w.itemsFor reads L zmsg wild }
    else none
  | .enqueueNext calloc =>
    match w.pending with
    | [] => none
    | e :: rest => CopyWorld.enqueueCopy { w with pending := rest } e calloc
  | .dispatchEvent k cached =>
    (w.queue? k).bind fun b => (Queue.dispatchEvent b).bind (w.afterDispatch k cached)
  | .timedDispatch k interrupted cached =>
    (w.queue? k).bind fun b => w.afterDispatch k cached (Queue.timedDispatch b interrupted)

/-- The copies: held by an item, closed, and made. -/
def CopyWorld.ledger : Ledger := ⟨w.queues.flatMap copiesIn, w.closed, w.made⟩

/-- Every copy that was made is held by one item or was closed, and only
once. -/
def CopyWorld.Balanced : Prop := w.ledger.Balanced

/-- What the step does to the copies is right: a message is enqueued on a queue
that takes it, and a queue that is destroyed holds no message. -/
def CopyWorld.Meets : CopyAct ρ → Prop
  | .enqueueNext calloc => ∀ e ∈ w.pending.head?, ∃ b ∈ w.queue? e.queue, TakesMsg b calloc
  | .destroyQueue k _ => ∀ b ∈ w.queue? k, copiesOn b = []
  | _ => True

end Step

-- ---------------------------------------------------------------------------
-- Steps
-- ---------------------------------------------------------------------------

/-- Every queue that is alive is in order. -/
def CopyWorld.Inv (w : CopyWorld ρ) : Prop := ∀ b, some b ∈ w.queues → CopyQueueOk b

section Steps

variable {w w' : CopyWorld ρ} {k : Nat} {b b' : CopyQueue}

theorem queue?_eq (h : w.queue? k = some b) : w.queues[k]? = some (some b) :=
  Option.join_eq_some_iff.mp h

theorem CopyWorld.Inv.queue (hInv : w.Inv) (h : w.queue? k = some b) : CopyQueueOk b :=
  hInv b (List.mem_of_getElem? (queue?_eq h))

theorem CopyWorld.Inv.set (hInv : w.Inv) {o : Option CopyQueue}
    (ho : ∀ b ∈ o, CopyQueueOk b) {queues : List (Option CopyQueue)}
    (hQueues : queues = w.queues.set k o) (b : CopyQueue) (h : some b ∈ queues) :
    CopyQueueOk b := by
  rw [hQueues] at h
  rcases List.mem_or_eq_of_mem_set h with hOld | hNew
  · exact hInv b hOld
  · exact ho b hNew.symm

/-- What replacing a queue does to the copies that are held. -/
theorem held_set (h : w.queue? k = some b) (o : Option CopyQueue) (xs ys : List Nat)
    (hCopies : (copiesIn o ++ xs).Perm (copiesOn b ++ ys)) :
    ((w.queues.set k o).flatMap copiesIn ++ xs).Perm (w.queues.flatMap copiesIn ++ ys) :=
  perm_flatMap_set (queue?_eq h) hCopies

/-- Replacing a queue by one that holds the same copies. -/
theorem CopyWorld.Inv.setQueue (hInv : w.Inv) (hBal : w.Balanced) (h : w.queue? k = some b)
    (hOk : CopyQueueOk b') (hCopies : copiesOn b' = copiesOn b) :
    (w.setQueue k (some b')).Inv ∧ (w.setQueue k (some b')).Balanced := by
  refine ⟨hInv.set (fun c hc => Option.some.inj hc ▸ hOk) rfl, ?_⟩
  have hPerm := held_set h (some b') [] [] (by
    rw [List.append_nil, List.append_nil, copiesIn, hCopies])
  rw [List.append_nil, List.append_nil] at hPerm
  exact Ledger.Balanced.moved hBal hPerm

/-- A dispatch closes the copy that it takes off the queue. -/
theorem CopyWorld.Inv.afterDispatch (hInv : w.Inv) (hBal : w.Balanced) (h : w.queue? k = some b)
    {call : Option (UQCall QueueCb Nat Nat CopiedMsg)} {cached : Bool} (hOk : CopyQueueOk b')
    (hCopies : copiesOn b = call.toList.flatMap closesOf ++ copiesOn b')
    (hStep : w.afterDispatch k cached (.ok (b', .ok, call)) = some w') :
    w'.Inv ∧ w'.Balanced := by
  cases call with
  | none =>
    cases hStep
    exact hInv.setQueue hBal h hOk hCopies.symm
  | some call =>
    cases hStep
    rw [Option.toList_some, List.flatMap_singleton] at hCopies
    refine ⟨hInv.set (fun c hc => Option.some.inj hc ▸ hOk) rfl, ?_⟩
    have hPerm := held_set h (some b') (closesOf call) [] (by
      rw [List.append_nil, hCopies]
      exact List.perm_append_comm)
    rw [List.append_nil] at hPerm
    exact Ledger.Balanced.giveBack hBal hPerm

/-- Enqueueing a copy keeps the balance exactly when the queue takes it. -/
theorem CopyWorld.Inv.enqueueCopy (hInv : w.Inv) (hBal : w.Balanced) {e : Enqueue Nat}
    {calloc : Bool} (hStep : w.enqueueCopy e calloc = some w') :
    w'.Inv ∧ (w'.Balanced ↔ ∃ b ∈ w.queue? e.queue, TakesMsg b calloc) := by
  rw [CopyWorld.enqueueCopy] at hStep
  cases hQueue : w.queue? e.queue with
  | none =>
    rw [hQueue] at hStep
    cases hStep
    refine ⟨hInv, iff_of_false ?_ ?_⟩
    · exact Ledger.Balanced.not_issue hBal (List.Perm.refl _)
    · rintro ⟨b, hb, -⟩
      cases hb
  | some b =>
    rw [hQueue] at hStep
    by_cases hTakes : TakesMsg b calloc
    · obtain ⟨b', hEnq, hOk, hCopies⟩ :=
        (hInv.queue hQueue).enqueueMsg hTakes e.tmsg.callback ⟨w.made, e.tmsg⟩
      simp only [hEnq] at hStep
      cases hStep
      refine ⟨hInv.set (fun c hc => Option.some.inj hc ▸ hOk) rfl,
        iff_of_true ?_ ⟨b, rfl, hTakes⟩⟩
      have hPerm := held_set hQueue (some b') [] [w.made] (by
        rw [List.append_nil, copiesIn, hCopies])
      rw [List.append_nil] at hPerm
      exact Ledger.Balanced.issue hBal hPerm
    · obtain ⟨status, hEnq⟩ := enqueueMsg_dropped hTakes e.tmsg.callback ⟨w.made, e.tmsg⟩
      simp only [hEnq] at hStep
      cases hStep
      refine ⟨hInv.set (fun c hc => Option.some.inj hc ▸ hInv.queue hQueue) rfl,
        iff_of_false ?_ ?_⟩
      · have hPerm := held_set hQueue (some b) [] [] (List.Perm.refl _)
        rw [List.append_nil, List.append_nil] at hPerm
        exact Ledger.Balanced.not_issue hBal hPerm
      · rintro ⟨b', hb', hTakes'⟩
        cases hb'
        exact hTakes hTakes'

variable {reads : MemcmpReads} {L : Libraries ρ} {d : QueueDefaults}

/-- **One step** keeps the balance exactly when it meets the condition. -/
theorem CopyWorld.Inv.step (hInv : w.Inv) (hBal : w.Balanced) {a : CopyAct ρ}
    (hStep : w.step reads L d a = some w') : w'.Inv ∧ (w'.Balanced ↔ w.Meets a) := by
  cases a with
  | createQueue calloc allocate semInit chunk =>
    simp only [CopyWorld.step] at hStep
    cases hCreate : Queue.create d w.queues.length calloc allocate semInit chunk with
    | error f =>
      rw [hCreate] at hStep
      cases hStep
    | ok out =>
      obtain ⟨o, status⟩ := out
      rw [hCreate] at hStep
      cases hStep
      have hOk : ∀ b ∈ o, CopyQueueOk b ∧ copiesOn b = [] := by
        rintro b rfl
        exact create_ok hCreate
      refine ⟨?_, iff_of_true ?_ trivial⟩
      · intro b hb
        rcases List.mem_append.mp hb with hOld | hNew
        · exact hInv b hOld
        · exact (hOk b (List.mem_singleton.mp hNew).symm).1
      · have hNone : copiesIn o = [] := by
          cases o with
          | none => rfl
          | some b => exact (hOk b rfl).2
        refine Ledger.Balanced.moved hBal (List.Perm.of_eq ?_)
        rw [List.flatMap_append, List.flatMap_singleton, hNone, List.append_nil]
  | activate k =>
    obtain ⟨b, hQueue, rfl⟩ := Option.map_eq_some_iff.mp hStep
    have hOk := hInv.queue hQueue
    have hOk' : CopyQueueOk (Queue.activate b) := ⟨hOk.sound, hOk.closing⟩
    obtain ⟨hInv', hBal'⟩ := hInv.setQueue hBal hQueue hOk' rfl
    exact ⟨hInv', iff_of_true hBal' trivial⟩
  | deactivate k =>
    obtain ⟨b, hQueue, rfl⟩ := Option.map_eq_some_iff.mp hStep
    have hOk := hInv.queue hQueue
    have hOk' : CopyQueueOk (Queue.deactivate b) := ⟨hOk.sound, hOk.closing⟩
    obtain ⟨hInv', hBal'⟩ := hInv.setQueue hBal hQueue hOk' rfl
    exact ⟨hInv', iff_of_true hBal' trivial⟩
  | destroyQueue k semDestroy =>
    obtain ⟨b, hQueue, hStep⟩ := Option.bind_eq_some_iff.mp hStep
    split at hStep
    · cases hStep
    · cases hStep
      refine ⟨hInv.set (fun c hc => by cases hc) rfl, ?_⟩
      have hPerm := held_set hQueue none (copiesOn b) [] (by
        rw [List.append_nil, copiesIn, List.nil_append])
      rw [List.append_nil] at hPerm
      refine (Ledger.Balanced.lose_iff hBal hPerm).trans ?_
      constructor
      · rintro hNil c hc
        rw [hQueue] at hc
        exact Option.some.inj hc ▸ hNil
      · exact fun hMeets => hMeets b hQueue
  | enqueueEvent k id closure calloc =>
    obtain ⟨b, hQueue, hStep⟩ := Option.bind_eq_some_iff.mp hStep
    obtain ⟨b', status, hEnq, hOk, hCopies⟩ :=
      (hInv.queue hQueue).enqueueEvent id closure calloc
    rw [hEnq] at hStep
    cases hStep
    obtain ⟨hInv', hBal'⟩ := hInv.setQueue hBal hQueue hOk hCopies
    exact ⟨hInv', iff_of_true hBal' trivial⟩
  | registry a =>
    obtain ⟨impl, -, rfl⟩ := Option.map_eq_some_iff.mp hStep
    exact ⟨hInv, iff_of_true hBal trivial⟩
  | arrive zmsg wild =>
    simp only [CopyWorld.step] at hStep
    split at hStep
    · cases hStep
      exact ⟨hInv, iff_of_true hBal trivial⟩
    · cases hStep
  | enqueueNext calloc =>
    simp only [CopyWorld.step] at hStep
    cases hPending : w.pending with
    | nil =>
      rw [hPending] at hStep
      cases hStep
    | cons e rest =>
      rw [hPending] at hStep
      obtain ⟨hInv', hIff⟩ := CopyWorld.Inv.enqueueCopy
        (w := { w with pending := rest }) hInv hBal hStep
      refine ⟨hInv', hIff.trans ?_⟩
      rw [CopyWorld.Meets, hPending]
      constructor
      · rintro hTakes e' he'
        cases he'
        exact hTakes
      · exact fun hMeets => hMeets e rfl
  | dispatchEvent k cached =>
    obtain ⟨b, hQueue, hStep⟩ := Option.bind_eq_some_iff.mp hStep
    obtain ⟨out, hOut, hStep⟩ := Option.bind_eq_some_iff.mp hStep
    obtain ⟨disp, hDisp, rfl⟩ := Option.map_eq_some_iff.mp hOut
    rw [UQueue.dispatch] at hDisp
    split at hDisp
    · cases hDisp
    · obtain ⟨b', call, hEq, hOk, hCopies⟩ := (hInv.queue hQueue).dispatched
      cases hDisp
      rw [hEq] at hStep
      obtain ⟨hInv', hBal'⟩ := hInv.afterDispatch hBal hQueue hOk hCopies hStep
      exact ⟨hInv', iff_of_true hBal' trivial⟩
  | timedDispatch k interrupted cached =>
    obtain ⟨b, hQueue, hStep⟩ := Option.bind_eq_some_iff.mp hStep
    obtain ⟨b', call, hEq, hOk, hCopies⟩ := (hInv.queue hQueue).timedDispatch interrupted
    rw [hEq] at hStep
    obtain ⟨hInv', hBal'⟩ := hInv.afterDispatch hBal hQueue hOk hCopies hStep
    exact ⟨hInv', iff_of_true hBal' trivial⟩

end Steps

section Runs

variable {reads : MemcmpReads} {L : Libraries ρ} {d : QueueDefaults} {mUuid : Uuid}
  {queueMsgs : Nat → ZmqBridgeMsgImpl}

theorem CopyWorld.inv_init : (CopyWorld.init mUuid queueMsgs : CopyWorld ρ).Inv ∧
    (CopyWorld.init mUuid queueMsgs : CopyWorld ρ).Balanced := by
  refine ⟨?_, List.Perm.refl []⟩
  intro b hb
  cases hb

/--
**Which runs release every copy exactly once.** For every run of a transport and
its queues, from the start:

* every copy made so far is held by one item of some queue or was closed, and
  only once, in every state of the run, if and only if every message is enqueued
  on a queue that is alive, active and not full, and no queue is destroyed with
  a message on it;
* then the copies that are open at the end are as many as there are message
  items on the queues.
-/
theorem copies_balanced_iff {as : List (CopyAct ρ)} {w : CopyWorld ρ}
    (hRun : run (CopyWorld.step · reads L d) (CopyWorld.init mUuid queueMsgs) as = some w) :
    (Along (CopyWorld.step · reads L d) CopyWorld.Balanced (CopyWorld.init mUuid queueMsgs) as ↔
      StepsMeet (CopyWorld.step · reads L d) CopyWorld.Meets (CopyWorld.init mUuid queueMsgs)
        as) ∧
    (StepsMeet (CopyWorld.step · reads L d) CopyWorld.Meets (CopyWorld.init mUuid queueMsgs) as →
      w.made - w.closed.length = (w.queues.flatMap copiesIn).length) := by
  have hIff : Along (CopyWorld.step · reads L d) CopyWorld.Balanced
        (CopyWorld.init mUuid queueMsgs) as ↔
      StepsMeet (CopyWorld.step · reads L d) CopyWorld.Meets
        (CopyWorld.init mUuid queueMsgs) as := by
    refine along_iff_stepsMeet (J := fun w : CopyWorld ρ => w.Inv ∧ w.Balanced)
      CopyWorld.inv_init (fun s hJ => hJ.2) ?_ ?_ hRun
    · intro s a s' hJ hOk h
      obtain ⟨hInv', hIff⟩ := hJ.1.step hJ.2 h
      exact ⟨hInv', hIff.mpr hOk⟩
    · intro s a s' hJ h hBal
      exact (hJ.1.step hJ.2 h).2.mp hBal
  refine ⟨hIff, ?_⟩
  intro hMeet
  have hBal : w.Balanced := hIff.mpr hMeet as [] w (List.append_nil as).symm hRun
  exact Ledger.Balanced.open_eq hBal

end Runs

/-- A transport with the sample libraries, before anything happened. -/
def copiesA : CopyWorld Unit := CopyWorld.init uuidA fun _ => MamaMsgImpl.createMsgOnly

/-- A subscription and a wildcard subscription on a queue, and a message for
both. The subscription is destroyed before its item is run. -/
def twoCopies : List (CopyAct Unit) :=
  [.createQueue true true true true, .registry (.create keyB 0 true),
    .registry (.createWildcard keyB () 0 true), .arrive publishB.wire [],
    .enqueueNext true, .enqueueEvent 0 5 none true, .enqueueNext true,
    .registry (.destroy 0 true), .timedDispatch 0 false true, .dispatchEvent 0 true,
    .timedDispatch 0 true true, .dispatchEvent 0 false, .destroyQueue 0 true]

theorem copies_balanced_twoCopies :
    ∃ w, run (CopyWorld.step · .untilDifference acceptAll smallDefaults) copiesA twoCopies =
        some w ∧ (w.made = 2 ∧ w.closed = [0, 1]) ∧
      (Along (CopyWorld.step · .untilDifference acceptAll smallDefaults) CopyWorld.Balanced
          copiesA twoCopies ↔
        StepsMeet (CopyWorld.step · .untilDifference acceptAll smallDefaults) CopyWorld.Meets
          copiesA twoCopies) := by
  obtain ⟨w, hRun, hCopies⟩ :
      ∃ w, run (CopyWorld.step · .untilDifference acceptAll smallDefaults) copiesA twoCopies =
        some w ∧ (w.made = 2 ∧ w.closed = [0, 1]) := exists_run (by decide +kernel)
  exact ⟨w, hRun, hCopies, (copies_balanced_iff hRun).1⟩

/-- The balance at the end of a run of the sample transport. -/
theorem exists_not_balanced {as : List (CopyAct Unit)}
    (h : (run (CopyWorld.step · .untilDifference acceptAll smallDefaults) copiesA as).any
      (fun w => decide (¬ w.ledger.Balanced)) = true) :
    ∃ w, run (CopyWorld.step · .untilDifference acceptAll smallDefaults) copiesA as = some w ∧
      ¬ w.Balanced :=
  exists_run (p := fun w : CopyWorld Unit => ¬ w.ledger.Balanced) h

/-- **Copies that are never closed.** A message for a queue that is inactive, one
for a queue that is full because it cannot grow, one that is still on its queue
when the queue is destroyed, and one for a queue that is no longer there. -/
theorem copies_lost :
    (∃ w, run (CopyWorld.step · .untilDifference acceptAll smallDefaults) copiesA
        [.createQueue true true true true, .registry (.create keyB 0 true), .deactivate 0,
          .arrive publishB.wire [], .enqueueNext true] = some w ∧ ¬ w.Balanced) ∧
    (∃ w, run (CopyWorld.step · .untilDifference acceptAll smallDefaults) copiesA
        [.createQueue true true true true, .registry (.create keyB 0 true),
          .enqueueEvent 0 5 none true, .enqueueEvent 0 6 none true,
          .arrive publishB.wire [], .enqueueNext false] = some w ∧ ¬ w.Balanced) ∧
    (∃ w, run (CopyWorld.step · .untilDifference acceptAll smallDefaults) copiesA
        [.createQueue true true true true, .registry (.create keyB 0 true),
          .arrive publishB.wire [], .enqueueNext true, .destroyQueue 0 true] = some w ∧
      ¬ w.Balanced) ∧
    (∃ w, run (CopyWorld.step · .untilDifference acceptAll smallDefaults) copiesA
        [.createQueue true true true true, .registry (.create keyB 0 true),
          .destroyQueue 0 true, .arrive publishB.wire [], .enqueueNext true] = some w ∧
      ¬ w.Balanced) :=
  ⟨exists_not_balanced (by decide +kernel), exists_not_balanced (by decide +kernel),
    exists_not_balanced (by decide +kernel), exists_not_balanced (by decide +kernel)⟩

end ZmqBridge
