import ZmqBridge.Lib.Mailbox
import ZmqBridge.Data.Dispatch

/-!
# ZmqBridge — one transport and its queues

The data path as a system: the application creates, mutes and destroys
subscriptions and inboxes, the dispatch thread receives data messages and
control messages, and queues run their items, in any interleaving. Every call
of the source is one step.

Next to the state of the program a `World` keeps a history: everything ever
registered, the messages in order of arrival, and the calls of application
callbacks. Queued items carry the number of their arrival. An invalid access
sets `faulted`.

* `World.inv_run`    — tables, queues and history agree in every run with fewer
  than 2^64 creations, and nothing faults;
* `World.simulates`  — such a run is a run of a `Lib.Mailbox`.
-/

namespace ZmqBridge

open Lib

variable {κ ρ : Type}

/-- An item in a queue, with the record it was queued for and the number of the
message. -/
structure Queued where
  tmsg : ZmqTransportMsg
  target : Nat
  arrival : Nat

/-- A call of an application callback. -/
structure Call where
  target : Nat
  arrival : Nat
  payload : List Byte
  deriving DecidableEq, Repr

structure World (κ ρ : Type) where
  impl : DataTransport κ ρ
  queues : κ → List Queued
  queueMsgs : κ → ZmqBridgeMsgImpl
  control : List ZmqControlMsg
  dataSub : List Byte → Nat
  made : List (Made κ)
  arrivals : List DataMsg
  calls : List Call
  faulted : Bool

/-- A transport at which nothing is registered. -/
def DataTransport.init (mUuid : Uuid) : DataTransport κ ρ where
  mUuid := mUuid
  mSubUid := 0
  mWcsUid := 0
  mInboxUid := 0
  mSubEndpoints := []
  mWcEndpoints := []
  mInboxes := ∅
  subs := []
  inboxes := []

/-- A started transport: its socket is subscribed to the inbox subject. -/
def World.init (mUuid : Uuid) (queueMsgs : κ → ZmqBridgeMsgImpl) : World κ ρ where
  impl := .init mUuid
  queues := fun _ => []
  queueMsgs := queueMsgs
  control := []
  dataSub := fun t =>
    if t = (DataTransport.init (κ := κ) (ρ := ρ) mUuid).mInboxSubject then 1 else 0
  made := []
  arrivals := []
  calls := []
  faulted := false

/-- What the program leaves to its libraries: the regex matcher, and the order
in which the pool's table hands out endpoints at the `n`-th message. -/
structure Libraries (ρ : Type) where
  regexec : ρ → List Byte → Bool
  order : Nat → List Nat → List Nat
  order_perm : ∀ n l, (order n l).Perm l

inductive WorldAct (κ ρ : Type) where
  | create (key : SubjectKey) (queue : κ)
  | createWildcard (key : SubjectKey) (regex : ρ) (queue : κ)
  | mute (handle : Nat)
  | destroy (handle : Nat)
  | createInbox (queue : κ)
  | destroyInbox (handle : Nat)
  | arrive (m : DataMsg)
  | runQueue (queue : κ)
  | shareQueue (queue : κ) (msg : ZmqBridgeMsgImpl)
  | dispatchControl

/-- The action registers a subscription or an inbox. -/
def WorldAct.creates : WorldAct κ ρ → Bool
  | .create .. | .createWildcard .. | .createInbox .. => true
  | _ => false

section Step

variable [DecidableEq κ]

/-- The dispatch thread queues the items of a received message. -/
def World.enqueue (w : World κ ρ) (m : DataMsg) (items : List (Enqueue κ)) : World κ ρ :=
  { w with
    queues := fun q => w.queues q ++ (items.filter (·.queue = q)).map fun it =>
      ⟨it.tmsg, it.target, w.arrivals.length⟩
    arrivals := w.arrivals ++ [m] }

/-- A queue has run its first item. -/
def World.dequeue (w : World κ ρ) (queue : κ) (item : Queued) (rest : List Queued)
    (outcome : CallbackOutcome κ) : World κ ρ :=
  { w with
    queues := Function.update w.queues queue rest
    queueMsgs := outcome.queueMsgs
    calls := w.calls ++ outcome.called.toList.map fun c =>
      ⟨c.1, item.arrival, c.2.bytes item.tmsg.mZmsg⟩ }

/-- One step. The application only names records it holds; control messages are
sent successfully; queues are active and never full. `shareQueue` is another
transport that uses the same queue and leaves its own message in the queue's
reusable one. -/
def World.step (L : Libraries ρ) (w : World κ ρ) : WorldAct κ ρ → Option (World κ ρ)
  | .create key queue =>
    let out := SubscriptionImpl.create w.impl w.made.length key queue true
    some { w with
      impl := out.1
      control := w.control ++ out.2.1
      made := w.made ++ out.1.subs.getLast?.toList.map ZmqSubscription.made }
  | .createWildcard key regex queue =>
    let out := SubscriptionImpl.createWildcard w.impl w.made.length key regex queue true
    some { w with
      impl := out.1
      control := w.control ++ out.2.1
      made := w.made ++ out.1.subs.getLast?.toList.map ZmqSubscription.made }
  | .mute handle =>
    if handle ∈ w.impl.subs.map ZmqSubscription.handle then
      some { w with impl := Subscription.mute w.impl handle }
    else none
  | .destroy handle =>
    if handle ∈ w.impl.subs.map ZmqSubscription.handle then
      match Subscription.destroy w.impl handle true with
      | .error _ => some { w with faulted := true }
      | .ok (impl, sent, _) => some { w with impl, control := w.control ++ sent }
    else none
  | .createInbox queue =>
    let impl := Inbox.createByIndex w.impl w.made.length queue
    some { w with
      impl, made := w.made ++ impl.inboxes.getLast?.toList.map ZmqInboxImpl.made }
  | .destroyInbox handle =>
    if handle ∈ w.impl.inboxes.map ZmqInboxImpl.handle then
      match Inbox.destroy w.impl handle with
      | .error _ => some { w with faulted := true }
      | .ok impl => some { w with impl }
    else none
  | .arrive m =>
    if m.Deliverable then
      match TransportImpl.dispatchNormalMsg .untilDifference L.regexec
          (L.order w.arrivals.length) w.impl m.wire with
      | .error _ => some { w with faulted := true }
      | .ok (items, _) => some (w.enqueue m items)
    else none
  | .runQueue queue =>
    match w.queues queue with
    | [] => none
    | item :: rest =>
      match TransportImpl.runCallback w.impl item.tmsg w.queueMsgs with
      | .error _ => some { w with faulted := true }
      | .ok outcome => some (w.dequeue queue item rest outcome)
  | .shareQueue queue msg =>
    some { w with queueMsgs := Function.update w.queueMsgs queue msg }
  | .dispatchControl =>
    match w.control with
    | [] => none
    | msg :: rest =>
      some { w with
        dataSub := TransportImpl.dispatchControlMsg w.dataSub msg, control := rest }

end Step

-- ---------------------------------------------------------------------------
-- The mailbox a world shows
-- ---------------------------------------------------------------------------

/-- Whether the record with handle `h` takes message number `k`. -/
def World.wants (w : World κ ρ) (h k : Nat) : Bool :=
  match w.made[h]?, w.arrivals[k]? with
  | some r, some m => r.wants m
  | _, _ => false

def World.letter (w : World κ ρ) (it : Queued) : Letter Nat :=
  ⟨it.target, it.arrival, w.wants it.target it.arrival⟩

/-- The transport as a mailbox of its records. -/
def World.abs (w : World κ ρ) : Mailbox Nat κ where
  known := { h | h < w.made.length }
  live := w.impl.live
  unmuted := w.impl.unmuted
  home := fun h => w.made[h]?.map Made.queue
  queues := fun q => (w.queues q).map w.letter
  calls := w.calls.map fun c => (c.target, c.arrival)
  arrived := w.arrivals.length

/-- The item waits at the home of the record it was queued for, and carries the
message it has the number of. -/
def World.ItemOk (w : World κ ρ) (q : κ) (it : Queued) : Prop :=
  ∃ r m, w.made[it.target]? = some r ∧ w.arrivals[it.arrival]? = some m ∧ r.queue = q ∧
    QueuedFor r m it.tmsg

/-- The call was made with the payload of the message it has the number of. -/
def World.CallOk (w : World κ ρ) (c : Call) : Prop :=
  ∃ m buffer, w.arrivals[c.arrival]? = some m ∧ m.buffer = some buffer ∧
    c.payload = buffer.bytes m.wire

structure World.Inv (w : World κ ρ) : Prop where
  registry : Registry w.impl w.made
  items : ∀ q, ∀ it ∈ w.queues q, w.ItemOk q it
  calls : ∀ c ∈ w.calls, w.CallOk c
  notFaulted : w.faulted = false

theorem World.inv_init (mUuid : Uuid) (queueMsgs : κ → ZmqBridgeMsgImpl) :
    (World.init mUuid queueMsgs : World κ ρ).Inv where
  registry :=
    { names :=
        { nodup := List.nodup_nil
          issued := fun r hr => absurd hr List.not_mem_nil
          uid_le := fun c => by cases c <;> exact Nat.le_refl 0 }
      nodup := List.nodup_nil
      tables := rfl
      subs_made := fun s hs => absurd hs List.not_mem_nil
      inboxes_made := fun i hi => absurd hi List.not_mem_nil
      inboxes := fun name h => by
        refine ⟨fun hh => ?_, fun ⟨i, hi, _⟩ => absurd hi List.not_mem_nil⟩
        have hNone : (∅ : AList fun _ : List Byte => Nat).lookup name = none :=
          AList.lookup_empty name
        exact absurd (hNone.symm.trans hh) (by simp)
      topics := fun r hr => absurd hr List.not_mem_nil }
  items := fun q it hit => absurd hit List.not_mem_nil
  calls := fun c hc => absurd hc List.not_mem_nil
  notFaulted := rfl

theorem World.abs_init_empty (mUuid : Uuid) (queueMsgs : κ → ZmqBridgeMsgImpl) :
    (World.init mUuid queueMsgs : World κ ρ).abs.Empty := by
  refine ⟨?_, fun _ => rfl, rfl⟩
  ext h
  rw [World.abs, DataTransport.mem_live]
  simp [World.init, DataTransport.init]

-- ---------------------------------------------------------------------------
-- The history only grows
-- ---------------------------------------------------------------------------

/-- `w'` has at least the history of `w`. -/
structure World.Extends (w w' : World κ ρ) : Prop where
  made : w.made <+: w'.made
  arrivals : w.arrivals <+: w'.arrivals
  calls : w.calls <+: w'.calls

theorem getElem?_of_prefixed {α : Type} {l l' : List α} (h : l <+: l') {n : Nat} {a : α}
    (ha : l[n]? = some a) : l'[n]? = some a := by
  obtain ⟨t, rfl⟩ := h
  exact (List.getElem?_append_left (List.getElem?_eq_some_iff.mp ha).1).trans ha

theorem World.ItemOk.mono {w w' : World κ ρ} (hExt : w.Extends w') {q : κ} {it : Queued}
    (h : w.ItemOk q it) : w'.ItemOk q it := by
  obtain ⟨r, m, hr, hm, hRest⟩ := h
  exact ⟨r, m, getElem?_of_prefixed hExt.made hr, getElem?_of_prefixed hExt.arrivals hm, hRest⟩

theorem World.CallOk.mono {w w' : World κ ρ} (hExt : w.Extends w') {c : Call}
    (h : w.CallOk c) : w'.CallOk c := by
  obtain ⟨m, buffer, hm, hRest⟩ := h
  exact ⟨m, buffer, getElem?_of_prefixed hExt.arrivals hm, hRest⟩

/-- The letter of an item does not change as the history grows. -/
theorem World.ItemOk.letter_eq {w w' : World κ ρ} (hExt : w.Extends w') {q : κ} {it : Queued}
    (h : w.ItemOk q it) : w'.letter it = w.letter it := by
  obtain ⟨r, m, hr, hm, -⟩ := h
  rw [World.letter, World.letter, World.wants, World.wants, hr, hm,
    getElem?_of_prefixed hExt.made hr, getElem?_of_prefixed hExt.arrivals hm]

theorem World.ItemOk.wants_eq {w : World κ ρ} {it : Queued} {r : Made κ} {m : DataMsg}
    (hr : w.made[it.target]? = some r) (hm : w.arrivals[it.arrival]? = some m) :
    w.wants it.target it.arrival = r.wants m := by
  rw [World.wants, hr, hm]

/-- Letters of untouched queues. -/
theorem World.Inv.letters_eq {w w' : World κ ρ} (hInv : w.Inv) (hExt : w.Extends w') (q : κ) :
    (w.queues q).map w'.letter = (w.queues q).map w.letter :=
  List.map_congr_left fun it hit => (hInv.items q it hit).letter_eq hExt

-- ---------------------------------------------------------------------------
-- Steps that leave the queues alone
-- ---------------------------------------------------------------------------

/-- Registering a record. -/
theorem World.Inv.register {w w' : World κ ρ} (hInv : w.Inv) {r : Made κ}
    (hMade : w'.made = w.made ++ [r]) (hReg : Registry w'.impl w'.made)
    (hLive : w'.impl.live = insert w.made.length w.impl.live)
    (hUnmuted : w'.impl.unmuted = insert w.made.length w.impl.unmuted)
    (hQueues : w'.queues = w.queues) (hArrivals : w'.arrivals = w.arrivals)
    (hCalls : w'.calls = w.calls) (hFault : w'.faulted = w.faulted) :
    w'.Inv ∧ Mailbox.Step w.abs w'.abs := by
  have hExt : w.Extends w' :=
    ⟨hMade ▸ List.prefix_append _ _, hArrivals ▸ List.prefix_rfl, hCalls ▸ List.prefix_rfl⟩
  refine ⟨⟨hReg, ?_, ?_, hFault.trans hInv.notFaulted⟩, ?_⟩
  · intro q it hit
    rw [hQueues] at hit
    exact (hInv.items q it hit).mono hExt
  · intro c hc
    rw [hCalls] at hc
    exact (hInv.calls c hc).mono hExt
  have hEq : w'.abs = { w.abs with
      known := insert w.made.length w.abs.known
      live := insert w.made.length w.abs.live
      unmuted := insert w.made.length w.abs.unmuted
      home := w'.abs.home } := by
    refine Mailbox.ext ?_ hLive hUnmuted rfl ?_ ?_ ?_
    · ext h
      simp only [World.abs, hMade, List.length_append, List.length_singleton,
        Set.mem_insert_iff, Set.mem_ofPred_eq]
      omega
    · funext q
      show (w'.queues q).map w'.letter = _
      rw [hQueues]
      exact hInv.letters_eq hExt q
    · simp only [World.abs, hCalls]
    · simp only [World.abs, hArrivals]
  rw [hEq]
  refine .create (by simp [World.abs]) fun h hne => ?_
  simp only [World.abs, hMade]
  rcases Nat.lt_or_ge h w.made.length with hLt | hGe
  · rw [List.getElem?_append_left hLt]
  · have hGt : w.made.length < h := by
      have : h ≠ w.made.length := hne
      omega
    rw [List.getElem?_eq_none (by simpa using hGt), List.getElem?_eq_none hGe]

/-- Muting or taking out records. -/
theorem World.Inv.withdraw {w w' : World κ ρ} (hInv : w.Inv)
    (hReg : Registry w'.impl w'.made) (hMade : w'.made = w.made)
    (hLive : w'.impl.live ⊆ w.impl.live) (hUnmuted : w'.impl.unmuted ⊆ w.impl.unmuted)
    (hQueues : w'.queues = w.queues) (hArrivals : w'.arrivals = w.arrivals)
    (hCalls : w'.calls = w.calls) (hFault : w'.faulted = w.faulted) :
    w'.Inv ∧ Mailbox.Step w.abs w'.abs := by
  have hExt : w.Extends w' :=
    ⟨hMade ▸ List.prefix_rfl, hArrivals ▸ List.prefix_rfl, hCalls ▸ List.prefix_rfl⟩
  refine ⟨⟨hReg, ?_, ?_, hFault.trans hInv.notFaulted⟩, ?_⟩
  · intro q it hit
    rw [hQueues] at hit
    exact (hInv.items q it hit).mono hExt
  · intro c hc
    rw [hCalls] at hc
    exact (hInv.calls c hc).mono hExt
  have hEq : w'.abs = { w.abs with live := w'.impl.live, unmuted := w'.impl.unmuted } := by
    refine Mailbox.ext ?_ rfl rfl ?_ ?_ ?_ ?_
    · simp only [World.abs, hMade]
    · simp only [World.abs, hMade]
    · funext q
      show (w'.queues q).map w'.letter = _
      rw [hQueues]
      exact hInv.letters_eq hExt q
    · simp only [World.abs, hCalls]
    · simp only [World.abs, hArrivals]
  rw [hEq]
  exact .withdraw hLive hUnmuted

-- ---------------------------------------------------------------------------
-- What is live after a step
-- ---------------------------------------------------------------------------

section Live

variable {impl impl' : DataTransport κ ρ}

theorem live_addSub {record : ZmqSubscription κ ρ} {n : Nat} (hHandle : record.handle = n)
    (hSubs : impl'.subs = impl.subs ++ [record]) (hInboxes : impl'.inboxes = impl.inboxes) :
    impl'.live = insert n impl.live := by
  subst hHandle
  ext h
  simp only [DataTransport.mem_live, Set.mem_insert_iff, hSubs, hInboxes, List.mem_append,
    List.mem_singleton]
  constructor
  · rintro (⟨s, hs | rfl, hEq⟩ | hInbox)
    · exact Or.inr (Or.inl ⟨s, hs, hEq⟩)
    · exact Or.inl hEq.symm
    · exact Or.inr (Or.inr hInbox)
  · rintro (hEq | ⟨s, hs, hEq⟩ | hInbox)
    · exact Or.inl ⟨record, Or.inr rfl, hEq.symm⟩
    · exact Or.inl ⟨s, Or.inl hs, hEq⟩
    · exact Or.inr hInbox

theorem unmuted_addSub {record : ZmqSubscription κ ρ} {n : Nat} (hHandle : record.handle = n)
    (hSubs : impl'.subs = impl.subs ++ [record]) (hInboxes : impl'.inboxes = impl.inboxes)
    (hMuted : record.mIsNotMuted = true) : impl'.unmuted = insert n impl.unmuted := by
  subst hHandle
  ext h
  simp only [DataTransport.unmuted, Set.mem_ofPred_eq, Set.mem_insert_iff, hSubs, hInboxes,
    List.mem_append, List.mem_singleton]
  constructor
  · rintro (⟨s, hs | rfl, hEq⟩ | hInbox)
    · exact Or.inr (Or.inl ⟨s, hs, hEq⟩)
    · exact Or.inl hEq.1.symm
    · exact Or.inr (Or.inr hInbox)
  · rintro (hEq | ⟨s, hs, hEq⟩ | hInbox)
    · exact Or.inl ⟨record, Or.inr rfl, hEq.symm, hMuted⟩
    · exact Or.inl ⟨s, Or.inl hs, hEq⟩
    · exact Or.inr hInbox

theorem live_addInbox {record : ZmqInboxImpl κ} {n : Nat} (hHandle : record.handle = n)
    (hSubs : impl'.subs = impl.subs) (hInboxes : impl'.inboxes = impl.inboxes ++ [record]) :
    impl'.live = insert n impl.live ∧ impl'.unmuted = insert n impl.unmuted := by
  subst hHandle
  have hSplit : ∀ h, (∃ i ∈ impl'.inboxes, i.handle = h) ↔
      h = record.handle ∨ ∃ i ∈ impl.inboxes, i.handle = h := by
    intro h
    simp only [hInboxes, List.mem_append, List.mem_singleton]
    constructor
    · rintro ⟨i, hi | rfl, hEq⟩
      · exact Or.inr ⟨i, hi, hEq⟩
      · exact Or.inl hEq.symm
    · rintro (hEq | ⟨i, hi, hEq⟩)
      · exact ⟨record, Or.inr rfl, hEq.symm⟩
      · exact ⟨i, Or.inl hi, hEq⟩
  constructor
  · ext h
    rw [Set.mem_insert_iff, DataTransport.mem_live, DataTransport.mem_live, hSplit, hSubs]
    exact or_left_comm
  · ext h
    simp only [DataTransport.unmuted, Set.mem_ofPred_eq, Set.mem_insert_iff, hSplit, hSubs]
    exact or_left_comm

/-- Records taken out, or muted. -/
theorem live_subset
    (hSubs : ∀ s ∈ impl'.subs, ∃ t ∈ impl.subs, t.handle = s.handle ∧
      (s.mIsNotMuted = true → t.mIsNotMuted = true))
    (hInboxes : ∀ i ∈ impl'.inboxes, i ∈ impl.inboxes) :
    impl'.live ⊆ impl.live ∧ impl'.unmuted ⊆ impl.unmuted := by
  constructor
  · intro h hh
    rw [DataTransport.mem_live] at hh ⊢
    rcases hh with ⟨s, hs, rfl⟩ | ⟨i, hi, hEq⟩
    · obtain ⟨t, ht, hEq, -⟩ := hSubs s hs
      exact Or.inl ⟨t, ht, hEq⟩
    · exact Or.inr ⟨i, hInboxes i hi, hEq⟩
  · rintro h (⟨s, hs, rfl, hMuted⟩ | ⟨i, hi, hEq⟩)
    · obtain ⟨t, ht, hEq, hImp⟩ := hSubs s hs
      exact Or.inl ⟨t, ht, hEq, hImp hMuted⟩
    · exact Or.inr ⟨i, hInboxes i hi, hEq⟩

end Live

-- ---------------------------------------------------------------------------
-- Arrivals
-- ---------------------------------------------------------------------------

/-- The items the dispatch thread queues fit the records they are for. -/
theorem Registry.queuedFor {impl : DataTransport κ ρ} {made : List (Made κ)}
    (hReg : Registry impl made) {m : DataMsg} (hDel : m.Deliverable)
    {regexec : ρ → List Byte → Bool} {it : Enqueue κ}
    (hIt : (¬ zmqReplyHandlePrefix <+: m.subject ∧ ∃ s ∈ impl.subs,
        s.Matches regexec m.subject ∧ (s.mIsWildcard = true ∨ s.mIsNotMuted = true) ∧
          it = s.item m.wire) ∨
      (zmqReplyHandlePrefix <+: m.subject ∧ ∃ i ∈ impl.inboxes,
        i.name = m.subject.drop zmqReplyHandleInboxNameIndex ∧ it = i.item m.wire)) :
    it.target ∈ impl.live ∧
      ∃ r, made[it.target]? = some r ∧ r.queue = it.queue ∧ QueuedFor r m it.tmsg := by
  rcases hIt with ⟨hSub, s, hs, hMatch, -, rfl⟩ | ⟨hPrefix, i, hi, hName, rfl⟩
  · refine ⟨DataTransport.mem_live.mpr (Or.inl ⟨s, hs, rfl⟩), s.made, hReg.subs_made s hs, rfl,
      rfl, ?_, rfl, hDel, ?_, ?_⟩
    · exact itemFor_name (hReg.names.name_nulFree (hReg.sub_mem_made hs))
        (hReg.names.name_length (hReg.sub_mem_made hs))
    · intro hCb
      refine (ZmqSubscription.matches_regular ?_).mp hMatch
      simpa [ZmqSubscription.made, ZmqSubscription.callback] using hCb
    · simp only [hSub, iff_false]
      simp only [ZmqSubscription.made, ZmqSubscription.callback]
      split <;> decide
  · refine ⟨DataTransport.mem_live.mpr (Or.inr ⟨i, hi, rfl⟩), i.made, hReg.inboxes_made i hi,
      rfl, rfl, ?_, rfl, hDel, ?_, ?_⟩
    · exact itemFor_name (hReg.names.name_nulFree (hReg.inbox_mem_made hi))
        (hReg.names.name_length (hReg.inbox_mem_made hi))
    · intro hCb
      cases hCb
    · exact ⟨fun _ => hPrefix, fun _ => rfl⟩

section Queues

variable [DecidableEq κ]

/-- Queueing the items of a message. -/
theorem World.Inv.enqueue {w : World κ ρ} (hInv : w.Inv) {m : DataMsg}
    {items : List (Enqueue κ)} (hNodup : (items.map Enqueue.target).Nodup)
    (hItems : ∀ it ∈ items, it.target ∈ w.impl.live ∧
      ∃ r, w.made[it.target]? = some r ∧ r.queue = it.queue ∧ QueuedFor r m it.tmsg) :
    (w.enqueue m items).Inv ∧ Mailbox.Step w.abs (w.enqueue m items).abs := by
  have hExt : w.Extends (w.enqueue m items) :=
    ⟨List.prefix_rfl, List.prefix_append _ _, List.prefix_rfl⟩
  have hLast : (w.enqueue m items).arrivals[w.arrivals.length]? = some m :=
    List.getElem?_concat_length
  refine ⟨⟨hInv.registry, ?_, ?_, hInv.notFaulted⟩, ?_⟩
  · intro q it hit
    rcases List.mem_append.mp hit with hit | hit
    · exact (hInv.items q it hit).mono hExt
    · obtain ⟨e, he, rfl⟩ := List.mem_map.mp hit
      obtain ⟨he, hq⟩ := List.mem_filter.mp he
      obtain ⟨-, r, hr, hQueue, hFor⟩ := hItems e he
      exact ⟨r, m, hr, hLast, hQueue.trans (by simpa using hq), hFor⟩
  · exact fun c hc => (hInv.calls c hc).mono hExt
  set targets : List (Nat × Bool) := items.map fun e =>
    (e.target, (w.enqueue m items).wants e.target w.arrivals.length) with hTargets
  have hEq : (w.enqueue m items).abs = { w.abs with
      queues := (w.enqueue m items).abs.queues
      arrived := w.abs.arrived + 1 } := by
    refine Mailbox.ext rfl rfl rfl rfl rfl rfl ?_
    simp [World.abs, World.enqueue]
  rw [hEq]
  refine @Mailbox.Step.arrive _ _ w.abs targets _ ?_ ?_ ?_
  · rw [hTargets, List.map_map]
    exact hNodup
  · intro t ht
    obtain ⟨e, he, rfl⟩ := List.mem_map.mp ht
    exact (hItems e he).1
  · intro q
    show (w.queues q ++ _).map _ = (w.queues q).map w.letter ++ _
    rw [List.map_append, hInv.letters_eq hExt q, Mailbox.posted, hTargets, List.filter_map,
      List.map_map, List.map_map]
    congr 1
    -- an item goes to the home of the record it is for
    refine congrArg (List.map _) (List.filter_congr fun e he => ?_)
    obtain ⟨-, r, hr, hQueue, -⟩ := hItems e he
    have hHome : w.abs.home e.target = some e.queue := by
      show w.made[e.target]?.map Made.queue = _
      rw [hr, Option.map_some, hQueue]
    rw [Function.comp_apply, hHome]
    simp

/-- Running the first item of a queue. -/
theorem World.Inv.dequeue {w : World κ ρ} (hInv : w.Inv) {queue : κ} {item : Queued}
    {rest : List Queued} (hQueue : w.queues queue = item :: rest) :
    ∃ outcome, TransportImpl.runCallback w.impl item.tmsg w.queueMsgs = .ok outcome ∧
      (w.dequeue queue item rest outcome).Inv ∧
      Mailbox.Step w.abs (w.dequeue queue item rest outcome).abs := by
  obtain ⟨r, m, hr, hm, hHome, hFor⟩ := hInv.items queue item (by
    rw [hQueue]
    exact List.mem_cons_self)
  obtain ⟨outcome, hOut, hTakes, hLeaves⟩ :=
    hInv.registry.runCallback_spec hr hFor w.queueMsgs
  have hExt : w.Extends (w.dequeue queue item rest outcome) :=
    ⟨List.prefix_rfl, List.prefix_rfl, List.prefix_append _ _⟩
  have hWants : w.wants item.target item.arrival = r.wants m := World.ItemOk.wants_eq hr hm
  have hUpdate : ∀ q, ∀ it ∈ Function.update w.queues queue rest q, it ∈ w.queues q := by
    intro q it hit
    rw [Function.update_apply] at hit
    split at hit
    · rename_i hq
      rw [hq, hQueue]
      exact List.mem_cons_of_mem _ hit
    · exact hit
  refine ⟨outcome, hOut, ⟨hInv.registry, ?_, ?_, hInv.notFaulted⟩, ?_⟩
  · exact fun q it hit => (hInv.items q it (hUpdate q it hit)).mono hExt
  · intro c hc
    rcases List.mem_append.mp hc with hc | hc
    · exact (hInv.calls c hc).mono hExt
    · obtain ⟨⟨h, buffer⟩, hCalled, rfl⟩ := List.mem_map.mp hc
      have hSome : outcome.called = some (h, buffer) := by simpa using hCalled
      by_cases hTake : item.target ∈ w.impl.live ∧ item.target ∈ w.impl.unmuted ∧
          r.wants m = true
      · obtain ⟨b, hb, hCall⟩ := hTakes hTake.1 hTake.2.1 hTake.2.2
        rw [hSome] at hCall
        cases hCall
        exact ⟨m, buffer, hm, hb, by rw [hFor.wire]⟩
      · rw [hLeaves hTake] at hSome
        cases hSome
  have hEq : (w.dequeue queue item rest outcome).abs = { w.abs with
      queues := (w.dequeue queue item rest outcome).abs.queues
      calls := (w.dequeue queue item rest outcome).abs.calls } := rfl
  rw [hEq]
  refine @Mailbox.Step.work _ _ w.abs queue (w.letter item) (rest.map w.letter) _ _
    ?_ ?_ ?_ ?_ ?_
  · show (w.queues queue).map w.letter = _
    rw [hQueue, List.map_cons]
  · show (Function.update w.queues queue rest queue).map w.letter = _
    rw [Function.update_self]
  · intro q hq
    show (Function.update w.queues queue rest q).map w.letter = (w.queues q).map w.letter
    rw [Function.update_of_ne hq]
  · rintro ⟨hLive, hUnmuted, hWanted⟩
    obtain ⟨buffer, -, hCalled⟩ := hTakes hLive hUnmuted (hWants ▸ hWanted)
    show (w.calls ++ _).map _ = w.calls.map _ ++ _
    rw [hCalled, List.map_append]
    rfl
  · intro hNot
    have hNone := hLeaves fun h => hNot ⟨h.1, h.2.1, hWants.trans h.2.2⟩
    show (w.calls ++ _).map _ = w.calls.map _
    rw [hNone]
    simp

/-- An arrival queues exactly the items it should. -/
theorem World.Inv.step_arrive {L : Libraries ρ} {w w' : World κ ρ} {m : DataMsg} (hInv : w.Inv)
    (h : World.step L w (.arrive m) = some w') :
    ∃ items, w' = w.enqueue m items ∧ m.Deliverable ∧ (items.map Enqueue.target).Nodup ∧
      ∀ it, it ∈ items ↔
        (¬ zmqReplyHandlePrefix <+: m.subject ∧ ∃ s ∈ w.impl.subs,
          s.Matches L.regexec m.subject ∧ (s.mIsWildcard = true ∨ s.mIsNotMuted = true) ∧
            it = s.item m.wire) ∨
        (zmqReplyHandlePrefix <+: m.subject ∧ ∃ i ∈ w.impl.inboxes,
          i.name = m.subject.drop zmqReplyHandleInboxNameIndex ∧ it = i.item m.wire) := by
  simp only [World.step] at h
  split at h
  · rename_i hDel
    obtain ⟨items, status, hEq, hNodup, hItems⟩ :=
      hInv.registry.dispatchNormalMsg_spec m L.regexec hDel (L.order_perm w.arrivals.length)
    rw [hEq] at h
    exact ⟨items, (Option.some.inj h).symm, hDel, hNodup, hItems⟩
  · cases h

/-- **One step** keeps tables, queues and history in agreement, is a step of
the mailbox, and registers a record exactly if it creates one. -/
theorem World.Inv.step {L : Libraries ρ} {w w' : World κ ρ} {a : WorldAct κ ρ} (hInv : w.Inv)
    (hBound : a.creates = true → w.made.length + 1 < 2 ^ 64)
    (h : World.step L w a = some w') :
    (w'.Inv ∧ Mailbox.Step w.abs w'.abs) ∧
      w'.made.length = w.made.length + if a.creates then 1 else 0 := by
  have hReg := hInv.registry
  cases a with
  | create key queue =>
    obtain ⟨record, hHandle, -, -, hMuted, -, hSubs, hReg'⟩ :=
      hReg.create (hBound rfl) key queue true
    simp only [World.step, hSubs, List.getLast?_concat, Option.toList_some,
      List.map_singleton, Option.some.injEq] at h
    subst h
    exact ⟨hInv.register rfl hReg' (live_addSub hHandle hSubs rfl)
      (unmuted_addSub hHandle hSubs rfl hMuted) rfl rfl rfl rfl, by simp [WorldAct.creates]⟩
  | createWildcard key regex queue =>
    obtain ⟨record, hHandle, -, -, hMuted, -, hSubs, hReg'⟩ :=
      hReg.createWildcard (hBound rfl) key regex queue true
    simp only [World.step, hSubs, List.getLast?_concat, Option.toList_some,
      List.map_singleton, Option.some.injEq] at h
    subst h
    exact ⟨hInv.register rfl hReg' (live_addSub hHandle hSubs rfl)
      (unmuted_addSub hHandle hSubs rfl hMuted) rfl rfl rfl rfl, by simp [WorldAct.creates]⟩
  | mute handle =>
    simp only [World.step] at h
    split at h
    · cases h
      have hSubset : (Subscription.mute w.impl handle).live ⊆ w.impl.live ∧
          (Subscription.mute w.impl handle).unmuted ⊆ w.impl.unmuted := by
        refine live_subset (fun s hs => ?_) fun i hi => hi
        obtain ⟨t, ht, rfl⟩ := List.mem_map.mp hs
        refine ⟨t, ht, ?_⟩
        split
        · exact ⟨rfl, fun h => by cases h⟩
        · exact ⟨rfl, id⟩
      exact ⟨hInv.withdraw (hReg.mute handle) rfl hSubset.1 hSubset.2 rfl rfl rfl rfl, rfl⟩
    · cases h
  | destroy handle =>
    simp only [World.step] at h
    split at h
    · rename_i hMem
      obtain ⟨s, hs, rfl⟩ := List.mem_map.mp hMem
      rw [hReg.destroy_eq hs] at h
      cases h
      set impl' := w.impl.withSubs (w.impl.subs.filter (·.handle ≠ s.handle))
      have hSubset : impl'.live ⊆ w.impl.live ∧ impl'.unmuted ⊆ w.impl.unmuted :=
        live_subset (fun t ht => ⟨t, (List.mem_filter.mp ht).1, rfl, id⟩) fun i hi => hi
      exact ⟨hInv.withdraw (hReg.destroy s.handle) rfl hSubset.1 hSubset.2 rfl rfl rfl rfl, rfl⟩
    · cases h
  | createInbox queue =>
    obtain ⟨record, hHandle, -, hInboxes, hReg'⟩ := hReg.createInbox (hBound rfl) queue
    simp only [World.step, hInboxes, List.getLast?_concat, Option.toList_some,
      List.map_singleton, Option.some.injEq] at h
    subst h
    set impl' := Inbox.createByIndex w.impl w.made.length queue
    have hSubs : impl'.subs = w.impl.subs := rfl
    obtain ⟨hLive, hUnmuted⟩ := live_addInbox hHandle hSubs hInboxes
    exact ⟨hInv.register rfl hReg' hLive hUnmuted rfl rfl rfl rfl, by simp [WorldAct.creates]⟩
  | destroyInbox handle =>
    simp only [World.step] at h
    split at h
    · rename_i hMem
      obtain ⟨i, hi, rfl⟩ := List.mem_map.mp hMem
      obtain ⟨impl', hDestroy, hSubs, -, hInboxes, hReg'⟩ := hReg.destroyInbox hi
      rw [hDestroy] at h
      cases h
      have hSubset : impl'.live ⊆ w.impl.live ∧ impl'.unmuted ⊆ w.impl.unmuted := by
        refine live_subset (fun s hs => ⟨s, hSubs ▸ hs, rfl, id⟩) fun j hj => ?_
        rw [hInboxes] at hj
        exact (List.mem_filter.mp hj).1
      exact ⟨hInv.withdraw hReg' rfl hSubset.1 hSubset.2 rfl rfl rfl rfl, rfl⟩
    · cases h
  | arrive m =>
    obtain ⟨items, rfl, hDel, hNodup, hItems⟩ := hInv.step_arrive h
    exact ⟨hInv.enqueue hNodup fun it hit => hReg.queuedFor hDel ((hItems it).mp hit), rfl⟩
  | runQueue queue =>
    simp only [World.step] at h
    split at h
    · cases h
    · rename_i item rest hQueue
      obtain ⟨outcome, hOut, hBoth⟩ := hInv.dequeue hQueue
      rw [hOut] at h
      cases h
      exact ⟨hBoth, rfl⟩
  | shareQueue queue msg =>
    simp only [World.step, Option.some.injEq] at h
    subst h
    exact ⟨⟨⟨hReg, hInv.items, hInv.calls, hInv.notFaulted⟩, .idle⟩, rfl⟩
  | dispatchControl =>
    simp only [World.step] at h
    split at h
    · cases h
    · cases h
      exact ⟨⟨⟨hReg, hInv.items, hInv.calls, hInv.notFaulted⟩, .idle⟩, rfl⟩

-- ---------------------------------------------------------------------------
-- Runs
-- ---------------------------------------------------------------------------

/-- How many records the run registers. -/
def creations (as : List (WorldAct κ ρ)) : Nat := as.countP WorldAct.creates

variable {L : Libraries ρ} {mUuid : Uuid} {queueMsgs : κ → ZmqBridgeMsgImpl}

omit [DecidableEq κ] in
theorem creations_snoc (as : List (WorldAct κ ρ)) (a : WorldAct κ ρ) :
    creations (as ++ [a]) = creations as + if a.creates then 1 else 0 := by
  rw [creations, List.countP_append, List.countP_singleton]
  rfl

theorem World.inv_run {as : List (WorldAct κ ρ)} {w : World κ ρ}
    (hRun : run (World.step L) (World.init mUuid queueMsgs) as = some w)
    (hBound : creations as < 2 ^ 64) : w.Inv ∧ w.made.length = creations as := by
  refine run_induction (P := fun as w => creations as < 2 ^ 64 →
    w.Inv ∧ w.made.length = creations as) ?_ ?_ hRun hBound
  · exact fun _ => ⟨World.inv_init mUuid queueMsgs, rfl⟩
  · intro as w a w' _ ih ha hBound
    rw [creations_snoc] at hBound ⊢
    obtain ⟨hInv, hLen⟩ := ih (by omega)
    obtain ⟨⟨hInv', -⟩, hLen'⟩ := hInv.step (fun hCreates => by
      rw [if_pos hCreates] at hBound
      omega) ha
    exact ⟨hInv', by rw [hLen', hLen]⟩

/-- **Refinement.** A run with fewer than 2^64 creations is a run of the
mailbox. -/
theorem World.simulates {as : List (WorldAct κ ρ)} (hBound : creations as < 2 ^ 64) :
    Mailbox.Simulates (World.step L) World.abs (World.init mUuid queueMsgs) as := by
  intro pre a post w w' hEq hPre ha
  have hSplit : creations as = creations pre + (if a.creates then 1 else 0) + creations post := by
    rw [hEq, ← creations_snoc, creations, creations, creations, ← List.countP_append]
    simp
  obtain ⟨hInv, hLen⟩ := World.inv_run hPre (by omega)
  exact (hInv.step (fun hCreates => by
    rw [if_pos hCreates] at hSplit
    omega) ha).1.2

end Queues

/-- A regex matcher that accepts everything, and a table in list order. -/
def acceptAll : Libraries Unit where
  regexec := fun _ _ => true
  order := fun _ l => l
  order_perm := fun _ _ => List.Perm.refl _

def uuidA : Uuid where
  bytes := List.replicate uuidStringSize 0x61
  length_eq := by decide
  nulFree := by decide

def keyB : SubjectKey where
  bytes := [0x42]
  nulFree := publishB.subject_nulFree
  length_lt := by decide

end ZmqBridge
