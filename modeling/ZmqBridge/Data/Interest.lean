import ZmqBridge.Lib.Tally
import ZmqBridge.Data.World

/-!
# ZmqBridge — interest at the data socket

A subscription is registered at once, but the data socket learns of it later:
creating and destroying send 'S' and 'U' control messages, which the dispatch
thread applies to the socket's reference counts in order. The counts, the
messages on their way and the live subscriptions balance in every state of
every run.

* `World.Settled.step`  — one step keeps the balance;
* `subscription_counts_balance`.
-/

namespace ZmqBridge

open Lib

variable {κ ρ : Type}

-- ---------------------------------------------------------------------------
-- Control messages as changes of a count
-- ---------------------------------------------------------------------------

/-- What a control message changes. -/
def ZmqControlMsg.tally (msg : ZmqControlMsg) : Option (Tally (List Byte)) :=
  if msg.command = commandSubscribe then some (.inc msg.arg1.cstr)
  else if msg.command = commandUnsubscribe then some (.dec msg.arg1.cstr)
  else none

theorem tally_subscribe {msg : ZmqControlMsg} (h : msg.command = commandSubscribe) :
    msg.tally = some (.inc msg.arg1.cstr) := if_pos h

theorem tally_unsubscribe {msg : ZmqControlMsg} (h : msg.command = commandUnsubscribe) :
    msg.tally = some (.dec msg.arg1.cstr) := by
  have hne : msg.command ≠ commandSubscribe := by
    rw [h]
    decide
  exact (if_neg hne).trans (if_pos h)

theorem tally_other {msg : ZmqControlMsg} (hS : msg.command ≠ commandSubscribe)
    (hU : msg.command ≠ commandUnsubscribe) : msg.tally = none :=
  (if_neg hS).trans (if_neg hU)

theorem dispatchControlMsg_eq (dataSub : List Byte → Nat) (msg : ZmqControlMsg) :
    TransportImpl.dispatchControlMsg dataSub msg =
      (msg.tally.elim dataSub fun op => op.apply dataSub) := by
  unfold TransportImpl.dispatchControlMsg ZmqControlMsg.tally
  by_cases hS : msg.command = commandSubscribe
  · simp only [if_pos hS]
    rfl
  · by_cases hU : msg.command = commandUnsubscribe
    · simp only [if_neg hS, if_pos hU]
      rfl
    · simp only [if_neg hS, if_neg hU]
      rfl

/-- A subject key fits the argument of a control message. -/
theorem controlMsg_cstr (command : Byte) (key : SubjectKey) :
    (controlMsg command key.bytes).arg1.cstr = key.bytes := by
  refine (strSizeCpy_holds key.nulFree ?_).1.cstr_eq
  have := key.length_lt
  omega

theorem subscribe_tally (key : SubjectKey) :
    (SubscriptionImpl.subscribe key.bytes true).1.filterMap ZmqControlMsg.tally =
      [.inc key.bytes] := by
  have hTally := @tally_subscribe (controlMsg commandSubscribe key.bytes) rfl
  rw [controlMsg_cstr] at hTally
  show [controlMsg commandSubscribe key.bytes].filterMap ZmqControlMsg.tally = _
  rw [List.filterMap_cons_some hTally, List.filterMap_nil]

theorem unsubscribe_tally (key : SubjectKey) :
    (SubscriptionImpl.unsubscribe key.bytes true).1.filterMap ZmqControlMsg.tally =
      [.dec key.bytes] := by
  have hTally := @tally_unsubscribe (controlMsg commandUnsubscribe key.bytes) rfl
  rw [controlMsg_cstr] at hTally
  show [controlMsg commandUnsubscribe key.bytes].filterMap ZmqControlMsg.tally = _
  rw [List.filterMap_cons_some hTally, List.filterMap_nil]

-- ---------------------------------------------------------------------------
-- Interest
-- ---------------------------------------------------------------------------

/-- How often the socket should be subscribed to `t`: once for each live
subscription with that key, and once for the inbox subject. -/
def DataTransport.interest (impl : DataTransport κ ρ) (t : List Byte) : Nat :=
  impl.subs.countP (·.mSubjectKey.bytes = t) + if t = impl.mInboxSubject then 1 else 0

/-- The pending control messages with a command and a topic. -/
def World.pending (w : World κ ρ) (command : Byte) (t : List Byte) : Nat :=
  w.control.countP fun msg => msg.command = command ∧ msg.arg1.cstr = t

/-- The socket's counts, the pending messages and the interest balance. -/
def World.Settled (w : World κ ρ) : Prop :=
  Balanced w.dataSub (w.control.filterMap ZmqControlMsg.tally) w.impl.interest

theorem DataTransport.interest_add {impl impl' : DataTransport κ ρ}
    {record : ZmqSubscription κ ρ} (hSubs : impl'.subs = impl.subs ++ [record])
    (hUuid : impl'.mUuid = impl.mUuid) :
    impl'.interest = (Tally.inc record.mSubjectKey.bytes).apply impl.interest := by
  funext t
  have hSubject : impl'.mInboxSubject = impl.mInboxSubject := by
    rw [DataTransport.mInboxSubject, hUuid, DataTransport.mInboxSubject]
  rw [DataTransport.interest, hSubs, hSubject, List.countP_append, List.countP_singleton,
    Tally.apply, Function.update_apply]
  by_cases ht : t = record.mSubjectKey.bytes
  · rw [if_pos ht, ← ht, if_pos (by simp)]
    simp only [DataTransport.interest]
    omega
  · rw [if_neg ht, if_neg (by simpa using Ne.symm ht)]
    rfl

/-- Removing the first element that satisfies `p`, counted by `q`. -/
theorem countP_eraseP {α : Type} {p q : α → Bool} {l : List α} {a : α}
    (h : l.find? p = some a) :
    l.countP q = (l.eraseP p).countP q + if q a then 1 else 0 := by
  induction l with
  | nil => cases h
  | cons b l ih =>
    cases hb : p b with
    | true =>
      rw [List.find?_cons_of_pos hb] at h
      cases h
      rw [List.eraseP_cons_of_pos hb, List.countP_cons]
    | false =>
      rw [List.find?_cons_of_neg (by simp [hb])] at h
      rw [List.eraseP_cons_of_neg (by simp [hb]), List.countP_cons, List.countP_cons, ih h]
      omega

theorem DataTransport.interest_remove {impl impl' : DataTransport κ ρ} {handle : Nat}
    {s : ZmqSubscription κ ρ} (hFind : impl.subs.find? (·.handle = handle) = some s)
    (hSubs : impl'.subs = impl.subs.eraseP (·.handle = handle))
    (hUuid : impl'.mUuid = impl.mUuid) :
    0 < impl.interest s.mSubjectKey.bytes ∧
      impl'.interest = (Tally.dec s.mSubjectKey.bytes).apply impl.interest := by
  have hSubject : impl'.mInboxSubject = impl.mInboxSubject := by
    rw [DataTransport.mInboxSubject, hUuid, DataTransport.mInboxSubject]
  have hCount : ∀ t, impl.interest t =
      impl'.interest t + if s.mSubjectKey.bytes = t then 1 else 0 := by
    intro t
    have hErase := countP_eraseP (q := (·.mSubjectKey.bytes = t)) hFind
    simp only [decide_eq_true_eq] at hErase
    rw [DataTransport.interest, DataTransport.interest, hSubs, hSubject, hErase]
    omega
  refine ⟨by rw [hCount, if_pos rfl]; omega, ?_⟩
  funext t
  have ht := hCount t
  rw [Tally.apply, Function.update_apply]
  by_cases hEq : t = s.mSubjectKey.bytes
  · rw [if_pos hEq, ← hEq]
    rw [if_pos hEq.symm] at ht
    omega
  · rw [if_neg hEq]
    rw [if_neg (Ne.symm hEq)] at ht
    omega

-- ---------------------------------------------------------------------------
-- Steps and runs
-- ---------------------------------------------------------------------------

theorem World.settled_init (mUuid : Uuid) (queueMsgs : κ → ZmqBridgeMsgImpl) :
    (World.init mUuid queueMsgs : World κ ρ).Settled := by
  have hInterest : (World.init mUuid queueMsgs : World κ ρ).impl.interest =
      (World.init mUuid queueMsgs : World κ ρ).dataSub := by
    funext t
    exact Nat.zero_add _
  rw [World.Settled, hInterest]
  exact balanced_nil _

/-- A subscription that comes with its 'S' message. -/
theorem World.Settled.add {w w' : World κ ρ} (h : w.Settled) {record : ZmqSubscription κ ρ}
    (hSubs : w'.impl.subs = w.impl.subs ++ [record]) (hUuid : w'.impl.mUuid = w.impl.mUuid)
    (hControl : w'.control =
      w.control ++ (SubscriptionImpl.subscribe record.mSubjectKey.bytes true).1)
    (hData : w'.dataSub = w.dataSub) : w'.Settled := by
  rw [World.Settled, hData, hControl, List.filterMap_append, subscribe_tally,
    DataTransport.interest_add hSubs hUuid]
  refine Balanced.post h fun u => ?_
  rw [Tally.delta]
  split <;> omega

/-- A subscription that goes with its 'U' message. -/
theorem World.Settled.remove {w w' : World κ ρ} (h : w.Settled) {handle : Nat}
    {s : ZmqSubscription κ ρ} (hFind : w.impl.subs.find? (·.handle = handle) = some s)
    (hSubs : w'.impl.subs = w.impl.subs.eraseP (·.handle = handle))
    (hUuid : w'.impl.mUuid = w.impl.mUuid)
    (hControl : w'.control =
      w.control ++ (SubscriptionImpl.unsubscribe s.mSubjectKey.bytes true).1)
    (hData : w'.dataSub = w.dataSub) : w'.Settled := by
  obtain ⟨hPos, hInterest⟩ := DataTransport.interest_remove hFind hSubs hUuid
  rw [World.Settled, hData, hControl, List.filterMap_append, unsubscribe_tally, hInterest]
  refine Balanced.post h fun u => ?_
  rw [Tally.delta]
  split
  · rename_i hEq
    rw [hEq]
    omega
  · omega

/-- Everything else leaves the balance alone. -/
theorem World.Settled.other {w w' : World κ ρ} (h : w.Settled)
    (hSubs : w'.impl.subs.map ZmqSubscription.mSubjectKey =
      w.impl.subs.map ZmqSubscription.mSubjectKey) (hUuid : w'.impl.mUuid = w.impl.mUuid)
    (hControl : w'.control = w.control) (hData : w'.dataSub = w.dataSub) : w'.Settled := by
  have hInterest : w'.impl.interest = w.impl.interest := by
    funext t
    have hCount : ∀ impl : DataTransport κ ρ,
        impl.subs.countP (·.mSubjectKey.bytes = t) =
          (impl.subs.map ZmqSubscription.mSubjectKey).countP (·.bytes = t) := by
      intro impl
      rw [List.countP_map]
      rfl
    rw [DataTransport.interest, DataTransport.interest, hCount, hCount, hSubs,
      DataTransport.mInboxSubject, DataTransport.mInboxSubject, hUuid]
  rw [World.Settled, hData, hControl, hInterest]
  exact h

variable [DecidableEq κ] {L : Libraries ρ}

/-- **One step** keeps the balance. -/
theorem World.Settled.step {w w' : World κ ρ} {a : WorldAct κ ρ} (h : w.Settled)
    (ha : World.step L w a = some w') : w'.Settled := by
  cases a with
  | create key queue =>
    cases ha
    exact h.add rfl rfl rfl rfl
  | createWildcard key regex queue =>
    cases ha
    exact h.add rfl rfl rfl rfl
  | mute handle =>
    simp only [World.step] at ha
    split at ha
    · cases ha
      refine h.other ?_ rfl rfl rfl
      show (w.impl.subs.map _).map _ = _
      rw [List.map_map]
      refine List.map_congr_left fun s _ => ?_
      rw [Function.comp_apply]
      split <;> rfl
    · cases ha
  | destroy handle =>
    simp only [World.step] at ha
    split at ha
    · split at ha
      · cases ha
        exact h
      · rename_i impl' sent status hDestroy
        cases ha
        obtain ⟨s, hFind, hSubs, hUuid, rfl⟩ := destroy_ok hDestroy
        exact h.remove hFind hSubs hUuid rfl rfl
    · cases ha
  | createInbox queue =>
    cases ha
    exact h.other rfl rfl rfl rfl
  | destroyInbox handle =>
    simp only [World.step] at ha
    split at ha
    · split at ha
      · cases ha
        exact h
      · rename_i impl' hDestroy
        cases ha
        rw [Inbox.destroy] at hDestroy
        cases hInbox : w.impl.inbox handle with
        | error e =>
          rw [hInbox] at hDestroy
          cases hDestroy
        | ok inbox =>
          rw [hInbox] at hDestroy
          cases hDestroy
          exact h.other rfl rfl rfl rfl
    · cases ha
  | arrive m =>
    simp only [World.step] at ha
    split at ha
    · split at ha <;> cases ha <;> exact h
    · cases ha
  | runQueue queue =>
    simp only [World.step] at ha
    split at ha
    · cases ha
    · split at ha <;> cases ha <;> exact h
  | shareQueue queue msg =>
    cases ha
    exact h
  | dispatchControl =>
    simp only [World.step] at ha
    split at ha
    · cases ha
    · rename_i msg rest hControl
      cases ha
      rw [World.Settled, hControl] at h
      show Balanced (TransportImpl.dispatchControlMsg w.dataSub msg) _ w.impl.interest
      rw [dispatchControlMsg_eq]
      cases hTally : msg.tally with
      | none =>
        rw [List.filterMap_cons_none hTally] at h
        exact h
      | some op =>
        rw [List.filterMap_cons_some hTally] at h
        exact h.apply

omit [DecidableEq κ] in
/-- How often a change is pending. -/
theorem World.count_tally (w : World κ ρ) (t : List Byte) :
    (w.control.filterMap ZmqControlMsg.tally).count (.inc t) = w.pending commandSubscribe t ∧
    (w.control.filterMap ZmqControlMsg.tally).count (.dec t) =
      w.pending commandUnsubscribe t := by
  have hne : commandSubscribe ≠ commandUnsubscribe := by decide
  rw [List.count_filterMap, List.count_filterMap, World.pending, World.pending]
  constructor
  · refine List.countP_congr fun msg _ => ?_
    by_cases hS : msg.command = commandSubscribe
    · rw [tally_subscribe hS]
      simp [hS]
    · by_cases hU : msg.command = commandUnsubscribe
      · rw [tally_unsubscribe hU]
        simp [hS]
      · rw [tally_other hS hU]
        simp [hS]
  · refine List.countP_congr fun msg _ => ?_
    by_cases hS : msg.command = commandSubscribe
    · rw [tally_subscribe hS]
      simp [hS, hne]
    · by_cases hU : msg.command = commandUnsubscribe
      · rw [tally_unsubscribe hU]
        simp [hU]
      · rw [tally_other hS hU]
        simp [hU]

/--
**The socket's counts match the live subscriptions.** In every run, for every
topic: the reference count at the data socket plus the pending 'S' minus the
pending 'U' messages is the number of live subscriptions with that key, plus
one for the inbox subject. No 'U' is applied to a count of zero. Once the
control messages are handled, the socket is subscribed to exactly the keys of
the live subscriptions and the inbox subject.
-/
theorem subscription_counts_balance {mUuid : Uuid} {queueMsgs : κ → ZmqBridgeMsgImpl}
    {as : List (WorldAct κ ρ)} {w : World κ ρ}
    (hRun : run (World.step L) (World.init mUuid queueMsgs) as = some w) :
    (∀ t, (w.dataSub t : Int) + w.pending commandSubscribe t - w.pending commandUnsubscribe t =
      w.impl.subs.countP (·.mSubjectKey.bytes = t) +
        if t = w.impl.mInboxSubject then 1 else 0) ∧
    (∀ msg rest, w.control = msg :: rest → msg.command = commandUnsubscribe →
      0 < w.dataSub msg.arg1.cstr) ∧
    (w.control = [] → ∀ t, 0 < w.dataSub t ↔
      (∃ s ∈ w.impl.subs, s.mSubjectKey.bytes = t) ∨ t = w.impl.mInboxSubject) := by
  have hSettled : w.Settled :=
    run_invariant (fun _ _ _ h ha => World.Settled.step h ha)
      (World.settled_init mUuid queueMsgs) hRun
  refine ⟨fun t => ?_, fun msg rest hControl hU => ?_, fun hControl t => ?_⟩
  · have ht := hSettled.total t
    obtain ⟨hInc, hDec⟩ := w.count_tally t
    rw [net_eq_count, hInc, hDec, DataTransport.interest] at ht
    push_cast at ht
    omega
  · rw [World.Settled, hControl, List.filterMap_cons_some (tally_unsubscribe hU)] at hSettled
    exact hSettled.dec_pos
  · rw [World.Settled, hControl, List.filterMap_nil] at hSettled
    rw [hSettled.drained t, DataTransport.interest]
    by_cases hInbox : t = w.impl.mInboxSubject
    · simp [hInbox]
    · simp [hInbox, List.countP_pos_iff]

/-- Two subscriptions for one topic, of which the first has reached the socket
and is being withdrawn. -/
theorem counts_balance_keyB :
    ∃ w, run (World.step acceptAll)
        (World.init uuidA fun _ : Unit => MamaMsgImpl.createMsgOnly)
        [.create keyB (), .dispatchControl, .createWildcard keyB () (), .destroy 0] = some w ∧
      w.dataSub keyB.bytes = 1 ∧ w.control.length = 2 ∧
      (w.dataSub keyB.bytes : Int) + w.pending commandSubscribe keyB.bytes -
        w.pending commandUnsubscribe keyB.bytes = 1 := by
  have hRun : run (World.step acceptAll)
      (World.init uuidA fun _ : Unit => MamaMsgImpl.createMsgOnly)
      [.create keyB (), .dispatchControl, .createWildcard keyB () (), .destroy 0] = some _ := rfl
  refine ⟨_, hRun, rfl, rfl, ?_⟩
  rw [(subscription_counts_balance hRun).1 keyB.bytes]
  rfl

end ZmqBridge
