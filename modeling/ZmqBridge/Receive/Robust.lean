import ZmqBridge.Data.World
import ZmqBridge.Receive.Paths

/-!
# ZmqBridge — arbitrary bytes on the sockets

A transport whose peers send whatever they like: byte strings arrive on the data
socket and on the naming socket, queues run the items, and the application
creates and destroys subscriptions and inboxes, any number of them, in any
interleaving.

* `receiver_sound_iff`  — no access outside an object, and every payload handed
  on with its true length, exactly as long as every message meets the condition
  of the handler that is given it;
* `malformed_messages`  — messages that do not.
-/

namespace ZmqBridge

open Lib

variable {κ ρ : Type}

/-- A transport and its queues. `next` is the address of the next record and
`handed` what was set in the queues' messages, with the message it points into.
An invalid access sets `faulted`. -/
structure Receiver (κ ρ : Type) where
  impl : DataTransport κ ρ
  naming : NamingTransport
  next : Nat
  arrivals : Nat
  queues : κ → List ZmqTransportMsg
  queueMsgs : κ → ZmqBridgeMsgImpl
  handed : List (List Byte × MsgBuffer)
  faulted : Bool

def Receiver.init (mUuid : Uuid) (naming : NamingTransport)
    (queueMsgs : κ → ZmqBridgeMsgImpl) : Receiver κ ρ where
  impl := .init mUuid
  naming := naming
  next := 0
  arrivals := 0
  queues := fun _ => []
  queueMsgs := queueMsgs
  handed := []
  faulted := false

inductive ReceiverAct (κ ρ : Type) where
  | create (key : SubjectKey) (queue : κ) (sendOk : Bool)
  | createWildcard (key : SubjectKey) (regex : ρ) (queue : κ) (sendOk : Bool)
  | mute (handle : Nat)
  | destroy (handle : Nat) (sendOk : Bool)
  | createInbox (queue : κ)
  | destroyInbox (handle : Nat)
  | shareQueue (queue : κ) (msg : ZmqBridgeMsgImpl)
  | data (zmsg : List Byte)
  | runQueue (queue : κ)
  | naming (calls : NamingCalls) (zmsg : List Byte)
  | publish (pc : PublishPc)

section Step

variable [DecidableEq κ] (reads : MemcmpReads) (L : Libraries ρ) (p : Platform)

/-- One step. The application only names records it holds. -/
def Receiver.step (r : Receiver κ ρ) : ReceiverAct κ ρ → Option (Receiver κ ρ)
  | .create key queue sendOk =>
    some { r with
      impl := (SubscriptionImpl.create r.impl r.next key queue sendOk).1, next := r.next + 1 }
  | .createWildcard key regex queue sendOk =>
    some { r with
      impl := (SubscriptionImpl.createWildcard r.impl r.next key regex queue sendOk).1
      next := r.next + 1 }
  | .mute handle => some { r with impl := Subscription.mute r.impl handle }
  | .destroy handle sendOk =>
    if handle ∈ r.impl.subs.map ZmqSubscription.handle then
      match Subscription.destroy r.impl handle sendOk with
      | .error _ => some { r with faulted := true }
      | .ok (impl, _) => some { r with impl }
    else none
  | .createInbox queue =>
    some { r with impl := Inbox.createByIndex r.impl r.next queue, next := r.next + 1 }
  | .destroyInbox handle =>
    if handle ∈ r.impl.inboxes.map ZmqInboxImpl.handle then
      match Inbox.destroy r.impl handle with
      | .error _ => some { r with faulted := true }
      | .ok impl => some { r with impl }
    else none
  | .shareQueue queue msg =>
    some { r with queueMsgs := Function.update r.queueMsgs queue msg }
  | .data zmsg =>
    match TransportImpl.receiveData reads L.regexec (L.order r.arrivals) r.impl zmsg with
    | .error _ => some { r with faulted := true }
    | .ok items =>
      some { r with
        arrivals := r.arrivals + 1
        queues := fun q => r.queues q ++ (items.filter (·.queue = q)).map Enqueue.tmsg }
  | .runQueue queue =>
    match r.queues queue with
    | [] => none
    | tmsg :: rest =>
      match TransportImpl.runCallback r.impl tmsg r.queueMsgs with
      | .error _ => some { r with faulted := true }
      | .ok out =>
        some { r with
          queues := Function.update r.queues queue rest
          queueMsgs := out.queueMsgs
          handed := r.handed ++ out.msgBuffer.toList.map fun b => (tmsg.mZmsg, b) }
  | .naming calls zmsg =>
    match TransportImpl.receiveNaming p calls r.naming zmsg with
    | .error _ => some { r with faulted := true }
    | .ok naming => some { r with naming }
  | .publish pc => some { r with naming := (TransportImpl.publishEndpoints r.naming pc).impl }

/-- No access was invalid, and what was handed on is what follows the header. -/
def Receiver.Sound (r : Receiver κ ρ) : Prop :=
  r.faulted = false ∧ ∀ h ∈ r.handed, h.2.Exact h.1

/-- The message the step is about meets the condition of its handler. -/
def Receiver.Meets (r : Receiver κ ρ) : ReceiverAct κ ρ → Prop
  | .data zmsg => zmsg = [] ∨ DispatchFits reads r.impl zmsg
  | .runQueue queue => ∀ tmsg ∈ (r.queues queue).head?, r.impl.Takes tmsg →
    Decodable tmsg.mZmsg
  | .naming calls zmsg => zmsg = [] ∨ NamingFits p calls r.naming zmsg
  | _ => True

end Step

-- ---------------------------------------------------------------------------
-- The invariant
-- ---------------------------------------------------------------------------

/-- The tables are in order and every queued message has a terminated
subject. -/
structure Receiver.Inv (r : Receiver κ ρ) : Prop where
  pointers : Pointers r.impl r.next
  queued : ∀ q, ∀ tmsg ∈ r.queues q, (0 : Byte) ∈ tmsg.mZmsg

theorem pointers_init (mUuid : Uuid) :
    Pointers (DataTransport.init mUuid : DataTransport κ ρ) 0 where
  handles_lt := fun h hh => by cases hh
  nodup := List.nodup_nil
  regular := fun e he => by cases he
  wildcard := fun h hh => by cases hh
  inbox := fun name h hh => by
    rw [DataTransport.init, AList.lookup_empty] at hh
    cases hh
  identifiers := fun s hs => by cases hs
  names := fun i hi => by cases hi

theorem Receiver.inv_init (mUuid : Uuid) (naming : NamingTransport)
    (queueMsgs : κ → ZmqBridgeMsgImpl) :
    (Receiver.init mUuid naming queueMsgs : Receiver κ ρ).Inv :=
  ⟨pointers_init mUuid, fun q tmsg h => by cases h⟩

section Run

variable [DecidableEq κ] {reads : MemcmpReads} {L : Libraries ρ} {p : Platform}
  {r r' : Receiver κ ρ}

omit [DecidableEq κ] in
/-- A step with an invalid access. -/
theorem Receiver.Inv.fault (hInv : r.Inv) :
    Receiver.Inv { r with faulted := true } ∧ ¬ Receiver.Sound { r with faulted := true } :=
  ⟨⟨hInv.pointers, hInv.queued⟩, fun h => Bool.noConfusion h.1⟩

/-- A data message that arrives: the dispatch succeeds exactly when the message
meets its condition. -/
theorem Receiver.Inv.data (hInv : r.Inv) (hSound : r.Sound) {zmsg : List Byte}
    (h : Receiver.step reads L p r (.data zmsg) = some r') :
    r'.Inv ∧ (r'.Sound ↔ Receiver.Meets reads p r (.data zmsg)) := by
  have hIff := hInv.pointers.receiveData_iff reads L.regexec (L.order_perm r.arrivals) zmsg
  simp only [Receiver.step] at h
  cases hOut : TransportImpl.receiveData reads L.regexec (L.order r.arrivals) r.impl zmsg with
  | error e =>
    rw [hOut] at h hIff
    cases h
    exact ⟨hInv.fault.1,
      iff_of_false hInv.fault.2 fun hm => not_inside_error _ (hIff.mpr hm)⟩
  | ok items =>
    rw [hOut] at h hIff
    cases h
    refine ⟨⟨hInv.pointers, fun q tmsg hIn => ?_⟩, iff_of_true hSound (hIff.mp (inside_ok _))⟩
    rcases List.mem_append.mp hIn with hIn | hIn
    · exact hInv.queued q tmsg hIn
    · obtain ⟨item, hItem, rfl⟩ := List.mem_map.mp hIn
      obtain ⟨hEq, h0⟩ := receiveData_items hOut (List.mem_filter.mp hItem).1
      exact hEq ▸ h0

/-- A queue that runs its first item. -/
theorem Receiver.Inv.runQueue (hInv : r.Inv) (hSound : r.Sound) {queue : κ}
    (h : Receiver.step reads L p r (.runQueue queue) = some r') :
    r'.Inv ∧ (r'.Sound ↔ Receiver.Meets reads p r (.runQueue queue)) := by
  simp only [Receiver.step] at h
  cases hQueue : r.queues queue with
  | nil =>
    rw [hQueue] at h
    cases h
  | cons tmsg rest =>
    have h0 : (0 : Byte) ∈ tmsg.mZmsg :=
      hInv.queued queue tmsg (by rw [hQueue]; exact List.mem_cons_self)
    have hMeets : Receiver.Meets reads p r (.runQueue queue) ↔
        (r.impl.Takes tmsg → Decodable tmsg.mZmsg) := by
      simp [Receiver.Meets, hQueue]
    rw [hMeets, ← hInv.pointers.runCallback_iff r.queueMsgs h0]
    cases hOut : TransportImpl.runCallback r.impl tmsg r.queueMsgs with
    | error e =>
      simp only [hQueue, hOut] at h
      cases h
      refine ⟨hInv.fault.1, iff_of_false hInv.fault.2 ?_⟩
      rintro ⟨out, hEq, -⟩
      cases hEq
    | ok out =>
      simp only [hQueue, hOut] at h
      cases h
      refine ⟨⟨hInv.pointers, fun q t hIn => ?_⟩, ?_⟩
      · by_cases hq : q = queue
        · subst hq
          simp only [Function.update_self] at hIn
          exact hInv.queued q t (by rw [hQueue]; exact List.mem_cons_of_mem _ hIn)
        · simp only [Function.update_of_ne hq] at hIn
          exact hInv.queued q t hIn
      · constructor
        · intro hs
          refine ⟨out, rfl, fun b hb => hs.2 (tmsg.mZmsg, b) (List.mem_append_right _ ?_)⟩
          exact List.mem_map.mpr ⟨b, Option.mem_toList.mpr hb, rfl⟩
        · rintro ⟨out', hEq, hExact⟩
          cases hEq
          refine ⟨hSound.1, fun x hx => ?_⟩
          rcases List.mem_append.mp hx with hx | hx
          · exact hSound.2 x hx
          · obtain ⟨b, hb, rfl⟩ := List.mem_map.mp hx
            exact hExact b (Option.mem_toList.mp hb)

/-- A naming message that arrives. -/
theorem Receiver.Inv.naming (hInv : r.Inv) (hSound : r.Sound) {calls : NamingCalls}
    {zmsg : List Byte} (h : Receiver.step reads L p r (.naming calls zmsg) = some r') :
    r'.Inv ∧ (r'.Sound ↔ Receiver.Meets reads p r (.naming calls zmsg)) := by
  have hIff := receiveNaming_iff p calls r.naming zmsg
  simp only [Receiver.step] at h
  cases hOut : TransportImpl.receiveNaming p calls r.naming zmsg with
  | error e =>
    rw [hOut] at h hIff
    cases h
    exact ⟨hInv.fault.1,
      iff_of_false hInv.fault.2 fun hm => not_inside_error _ (hIff.mpr hm)⟩
  | ok naming =>
    rw [hOut] at h hIff
    cases h
    exact ⟨⟨hInv.pointers, hInv.queued⟩, iff_of_true hSound (hIff.mp (inside_ok _))⟩

/-- **One step.** Whatever the step is, the tables stay in order, and it is
sound exactly when its message meets the condition. -/
theorem Receiver.Inv.step (hInv : r.Inv) (hSound : r.Sound) {a : ReceiverAct κ ρ}
    (h : Receiver.step reads L p r a = some r') :
    r'.Inv ∧ (r'.Sound ↔ Receiver.Meets reads p r a) := by
  have hPtr := hInv.pointers
  cases a with
  | data zmsg => exact hInv.data hSound h
  | runQueue queue => exact hInv.runQueue hSound h
  | naming calls zmsg => exact hInv.naming hSound h
  | create key queue sendOk =>
    cases h
    exact ⟨⟨hPtr.create key queue sendOk, hInv.queued⟩, iff_of_true hSound trivial⟩
  | createWildcard key regex queue sendOk =>
    cases h
    exact ⟨⟨hPtr.createWildcard key regex queue sendOk, hInv.queued⟩, iff_of_true hSound trivial⟩
  | mute handle =>
    cases h
    exact ⟨⟨hPtr.mute handle, hInv.queued⟩, iff_of_true hSound trivial⟩
  | createInbox queue =>
    cases h
    exact ⟨⟨hPtr.createInbox queue, hInv.queued⟩, iff_of_true hSound trivial⟩
  | shareQueue queue msg =>
    cases h
    exact ⟨⟨hPtr, hInv.queued⟩, iff_of_true hSound trivial⟩
  | publish pc =>
    cases h
    exact ⟨⟨hPtr, hInv.queued⟩, iff_of_true hSound trivial⟩
  | destroy handle sendOk =>
    simp only [Receiver.step] at h
    split at h
    · rename_i hIn
      obtain ⟨s, hs, rfl⟩ := List.mem_map.mp hIn
      obtain ⟨impl', sent, hEq, hPtr'⟩ := hPtr.destroy hs sendOk
      rw [hEq] at h
      cases h
      exact ⟨⟨hPtr', hInv.queued⟩, iff_of_true hSound trivial⟩
    · cases h
  | destroyInbox handle =>
    simp only [Receiver.step] at h
    split at h
    · rename_i hIn
      obtain ⟨i, hi, rfl⟩ := List.mem_map.mp hIn
      obtain ⟨impl', hEq, hPtr'⟩ := hPtr.destroyInbox hi
      rw [hEq] at h
      cases h
      exact ⟨⟨hPtr', hInv.queued⟩, iff_of_true hSound trivial⟩
    · cases h

/--
**Which messages a transport survives.** In every run, with any bytes on the
data and naming sockets, for either way `memcmp` may read: nothing is read or
written outside, and every payload is handed on with its true length, in every
state of the run, if and only if every message met the condition of each handler
that was given it.
-/
theorem receiver_sound_iff {mUuid : Uuid} {naming : NamingTransport}
    {queueMsgs : κ → ZmqBridgeMsgImpl} {as : List (ReceiverAct κ ρ)}
    (hRun : run (Receiver.step reads L p) (Receiver.init mUuid naming queueMsgs) as = some r) :
    Along (Receiver.step reads L p) Receiver.Sound (Receiver.init mUuid naming queueMsgs) as ↔
      StepsMeet (Receiver.step reads L p) (Receiver.Meets reads p)
        (Receiver.init mUuid naming queueMsgs) as := by
  refine along_iff_stepsMeet (J := fun r => r.Inv ∧ r.Sound) ?_ (fun s hJ => hJ.2) ?_ ?_ hRun
  · exact ⟨Receiver.inv_init mUuid naming queueMsgs, rfl, fun h hh => by cases hh⟩
  · intro s a s' hJ hMeets h
    obtain ⟨hInv', hIff⟩ := hJ.1.step hJ.2 h
    exact ⟨hInv', hIff.mpr hMeets⟩
  · intro s a s' hJ h hSound
    exact (hJ.1.step hJ.2 h).2.mp hSound

end Run

/-- A transport that knows no peer. -/
def namingAlone : NamingTransport where
  mUuid := uuidA.bytes
  mPubEndpoint := [8]
  mNamingConnectRetries := 3
  mPeers := ∅
  mNamingConnected := false
  mIsDispatching := true
  mZmqDataSub := ∅
  mZmqNamingPub := ∅

/-- A transport with the sample libraries, before anything happened. -/
def receiverA : Receiver Unit Unit :=
  Receiver.init uuidA namingAlone fun _ => MamaMsgImpl.createMsgOnly

theorem receiver_sound_publishB :
    ∃ r, run (Receiver.step .untilDifference acceptAll platform64) receiverA
        [.create keyB () true, .data publishB.wire, .data [], .runQueue ()] = some r ∧
      r.handed = [(publishB.wire, ⟨4, 1, 9⟩)] ∧
      (Along (Receiver.step .untilDifference acceptAll platform64) Receiver.Sound receiverA
          [.create keyB () true, .data publishB.wire, .data [], .runQueue ()] ↔
        StepsMeet (Receiver.step .untilDifference acceptAll platform64)
          (Receiver.Meets .untilDifference platform64) receiverA
          [.create keyB () true, .data publishB.wire, .data [], .runQueue ()]) := by
  have hRun : run (Receiver.step .untilDifference acceptAll platform64) receiverA
      [.create keyB () true, .data publishB.wire, .data [], .runQueue ()] = some _ := rfl
  exact ⟨_, hRun, rfl, receiver_sound_iff hRun⟩

/-- A request for the subject `B` whose reply handle is one byte too long. -/
def longHandle : List Byte :=
  [0x42, 0, ZmqMsgType.inboxRequest.code] ++ List.replicate (zmqReplyHandleSize + 1) 0x78 ++
    [0, 9]

/-- A publish for the subject `B` that ends where its payload should start. -/
def noPayload : List Byte := [0x42, 0, ZmqMsgType.pubSub.code, 0]

/-- A naming message that ends with its type, which is none of the known ones. -/
def shortNaming : List Byte := List.replicate 257 0 ++ [0x51]

/-- **Messages a transport does not survive**, even if `memcmp` stops at the
first difference and nothing is printed: a byte without terminator, a reply handle
that does not fit, a missing payload, a naming message of one byte, and one that is
only logged but ends before `mPid`. -/
theorem malformed_messages :
    (∃ r, run (Receiver.step .untilDifference acceptAll platform64) receiverA
        [.data [0x41]] = some r ∧ ¬ r.Sound) ∧
    (∃ r, run (Receiver.step .untilDifference acceptAll platform64) receiverA
        [.create keyB () true, .data longHandle, .runQueue ()] = some r ∧ ¬ r.Sound) ∧
    (∃ r, run (Receiver.step .untilDifference acceptAll platform64) receiverA
        [.create keyB () true, .data noPayload, .runQueue ()] = some r ∧ ¬ r.Sound) ∧
    (∃ r, run (Receiver.step .untilDifference acceptAll platform64) receiverA
        [.naming .allOk [typeWelcome]] = some r ∧ ¬ r.Sound) ∧
    (∃ r, run (Receiver.step .untilDifference acceptAll platform64) receiverA
        [.naming .allOk shortNaming] = some r ∧ ¬ r.Sound) := by
  have hFault : ∀ r : Receiver Unit Unit, r.faulted = true → ¬ r.Sound := fun r h hs => by
    rw [hs.1] at h
    cases h
  obtain ⟨r, hRun, hShort⟩ : ∃ r, run (Receiver.step .untilDifference acceptAll platform64)
      receiverA [.naming .allOk shortNaming] = some r ∧ r.faulted = true :=
    exists_run (by decide +kernel)
  exact ⟨⟨_, rfl, hFault _ rfl⟩, ⟨_, rfl, hFault _ rfl⟩, ⟨_, rfl, hFault _ rfl⟩,
    ⟨_, rfl, hFault _ rfl⟩, ⟨r, hRun, hFault r hShort⟩⟩

end ZmqBridge
