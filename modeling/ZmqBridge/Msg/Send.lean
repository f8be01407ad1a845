import ZmqBridge.Model.Publisher
import ZmqBridge.Msg.RoundTrip

/-!
# ZmqBridge — the subject a message is sent under

What a publisher puts on the wire for each of its calls. The only check of the
subject's length is in `zmqBridgeMamaMsg_setSendSubject`, and
`zmqBridgeMamaPublisherImpl_sendSubject` does not look at what it returns.

* `sendSubject_eq`       — the outcome of a send, whatever the other calls do;
* `send_addressed_iff`   — when a message only goes out under the subject that was
  asked for;
* `long_subject_truncated` — a subject of 257 bytes loses its last one.
-/

namespace ZmqBridge

open Lib

-- ---------------------------------------------------------------------------
-- What a send does
-- ---------------------------------------------------------------------------

/-- Setting the subject changes nothing else. -/
theorem setSendSubject_fst (updateString : MamaMsg → List Byte → MamaStatus)
    (impl : ZmqBridgeMsgImpl) (symbol : List Byte) :
    (MamaMsg.setSendSubject updateString impl (some symbol)).1 =
      { impl with mSendSubject := (strSizeCpy impl.mSendSubject symbol).1 } := by
  simp only [MamaMsg.setSendSubject]
  split
  · rfl
  · split <;> rfl

/-- The subject in the message after `setSendSubject`: nothing if there was none, and
otherwise as much of it as fits. -/
def sentSubject (requested : Option (List Byte)) : List Byte :=
  (requested.getD []).take maxSubjectLength

theorem sentSubject_of_le {subject : List Byte} (h : subject.length ≤ maxSubjectLength) :
    sentSubject (some subject) = subject :=
  List.take_of_length_le h

theorem sentSubject_nulFree {requested : Option (List Byte)}
    (hNul : ∀ s ∈ requested, NulFree s) : NulFree (sentSubject requested) := by
  cases requested with
  | none => exact nulFree_nil
  | some subject => exact fun b hb => hNul subject rfl b (List.mem_of_mem_take hb)

theorem setSendSubject_holds (updateString : MamaMsg → List Byte → MamaStatus)
    {impl : ZmqBridgeMsgImpl} (hEmpty : impl.mSendSubject.Holds [])
    {requested : Option (List Byte)} (hNul : ∀ s ∈ requested, NulFree s) :
    ∃ a, a.Holds (sentSubject requested) ∧
      (MamaMsg.setSendSubject updateString impl requested).1 =
        { impl with mSendSubject := a } := by
  cases requested with
  | none => exact ⟨impl.mSendSubject, hEmpty, rfl⟩
  | some symbol =>
    exact ⟨_, strSizeCpy_holds_take (hNul symbol rfl) (Nat.succ_pos _),
      setSendSubject_fst updateString impl symbol⟩

/-- What comes out of the calls a send makes, for the message `wire` makes of the
payload. -/
def SendCalls.outcome (calls : SendCalls) (wire : List Byte → List Byte) :
    Option (List (Option Byte)) × MamaStatus :=
  match calls.getByteBuffer with
  | .error status => (none, status)
  | .ok payload =>
    if calls.initSize ∧ calls.send then (some ((wire payload).map some), .ok)
    else (none, .platform)

/-- **What a send does.** The subject on the wire is the requested one, cut to
`MAX_SUBJECT_LENGTH`. -/
theorem sendSubject_eq (calls : SendCalls) (pub : ZmqPublisherBridge)
    {bridgeMsg : ZmqBridgeMsgImpl} {handle : List Byte} (subject : Option (List Byte))
    (hHandle : bridgeMsg.mReplyHandle.Holds handle) (hEmpty : bridgeMsg.mSendSubject.Holds [])
    (hNul : ∀ s ∈ subject, NulFree s) :
    PublisherImpl.sendSubject calls pub (some bridgeMsg) subject =
      .ok (calls.outcome
        (wireFormat bridgeMsg.mMsgType (sentSubject (subject.or pub.mSubject)) handle)) := by
  have hRequested : ∀ s ∈ subject.or pub.mSubject, NulFree s := by
    intro s hs
    cases subject with
    | none => exact pub.mSubject_nulFree s hs
    | some t => exact hNul s hs
  obtain ⟨a, ha, hSet⟩ := setSendSubject_holds calls.updateString hEmpty hRequested
  set msg : ZmqBridgeMsgImpl := { bridgeMsg with mSendSubject := a }
  have hHolds : msg.mSendSubject.Holds (sentSubject (subject.or pub.mSubject)) := ha
  have hReply : msg.mReplyHandle.Holds handle := hHandle
  simp only [PublisherImpl.sendSubject, Option.getD_some, hSet, SendCalls.outcome]
  cases hBuffer : calls.getByteBuffer with
  | error e => rfl
  | ok payload =>
    cases hSize : calls.initSize with
    | false =>
      have hFail : MamaMsgImpl.serialize msg (.ok payload) false = .ok (.error .platform) := by
        simp only [MamaMsgImpl.serialize, serializedSize_wire hHolds hReply]
        rfl
      rw [hFail]
      rfl
    | true =>
      rw [serialize_wire hHolds hReply]
      cases calls.send <;> rfl

/-- A message that was sent is the layout of some payload. -/
theorem SendCalls.sent_of_outcome {calls : SendCalls} {wire : List Byte → List Byte}
    {zmsg : List Byte} {status : MamaStatus}
    (h : calls.outcome wire = (some (zmsg.map some), status)) :
    ∃ payload, calls.getByteBuffer = .ok payload ∧ zmsg = wire payload := by
  rw [SendCalls.outcome] at h
  cases hBuffer : calls.getByteBuffer with
  | error e =>
    rw [hBuffer] at h
    cases h
  | ok payload =>
    simp only [hBuffer] at h
    split at h
    · have hBytes := Option.some.inj (Prod.mk.inj h).1
      exact ⟨payload, rfl, (List.map_injective_iff.mpr (Option.some_injective Byte) hBytes).symm⟩
    · cases h

/-- Setting a reply handle, if it fits. -/
theorem setReplyHandle_holds (impl : ZmqBridgeMsgImpl) {handle : List Byte}
    (hNul : NulFree handle) (hFits : handle.length ≤ zmqReplyHandleSize) :
    ∃ a, a.Holds handle ∧
      MamaMsgImpl.setReplyHandle impl handle = .ok { impl with mReplyHandle := a } := by
  obtain ⟨a, ha, hHolds⟩ := strcpy_at (d := impl.mReplyHandle) (p := []) (r := []) hNul
    (Nat.lt_succ_of_le hFits)
  refine ⟨a, hHolds, ?_⟩
  have hCopy : strcpy impl.mReplyHandle (handle ++ [0]) 0 = .ok a := ha
  rw [MamaMsgImpl.setReplyHandle, hCopy]
  rfl

/-- A reply handle that does not fit is written past the end of its array. -/
theorem setReplyHandle_faults (impl : ZmqBridgeMsgImpl) {handle : List Byte}
    (hNul : NulFree handle) (hLong : ¬ handle.length ≤ zmqReplyHandleSize) :
    ∃ f, MamaMsgImpl.setReplyHandle impl handle = .error f := by
  have hCopy : ¬ ∃ a, strcpy impl.mReplyHandle (handle ++ [0]) 0 = .ok a := by
    rw [strcpy_ok_iff]
    rintro ⟨-, hLen⟩
    rw [List.drop_zero, cstr_append hNul] at hLen
    exact hLong (Nat.le_of_lt_succ hLen)
  rw [MamaMsgImpl.setReplyHandle]
  cases hOut : strcpy impl.mReplyHandle (handle ++ [0]) 0 with
  | error f => exact ⟨f, rfl⟩
  | ok a => exact absurd ⟨a, hOut⟩ hCopy

-- ---------------------------------------------------------------------------
-- The calls of a publisher
-- ---------------------------------------------------------------------------

/-- The ways to send a message: under the publisher's own subject or the one passed in
(which may be `NULL`), a reply to a handle, or a request from an inbox with that reply
handle. -/
inductive SendRequest where
  | send
  | sendSubject (subject : Option (List Byte))
  | sendReplyToInboxHandle (replyHandle : List Byte)
  | sendFromInbox (replyHandle : List Byte)

/-- The strings a call is given. -/
def SendRequest.strings : SendRequest → List (List Byte)
  | .send => []
  | .sendSubject subject => subject.toList
  | .sendReplyToInboxHandle replyHandle => [replyHandle]
  | .sendFromInbox replyHandle => [replyHandle]

/-- The subject a call is to send under. -/
def SendRequest.requested (pub : ZmqPublisherBridge) : SendRequest → Option (List Byte)
  | .send => pub.mSubject
  | .sendSubject subject => subject.or pub.mSubject
  | .sendReplyToInboxHandle replyHandle => some replyHandle
  | .sendFromInbox _ => pub.mSubject

/-- What the call does. -/
def SendRequest.perform (calls : SendCalls) (pub : ZmqPublisherBridge) :
    SendRequest → Except Fault (Option (List (Option Byte)) × MamaStatus)
  | .send => Publisher.send calls pub
  | .sendSubject subject => Publisher.sendSubject calls pub subject
  | .sendReplyToInboxHandle replyHandle =>
    Publisher.sendReplyToInboxHandle calls pub replyHandle
  | .sendFromInbox replyHandle =>
    Publisher.sendFromInboxByIndex calls pub (κ := Unit) ⟨0, replyHandle, ()⟩

/-- The reply handle that goes into the message fits its array. -/
def SendRequest.HandleFits : SendRequest → Prop
  | .send => True
  | .sendSubject _ => True
  | .sendReplyToInboxHandle replyHandle => replyHandle.length ≤ zmqReplyHandleSize
  | .sendFromInbox replyHandle => replyHandle.length ≤ zmqReplyHandleSize

/-- Every call has the outcome of one send, or writes outside the message. -/
theorem SendRequest.perform_eq (calls : SendCalls) (pub : ZmqPublisherBridge)
    (r : SendRequest) (hNul : ∀ s ∈ r.strings, NulFree s) :
    (r.HandleFits → ∃ type handle, r.perform calls pub =
      .ok (calls.outcome (wireFormat type (sentSubject (r.requested pub)) handle))) ∧
    (¬ r.HandleFits → ∃ f, r.perform calls pub = .error f) := by
  set msg := MamaMsgImpl.init calls.stack with hMsg
  have hClear : msg.mReplyHandle.Holds [] := CharArray.clear_holds _
  have hEmpty : msg.mSendSubject.Holds [] := CharArray.clear_holds _
  cases r with
  | send =>
    refine ⟨fun _ => ⟨msg.mMsgType, [], ?_⟩, fun h => absurd trivial h⟩
    exact sendSubject_eq calls pub none hClear hEmpty (fun s hs => by cases hs)
  | sendSubject subject =>
    refine ⟨fun _ => ⟨msg.mMsgType, [], ?_⟩, fun h => absurd trivial h⟩
    exact sendSubject_eq calls pub subject hClear hEmpty
      (fun s hs => hNul s (Option.mem_toList.mpr hs))
  | sendReplyToInboxHandle replyHandle =>
    have hStr : NulFree replyHandle := hNul replyHandle (List.mem_singleton_self _)
    constructor
    · intro hFits
      obtain ⟨a, ha, hSet⟩ :=
        setReplyHandle_holds (MamaMsgImpl.setMsgType msg .inboxResponse) hStr hFits
      refine ⟨ZmqMsgType.inboxResponse.code, replyHandle, ?_⟩
      rw [SendRequest.perform, Publisher.sendReplyToInboxHandle, ← hMsg, hSet, ok_bind]
      exact sendSubject_eq calls pub (some replyHandle) ha hEmpty
        (fun s hs => by cases hs; exact hStr)
    · intro hLong
      obtain ⟨f, hSet⟩ :=
        setReplyHandle_faults (MamaMsgImpl.setMsgType msg .inboxResponse) hStr hLong
      refine ⟨f, ?_⟩
      rw [SendRequest.perform, Publisher.sendReplyToInboxHandle, ← hMsg, hSet, error_bind]
  | sendFromInbox replyHandle =>
    have hStr : NulFree replyHandle := hNul replyHandle (List.mem_singleton_self _)
    constructor
    · intro hFits
      obtain ⟨a, ha, hSet⟩ :=
        setReplyHandle_holds (MamaMsgImpl.setMsgType msg .inboxRequest) hStr hFits
      refine ⟨ZmqMsgType.inboxRequest.code, replyHandle, ?_⟩
      rw [SendRequest.perform, Publisher.sendFromInboxByIndex, ← hMsg, hSet, ok_bind]
      exact sendSubject_eq calls pub none ha hEmpty (fun s hs => by cases hs)
    · intro hLong
      obtain ⟨f, hSet⟩ :=
        setReplyHandle_faults (MamaMsgImpl.setMsgType msg .inboxRequest) hStr hLong
      refine ⟨f, ?_⟩
      rw [SendRequest.perform, Publisher.sendFromInboxByIndex, ← hMsg, hSet, error_bind]

-- ---------------------------------------------------------------------------
-- The subject on the wire
-- ---------------------------------------------------------------------------

/-- **Nothing is published under another subject.** With `MAMA_STATUS_OK` one message was
sent, under the requested subject; a subject that does not fit `mSendSubject` gives
another status, and then nothing is sent. -/
def Addressed (requested : Option (List Byte))
    (out : Except Fault (Option (List (Option Byte)) × MamaStatus)) : Prop :=
  ∃ sent status, out = .ok (sent, status) ∧
    (status = .ok → ∃ subject zmsg, requested = some subject ∧ sent = some (zmsg.map some) ∧
      cstr zmsg = subject) ∧
    (status ≠ .ok → sent = none) ∧
    (∀ subject ∈ requested, maxSubjectLength < subject.length → status ≠ .ok)

/-- The payload can be serialised, and ZeroMQ allocates and sends the message. -/
def SendCalls.Succeed (calls : SendCalls) : Prop :=
  (∃ payload, calls.getByteBuffer = .ok payload) ∧ calls.initSize = true ∧ calls.send = true

/-- There is a subject, and `mSendSubject` can hold it. -/
def SubjectFits (requested : Option (List Byte)) : Prop :=
  ∃ subject, requested = some subject ∧ subject.length ≤ maxSubjectLength

theorem SendCalls.outcome_of_succeed {calls : SendCalls} (h : calls.Succeed)
    (wire : List Byte → List Byte) :
    ∃ payload, calls.outcome wire = (some ((wire payload).map some), .ok) := by
  obtain ⟨⟨payload, hBuffer⟩, hSize, hSend⟩ := h
  refine ⟨payload, ?_⟩
  simp only [SendCalls.outcome, hBuffer]
  exact if_pos ⟨hSize, hSend⟩

theorem SendCalls.outcome_of_fail {calls : SendCalls}
    (hError : calls.getByteBuffer ≠ .error .ok) (h : ¬ calls.Succeed)
    (wire : List Byte → List Byte) :
    ∃ status, calls.outcome wire = (none, status) ∧ status ≠ .ok := by
  cases hBuffer : calls.getByteBuffer with
  | error status =>
    refine ⟨status, ?_, ?_⟩
    · simp only [SendCalls.outcome, hBuffer]
    · rintro rfl
      exact hError hBuffer
  | ok payload =>
    refine ⟨.platform, ?_, by decide⟩
    simp only [SendCalls.outcome, hBuffer]
    exact if_neg fun hCalls => h ⟨⟨payload, hBuffer⟩, hCalls⟩

/-- A message that went out is addressed right if nothing was cut off its subject. -/
theorem addressed_sent_iff {requested : Option (List Byte)} {type : Byte}
    {handle payload : List Byte} (hNul : ∀ s ∈ requested, NulFree s) :
    Addressed requested (.ok (some ((wireFormat type (sentSubject requested) handle
      payload).map some), .ok)) ↔ SubjectFits requested := by
  constructor
  · rintro ⟨sent, status, hOut, hOk, -, hLong⟩
    cases hOut
    obtain ⟨subject, zmsg, hSubject, -, -⟩ := hOk rfl
    refine ⟨subject, hSubject, ?_⟩
    by_contra hNot
    exact hLong subject hSubject (Nat.lt_of_not_le hNot) rfl
  · rintro ⟨subject, rfl, hFits⟩
    rw [sentSubject_of_le hFits]
    refine ⟨_, _, rfl, ?_, fun h => absurd rfl h, ?_⟩
    · intro _
      exact ⟨subject, _, rfl, rfl, cstr_wireFormat (hNul subject rfl)⟩
    · intro s hs hLong
      cases hs
      exact absurd hFits (Nat.not_le_of_lt hLong)

theorem SendRequest.requested_nulFree (pub : ZmqPublisherBridge) (r : SendRequest)
    (hNul : ∀ s ∈ r.strings, NulFree s) : ∀ s ∈ r.requested pub, NulFree s := by
  intro s hs
  cases r with
  | send => exact pub.mSubject_nulFree s hs
  | sendSubject subject =>
    cases subject with
    | none => exact pub.mSubject_nulFree s hs
    | some t => exact hNul s (Option.mem_toList.mpr hs)
  | sendReplyToInboxHandle replyHandle =>
    cases hs
    exact hNul s (List.mem_singleton_self _)
  | sendFromInbox replyHandle => exact pub.mSubject_nulFree s hs

/--
**The subject a message goes out under.** For every publisher, every call that sends and
every outcome of the calls it makes: a message only goes out under the subject asked for,
and one that cannot be represented is refused, if and only if

* the reply handle that is put into the message, if any, fits its array, and
* there is a subject and it has at most `MAX_SUBJECT_LENGTH` bytes, or the message is
  not sent for another reason.
-/
theorem send_addressed_iff (calls : SendCalls) (pub : ZmqPublisherBridge) (r : SendRequest)
    (hNul : ∀ s ∈ r.strings, NulFree s) (hError : calls.getByteBuffer ≠ .error .ok) :
    Addressed (r.requested pub) (r.perform calls pub) ↔
      r.HandleFits ∧ (calls.Succeed → SubjectFits (r.requested pub)) := by
  obtain ⟨hPerform, hFaults⟩ := r.perform_eq calls pub hNul
  by_cases hFits : r.HandleFits
  · obtain ⟨type, handle, hOut⟩ := hPerform hFits
    rw [hOut]
    by_cases hCalls : calls.Succeed
    · obtain ⟨payload, hSent⟩ := SendCalls.outcome_of_succeed hCalls
        (wireFormat type (sentSubject (r.requested pub)) handle)
      rw [hSent, addressed_sent_iff (r.requested_nulFree pub hNul)]
      exact ⟨fun h => ⟨hFits, fun _ => h⟩, fun h => h.2 hCalls⟩
    · obtain ⟨status, hFail, hStatus⟩ := SendCalls.outcome_of_fail hError hCalls
        (wireFormat type (sentSubject (r.requested pub)) handle)
      rw [hFail]
      refine iff_of_true ?_ ⟨hFits, fun h => absurd h hCalls⟩
      exact ⟨none, status, rfl, fun h => absurd h hStatus, fun _ => rfl, fun _ _ _ => hStatus⟩
  · obtain ⟨f, hOut⟩ := hFaults hFits
    rw [hOut]
    refine iff_of_false ?_ (fun h => hFits h.1)
    rintro ⟨sent, status, hEq, -⟩
    cases hEq

/-- Calls that succeed, with a payload of one byte. -/
def sendCalls : SendCalls where
  getByteBuffer := .ok [0x41]
  initSize := true
  send := true
  updateString := fun _ _ => .ok
  stack := MamaMsgImpl.calloc

/-- A publisher of `ab`. -/
def abPublisher : ZmqPublisherBridge where
  mSubject := some [0x61, 0x62]
  mSubject_nulFree := by decide

/-- A reply that fits goes out under its handle. -/
theorem send_addressed_reply :
    Addressed (some [0x63, 0x64])
      (Publisher.sendReplyToInboxHandle sendCalls abPublisher [0x63, 0x64]) := by
  have hFits : (SendRequest.sendReplyToInboxHandle [0x63, 0x64]).HandleFits := by
    show 2 ≤ zmqReplyHandleSize
    decide
  exact (send_addressed_iff sendCalls abPublisher (.sendReplyToInboxHandle [0x63, 0x64])
    (by decide) (by decide)).mpr ⟨hFits, fun _ => ⟨[0x63, 0x64], rfl, by decide⟩⟩

/-- **A subject that does not fit is cut, and the message sent.** Of 257 bytes the first
256 are on the wire. -/
theorem long_subject_truncated :
    (∃ zmsg, Publisher.sendSubject sendCalls abPublisher (some (List.replicate 257 0x61)) =
      .ok (some (zmsg.map some), .ok) ∧ cstr zmsg = List.replicate 256 0x61) ∧
    ¬ Addressed (some (List.replicate 257 0x61))
      (Publisher.sendSubject sendCalls abPublisher (some (List.replicate 257 0x61))) := by
  have hNul : ∀ s ∈ some (List.replicate 257 (0x61 : Byte)), NulFree s := by
    intro s hs
    cases hs
    decide +kernel
  have hSent : Publisher.sendSubject sendCalls abPublisher (some (List.replicate 257 0x61)) =
      .ok (some ((wireFormat ZmqMsgType.pubSub.code
        (sentSubject (some (List.replicate 257 0x61))) [] [0x41]).map some), .ok) :=
    sendSubject_eq sendCalls abPublisher (some (List.replicate 257 0x61))
      (CharArray.clear_holds _) (CharArray.clear_holds _) hNul
  refine ⟨⟨_, hSent, ?_⟩, ?_⟩
  · rw [cstr_wireFormat (sentSubject_nulFree hNul)]
    exact List.take_replicate
  · rw [hSent, addressed_sent_iff hNul]
    rintro ⟨subject, hSubject, hFits⟩
    cases hSubject
    rw [List.length_replicate] at hFits
    exact absurd hFits (by decide)

end ZmqBridge
