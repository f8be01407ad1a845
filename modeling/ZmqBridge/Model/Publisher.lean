import ZmqBridge.Model.Transport

/-!
# ZmqBridge — sending (`publisher.c`)

How a publisher sends a message under its own subject or another, a request from
an inbox and a reply to one. The bridge message sits on the stack, so its arrays
start with arbitrary contents.
-/

namespace ZmqBridge

open Lib

/-- `zmqPublisherBridge`, as far as sending uses it. `buildSendSubject` leaves
`mSubject` `NULL` when the copy of the subject cannot be allocated. -/
structure ZmqPublisherBridge where
  mSubject : Option (List Byte)
  mSubject_nulFree : ∀ s ∈ mSubject, NulFree s

/-- What a send gets from outside: the payload OpenMAMA serialises the message
to, whether ZeroMQ allocates and sends, what `mamaMsg_updateString` returns, and
what the stack holds. -/
structure SendCalls where
  getByteBuffer : Except MamaStatus (List Byte)
  initSize : Bool
  send : Bool
  updateString : MamaMsg → List Byte → MamaStatus
  stack : ZmqBridgeMsgImpl

/-- `zmqBridgeMamaPublisherImpl_sendSubject`: the bytes that are sent, if any.
The status of `setSendSubject` is not looked at. -/
def PublisherImpl.sendSubject (calls : SendCalls) (impl : ZmqPublisherBridge)
    (bridgeMsg : Option ZmqBridgeMsgImpl) (subject : Option (List Byte)) :
    Except Fault (Option (List (Option Byte)) × MamaStatus) := do
  let bridgeMsg := bridgeMsg.getD (MamaMsgImpl.init calls.stack)
  -- use subject passed in, or publisher's subject?
  let symbol := subject.or impl.mSubject
  let bridgeMsg := (MamaMsg.setSendSubject calls.updateString bridgeMsg symbol).1
  match ← MamaMsgImpl.serialize bridgeMsg calls.getByteBuffer calls.initSize with
  | .error status => pure (none, status)
  | .ok zmsg => if calls.send then pure (some zmsg, .ok) else pure (none, .platform)

/-- `zmqBridgeMamaPublisher_send`. -/
def Publisher.send (calls : SendCalls) (impl : ZmqPublisherBridge) :
    Except Fault (Option (List (Option Byte)) × MamaStatus) :=
  PublisherImpl.sendSubject calls impl none none

/-- `zmqBridgeMamaPublisher_sendSubject`. -/
def Publisher.sendSubject (calls : SendCalls) (impl : ZmqPublisherBridge)
    (subject : Option (List Byte)) : Except Fault (Option (List (Option Byte)) × MamaStatus) :=
  PublisherImpl.sendSubject calls impl none subject

/-- `zmqBridgeMamaPublisher_sendReplyToInboxHandle`. -/
def Publisher.sendReplyToInboxHandle (calls : SendCalls) (impl : ZmqPublisherBridge)
    (replyHandle : List Byte) : Except Fault (Option (List (Option Byte)) × MamaStatus) := do
  let bridgeMsg := MamaMsgImpl.setMsgType (MamaMsgImpl.init calls.stack) .inboxResponse
  let bridgeMsg ← MamaMsgImpl.setReplyHandle bridgeMsg replyHandle
  PublisherImpl.sendSubject calls impl (some bridgeMsg) (some replyHandle)

/-- `zmqBridgeMamaPublisher_sendReplyToInbox`, for a request in the bridge
message `request`. -/
def Publisher.sendReplyToInbox (calls : SendCalls) (impl : ZmqPublisherBridge)
    (request : ZmqBridgeMsgImpl) :
    Except Fault (Option (List (Option Byte)) × MamaStatus) :=
  Publisher.sendReplyToInboxHandle calls impl (MamaMsg.getReplyHandle request)

/-- `zmqBridgeMamaPublisher_sendFromInboxByIndex`. -/
def Publisher.sendFromInboxByIndex {κ : Type} (calls : SendCalls) (impl : ZmqPublisherBridge)
    (inbox : ZmqInboxImpl κ) : Except Fault (Option (List (Option Byte)) × MamaStatus) := do
  let bridgeMsg := MamaMsgImpl.setMsgType (MamaMsgImpl.init calls.stack) .inboxRequest
  let bridgeMsg ← MamaMsgImpl.setReplyHandle bridgeMsg inbox.mReplyHandle
  PublisherImpl.sendSubject calls impl (some bridgeMsg) none

end ZmqBridge
