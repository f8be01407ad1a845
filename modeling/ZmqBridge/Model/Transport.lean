import ZmqBridge.Lib.Hex
import ZmqBridge.Model.Msg

/-!
# ZmqBridge — subscriptions, inboxes and the data path

`subscription.c`, `inbox.c` and the data half of `transport.c`: how
subscriptions and inboxes are registered at a transport, how the dispatch thread
turns a received message into queued items, and what the callbacks do when a
queue gets to an item.

Records live in `subs` and `inboxes` and are named by a handle that stands for
their address; the registries hold handles, as the C tables hold pointers, and
following one to a record that is gone is a `Fault`. Received messages are bytes.

From OpenMAMA: `wtable` is a string map, an endpoint pool a table of (topic,
identifier, endpoint) that hands out the entries of a topic in any order, and a
queue has one reusable message. `regexec` is left open.
-/

namespace ZmqBridge

open Lib

variable {κ ρ : Type}

/-! ## Names -/

/-- The text form of a transport's uuid. -/
structure Uuid where
  bytes : List Byte
  length_eq : bytes.length = uuidStringSize
  nulFree : NulFree bytes

/-- A subject key as `zmqBridgeMamaSubscriptionImpl_generateSubjectKey` makes
it: `snprintf` keeps at most `MAX_SUBJECT_LENGTH - 1` bytes. -/
structure SubjectKey where
  bytes : List Byte
  nulFree : NulFree bytes
  length_lt : bytes.length < maxSubjectLength
  deriving DecidableEq

/-- `zmqBridge_generateSerial`: the counter after the increment, and its
`%016llx`. -/
def generateSerial (id : Nat) : Nat × List Byte :=
  let next := (id + 1) % 2 ^ 64
  (next, hexDigits zmqReplyHandleInboxNameSize next)

/-! ## Records and registries -/

/-- `zmqSubscription`. A regular subscription has no `mCompRegex`. -/
structure ZmqSubscription (κ ρ : Type) where
  handle : Nat
  mSubjectKey : SubjectKey
  mEndpointIdentifier : List Byte
  mZmqQueue : κ
  mIsNotMuted : Bool
  mCompRegex : Option ρ

/-- `mIsWildcard`. -/
def ZmqSubscription.mIsWildcard (s : ZmqSubscription κ ρ) : Bool := s.mCompRegex.isSome

/-- `zmqInboxImpl`. -/
structure ZmqInboxImpl (κ : Type) where
  handle : Nat
  mReplyHandle : List Byte
  mZmqQueue : κ

/-- An entry of an OpenMAMA endpoint pool. -/
structure PoolEntry where
  topic : List Byte
  identifier : List Byte
  endpoint : Nat
  deriving DecidableEq

/-- The part of `zmqTransportBridge` the data path works on, with the records
registered there. -/
structure DataTransport (κ ρ : Type) where
  mUuid : Uuid
  mSubUid : Nat
  mWcsUid : Nat
  mInboxUid : Nat
  mSubEndpoints : List PoolEntry
  mWcEndpoints : List Nat
  mInboxes : AList fun _ : List Byte => Nat
  subs : List (ZmqSubscription κ ρ)
  inboxes : List (ZmqInboxImpl κ)

/-- `_INBOX.<uuid>`, as `zmqBridgeMamaTransport_create` prints it. -/
def DataTransport.mInboxSubject (impl : DataTransport κ ρ) : List Byte :=
  zmqReplyHandlePrefix ++ dot :: impl.mUuid.bytes

/-- Follow a subscription pointer. -/
def DataTransport.sub (impl : DataTransport κ ρ) (handle : Nat) :
    Except Fault (ZmqSubscription κ ρ) :=
  match impl.subs.find? (·.handle = handle) with
  | some s => .ok s
  | none => .error .badPointer

/-- Follow an inbox pointer. -/
def DataTransport.inbox (impl : DataTransport κ ρ) (handle : Nat) :
    Except Fault (ZmqInboxImpl κ) :=
  match impl.inboxes.find? (·.handle = handle) with
  | some i => .ok i
  | none => .error .badPointer

/-! ## Endpoint pools -/

/-- `endpointPool_getRegistered`, before the table's own order is applied. -/
def endpointPoolGetRegistered (pool : List PoolEntry) (topic : List Byte) : List Nat :=
  (pool.filter (·.topic = topic)).map PoolEntry.endpoint

/-- `endpointPool_getEndpointByIdentifiers`. -/
def endpointPoolGetEndpointByIdentifiers (pool : List PoolEntry)
    (topic identifier : List Byte) : Option Nat :=
  (pool.find? fun e => e.topic = topic ∧ e.identifier = identifier).map PoolEntry.endpoint

/-- `endpointPool_unregister`. -/
def endpointPoolUnregister (pool : List PoolEntry) (topic identifier : List Byte) :
    List PoolEntry :=
  pool.filter fun e => ¬ (e.topic = topic ∧ e.identifier = identifier)

/-! ## Control messages -/

/-- `zmqControlMsg`. -/
structure ZmqControlMsg where
  command : Byte
  arg1 : CharArray (maxSubjectLength + 1)
  deriving DecidableEq

def commandSubscribe : Byte := 0x53

def commandUnsubscribe : Byte := 0x55

/-- The message `zmqBridgeMamaSubscriptionImpl_subscribe` and `_unsubscribe`
build: `wmStrSizeCpy` into the argument. -/
def controlMsg (command : Byte) (topic : List Byte) : ZmqControlMsg :=
  ⟨command, (strSizeCpy (CharArray.zero _) topic).1⟩

/-- `zmqBridgeMamaTransportImpl_sendCommand`. -/
def TransportImpl.sendCommand (msg : ZmqControlMsg) (ok : Bool) :
    List ZmqControlMsg × MamaStatus :=
  if ok then ([msg], .ok) else ([], .platform)

/-- `zmqBridgeMamaSubscriptionImpl_subscribe`. -/
def SubscriptionImpl.subscribe (topic : List Byte) (ok : Bool) :
    List ZmqControlMsg × MamaStatus :=
  TransportImpl.sendCommand (controlMsg commandSubscribe topic) ok

/-- `zmqBridgeMamaSubscriptionImpl_unsubscribe`. -/
def SubscriptionImpl.unsubscribe (topic : List Byte) (ok : Bool) :
    List ZmqControlMsg × MamaStatus :=
  TransportImpl.sendCommand (controlMsg commandUnsubscribe topic) ok

/-- `zmqBridgeMamaTransportImpl_dispatchControlMsg` for 'S' and 'U', on the
reference counts of the data socket. -/
def TransportImpl.dispatchControlMsg (dataSub : List Byte → Nat) (pMsg : ZmqControlMsg) :
    List Byte → Nat :=
  let topic := pMsg.arg1.cstr
  if pMsg.command = commandSubscribe then Function.update dataSub topic (dataSub topic + 1)
  else if pMsg.command = commandUnsubscribe then
    Function.update dataSub topic (dataSub topic - 1)
  else dataSub

/-! ## Creating and destroying -/

/-- `zmqBridgeMamaSubscriptionImpl_create` on the record allocated at
`handle`. -/
def SubscriptionImpl.create (impl : DataTransport κ ρ) (handle : Nat) (key : SubjectKey)
    (queue : κ) (sendOk : Bool) : DataTransport κ ρ × List ZmqControlMsg × MamaStatus :=
  let (mSubUid, identifier) := generateSerial impl.mSubUid
  let record : ZmqSubscription κ ρ :=
    { handle, mSubjectKey := key, mEndpointIdentifier := identifier, mZmqQueue := queue
      mIsNotMuted := true, mCompRegex := none }
  let impl := { impl with
    mSubUid
    mSubEndpoints := impl.mSubEndpoints ++ [⟨key.bytes, identifier, handle⟩]
    subs := impl.subs ++ [record] }
  (impl, SubscriptionImpl.subscribe key.bytes sendOk)

/-- `zmqBridgeMamaSubscriptionImpl_createWildcard` on the record allocated at
`handle`, whose regex is compiled. -/
def SubscriptionImpl.createWildcard (impl : DataTransport κ ρ) (handle : Nat)
    (key : SubjectKey) (regex : ρ) (queue : κ) (sendOk : Bool) :
    DataTransport κ ρ × List ZmqControlMsg × MamaStatus :=
  let (mWcsUid, identifier) := generateSerial impl.mWcsUid
  let record : ZmqSubscription κ ρ :=
    { handle, mSubjectKey := key, mEndpointIdentifier := identifier, mZmqQueue := queue
      mIsNotMuted := true, mCompRegex := some regex }
  let impl := { impl with
    mWcsUid
    mWcEndpoints := impl.mWcEndpoints ++ [handle]
    subs := impl.subs ++ [record] }
  (impl, SubscriptionImpl.subscribe key.bytes sendOk)

/-- `zmqBridgeMamaSubscription_mute`. -/
def Subscription.mute (impl : DataTransport κ ρ) (handle : Nat) : DataTransport κ ρ :=
  { impl with
    subs := impl.subs.map fun s =>
      if s.handle = handle then { s with mIsNotMuted := false } else s }

/-- `zmqBridgeMamaTransportImpl_unregisterWildcard`: every element with the
identifier is removed. -/
def TransportImpl.unregisterWildcard (impl : DataTransport κ ρ) (identifier : List Byte) :
    Except Fault (List Nat) :=
  collect (fun handle => do
    let s ← impl.sub handle
    pure (if s.mEndpointIdentifier = identifier then none else some handle))
    impl.mWcEndpoints

/-- `zmqBridgeMamaSubscription_destroy`. -/
def Subscription.destroy (impl : DataTransport κ ρ) (handle : Nat) (sendOk : Bool) :
    Except Fault (DataTransport κ ρ × List ZmqControlMsg × MamaStatus) := do
  let s ← impl.sub handle
  let impl ←
    if s.mIsWildcard = false then
      pure { impl with
        mSubEndpoints := endpointPoolUnregister impl.mSubEndpoints s.mSubjectKey.bytes
          s.mEndpointIdentifier }
    else do
      let mWcEndpoints ← TransportImpl.unregisterWildcard impl s.mEndpointIdentifier
      pure { impl with mWcEndpoints }
  -- unsubscribe at the zmq layer, then free the record
  let sent := SubscriptionImpl.unsubscribe s.mSubjectKey.bytes sendOk
  pure ({ impl with subs := impl.subs.eraseP (·.handle = handle) }, sent)

/-- `zmqBridgeMamaInbox_createByIndex` on the record allocated at `handle`. -/
def Inbox.createByIndex (impl : DataTransport κ ρ) (handle : Nat) (queue : κ) :
    DataTransport κ ρ :=
  let (mInboxUid, uid) := generateSerial impl.mInboxUid
  let record : ZmqInboxImpl κ :=
    { handle, mReplyHandle := impl.mInboxSubject ++ dot :: uid, mZmqQueue := queue }
  { impl with
    mInboxUid
    -- zmqBridgeMamaTransportImpl_registerInbox
    mInboxes := impl.mInboxes.insert
      (record.mReplyHandle.drop zmqReplyHandleInboxNameIndex) handle
    inboxes := impl.inboxes ++ [record] }

/-- `zmqBridgeMamaInbox_destroy`. -/
def Inbox.destroy (impl : DataTransport κ ρ) (handle : Nat) :
    Except Fault (DataTransport κ ρ) := do
  let inbox ← impl.inbox handle
  pure { impl with
    -- zmqBridgeMamaTransportImpl_unregisterInbox
    mInboxes := impl.mInboxes.erase (inbox.mReplyHandle.drop zmqReplyHandleInboxNameIndex)
    inboxes := impl.inboxes.eraseP (·.handle = handle) }

/-! ## Dispatching a received message -/

/-- Which callback a queued item runs. -/
inductive Callback where
  | inbox
  | sub
  | wildcard
  deriving DecidableEq, Repr

/-- `zmqTransportMsg` with the callback it is queued for. -/
structure ZmqTransportMsg where
  callback : Callback
  mEndpointIdentifier : CharArray (zmqReplyHandleInboxNameSize + 1)
  mZmsg : List Byte

/-- An item for a queue; `target` is the record it is queued for. -/
structure Enqueue (κ : Type) where
  queue : κ
  target : Nat
  tmsg : ZmqTransportMsg

/-- Queue up a message for the record at `target`: `identifier` is copied into
the item, which sits on the stack. -/
def enqueueMsg (callback : Callback) (queue : κ) (target : Nat) (identifier : List Byte)
    (pos : Nat) (zmsg : List Byte) : Except Fault (Enqueue κ) := do
  let mEndpointIdentifier ← strcpy (CharArray.zero _) identifier pos
  pure ⟨queue, target, callback, mEndpointIdentifier, zmsg⟩

/-- `zmqBridgeMamaTransportImpl_dispatchInboxMsg`. -/
def TransportImpl.dispatchInboxMsg (impl : DataTransport κ ρ) (zmsg : List Byte) :
    Except Fault (List (Enqueue κ) × MamaStatus) := do
  -- index directly into subject to pick up inbox name
  let inboxName ← readCstr zmsg zmqReplyHandleInboxNameIndex
  match impl.mInboxes.lookup inboxName with
  | none => pure ([], .notFound)
  | some handle => do
    let inbox ← impl.inbox handle
    let item ← enqueueMsg .inbox inbox.mZmqQueue handle zmsg zmqReplyHandleInboxNameIndex zmsg
    pure ([item], .ok)

section Dispatch

variable (reads : MemcmpReads) (regexec : ρ → List Byte → Bool)

/-- `zmqBridgeMamaTransportImpl_matchWildcards` for one element of the list. -/
def TransportImpl.matchWildcards (impl : DataTransport κ ρ) (zmsg : List Byte)
    (handle : Nat) : Except Fault (Option (Enqueue κ)) := do
  let s ← impl.sub handle
  -- check topic up to size of subscribed topic
  if !(← memcmpEq reads zmsg s.mSubjectKey.bytes) then pure none
  else
    match s.mCompRegex with
    | none => .error .badPointer
    | some regex =>
      if !(regexec regex (← readCstr zmsg 0)) then pure none
      else
        let item ← enqueueMsg .wildcard s.mZmqQueue handle (s.mEndpointIdentifier ++ [0]) 0 zmsg
        pure (some item)

/-- The body of the loop over the regular subscriptions. -/
def TransportImpl.queueForSub (impl : DataTransport κ ρ) (zmsg : List Byte) (handle : Nat) :
    Except Fault (Option (Enqueue κ)) := do
  let s ← impl.sub handle
  if !s.mIsNotMuted then pure none
  else
    let item ← enqueueMsg .sub s.mZmqQueue handle (s.mEndpointIdentifier ++ [0]) 0 zmsg
    pure (some item)

/-- `zmqBridgeMamaTransportImpl_dispatchSubMsg`. `order` is the order in which
the pool's table happens to hand out the endpoints. -/
def TransportImpl.dispatchSubMsg (order : List Nat → List Nat) (impl : DataTransport κ ρ)
    (zmsg : List Byte) : Except Fault (List (Enqueue κ) × MamaStatus) := do
  -- wildcard subscriptions
  let wildcards ←
    collect (TransportImpl.matchWildcards reads regexec impl zmsg) impl.mWcEndpoints
  -- regular subscriptions
  let subject ← readCstr zmsg 0
  let subs := order (endpointPoolGetRegistered impl.mSubEndpoints subject)
  if subs.isEmpty then pure (wildcards, .notFound)
  else
    let regular ← collect (TransportImpl.queueForSub impl zmsg) subs
    pure (wildcards ++ regular, .ok)

/-- `zmqBridgeMamaTransportImpl_dispatchNormalMsg`. -/
def TransportImpl.dispatchNormalMsg (order : List Nat → List Nat) (impl : DataTransport κ ρ)
    (zmsg : List Byte) : Except Fault (List (Enqueue κ) × MamaStatus) := do
  if ← memcmpEq reads zmsg zmqReplyHandlePrefix then TransportImpl.dispatchInboxMsg impl zmsg
  else TransportImpl.dispatchSubMsg reads regexec order impl zmsg

end Dispatch

/-! ## The callbacks -/

/-- What a callback leaves behind: the reusable messages of the queues, the
record whose application callback was called, with the buffer it was given, and
the buffer that was set in the queue's message. -/
structure CallbackOutcome (κ : Type) where
  queueMsgs : κ → ZmqBridgeMsgImpl
  called : Option (Nat × MsgBuffer)
  msgBuffer : Option MsgBuffer

section Callbacks

variable [DecidableEq κ] (impl : DataTransport κ ρ) (tmsg : ZmqTransportMsg)
  (queueMsgs : κ → ZmqBridgeMsgImpl)

/-- The common end of `subCallback` and `wcCallback`. -/
def TransportImpl.processMsg (s : ZmqSubscription κ ρ) : Except Fault (CallbackOutcome κ) :=
  if !s.mIsNotMuted then pure ⟨queueMsgs, none, none⟩
  else do
    let (msg, result) ← MamaMsgImpl.deserialize (queueMsgs s.mZmqQueue) tmsg.mZmsg
    let queueMsgs := Function.update queueMsgs s.mZmqQueue msg
    match result with
    | .error _ => pure ⟨queueMsgs, none, none⟩
    | .ok buffer => pure ⟨queueMsgs, some (s.handle, buffer), some buffer⟩

/-- `zmqBridgeMamaTransportImpl_subCallback`. -/
def TransportImpl.subCallback : Except Fault (CallbackOutcome κ) := do
  let subject ← readCstr tmsg.mZmsg 0
  match endpointPoolGetEndpointByIdentifiers impl.mSubEndpoints subject
      tmsg.mEndpointIdentifier.cstr with
  | none => pure ⟨queueMsgs, none, none⟩
  | some handle => do
    let s ← impl.sub handle
    TransportImpl.processMsg tmsg queueMsgs s

/-- `zmqBridgeMamaTransportImpl_wcCallback`; `findWildcard` keeps the last
element with the identifier. -/
def TransportImpl.wcCallback : Except Fault (CallbackOutcome κ) := do
  let found ← collect (fun handle => do
    let s ← impl.sub handle
    pure (if s.mEndpointIdentifier = tmsg.mEndpointIdentifier.cstr then some s else none))
    impl.mWcEndpoints
  match found.getLast? with
  | none => pure ⟨queueMsgs, none, none⟩
  | some s => TransportImpl.processMsg tmsg queueMsgs s

/-- `zmqBridgeMamaInboxImpl_onMsg`: whether the inbox's `mMsgCB` is called. -/
def InboxImpl.onMsg (inbox : ZmqInboxImpl κ) (msg : ZmqBridgeMsgImpl) : Bool :=
  let msgReplyHandle := MamaMsg.getReplyHandle msg
  if msgReplyHandle.length = 0 then false
  else if inbox.mReplyHandle ≠ msgReplyHandle then false
  else true

/-- `zmqBridgeMamaTransportImpl_inboxCallback`. -/
def TransportImpl.inboxCallback : Except Fault (CallbackOutcome κ) :=
  match impl.mInboxes.lookup tmsg.mEndpointIdentifier.cstr with
  | none => pure ⟨queueMsgs, none, none⟩
  | some handle => do
    let inbox ← impl.inbox handle
    let (msg, result) ← MamaMsgImpl.deserialize (queueMsgs inbox.mZmqQueue) tmsg.mZmsg
    let queueMsgs := Function.update queueMsgs inbox.mZmqQueue msg
    match result with
    | .error _ => pure ⟨queueMsgs, none, none⟩
    | .ok buffer =>
      let called := if InboxImpl.onMsg inbox msg then some (handle, buffer) else none
      pure ⟨queueMsgs, called, some buffer⟩

/-- Run the callback of a queued item. -/
def TransportImpl.runCallback : Except Fault (CallbackOutcome κ) :=
  match tmsg.callback with
  | .inbox => TransportImpl.inboxCallback impl tmsg queueMsgs
  | .sub => TransportImpl.subCallback impl tmsg queueMsgs
  | .wildcard => TransportImpl.wcCallback impl tmsg queueMsgs

end Callbacks

end ZmqBridge
