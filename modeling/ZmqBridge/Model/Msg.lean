import ZmqBridge.Model.Defs

/-!
# ZmqBridge — the bridge message (`msg.c`)

Encoding and decoding of data messages, statement by statement. A ZeroMQ
message is the list of its bytes; `serialize` fills a buffer that ZeroMQ
allocated and left uninitialised, `deserialize` walks a cursor over the
received bytes. Both run under the bounds checks of `Lib.CMemory`, so a read
or write outside an object shows up as a `Fault`.

`mamaMsg_getByteBuffer` and `mamaMsgImpl_setMsgBuffer` belong to OpenMAMA: the
first is the payload (or a status) it hands out, the second is the buffer it is
given.
-/

namespace ZmqBridge

open Lib

/-- `zmqBridgeMamaMsgImpl_init`. The record may sit on the stack with arbitrary
contents; `strcpy(.., "")` only overwrites the first byte of each array. -/
def MamaMsgImpl.init (msg : ZmqBridgeMsgImpl) : ZmqBridgeMsgImpl where
  mParent := none
  mMsgType := ZmqMsgType.pubSub.code
  mReplyHandle := msg.mReplyHandle.clear
  mSendSubject := msg.mSendSubject.clear

/-- `calloc(1, sizeof(zmqBridgeMsgImpl))`. -/
def MamaMsgImpl.calloc : ZmqBridgeMsgImpl where
  mParent := none
  mMsgType := 0
  mReplyHandle := CharArray.zero _
  mSendSubject := CharArray.zero _

/-- `zmqBridgeMamaMsgImpl_createMsgOnly`, when the allocation succeeds. -/
def MamaMsgImpl.createMsgOnly : ZmqBridgeMsgImpl :=
  MamaMsgImpl.init MamaMsgImpl.calloc

/-- `zmqBridgeMamaMsgImpl_setMsgType`. -/
def MamaMsgImpl.setMsgType (impl : ZmqBridgeMsgImpl) (type : ZmqMsgType) :
    ZmqBridgeMsgImpl :=
  { impl with mMsgType := type.code }

/-- `zmqBridgeMamaMsgImpl_setReplyHandle`; the handle is a C string. -/
def MamaMsgImpl.setReplyHandle (impl : ZmqBridgeMsgImpl) (handle : List Byte) :
    Except Fault ZmqBridgeMsgImpl := do
  let mReplyHandle ← strcpy impl.mReplyHandle (handle ++ [0]) 0
  pure { impl with mReplyHandle }

/-- `zmqBridgeMamaMsg_setSendSubject`. A subject that does not fit is left in
the message truncated. `updateString` is `mamaMsg_updateString` on the parent. -/
def MamaMsg.setSendSubject (updateString : MamaMsg → List Byte → MamaStatus)
    (impl : ZmqBridgeMsgImpl) (symbol : Option (List Byte)) :
    ZmqBridgeMsgImpl × MamaStatus :=
  match symbol with
  | none => (impl, .nullArg)
  | some symbol =>
    let (mSendSubject, copied) := strSizeCpy impl.mSendSubject symbol
    let impl := { impl with mSendSubject }
    if copied ≠ symbol.length then (impl, .platform)
    else
      match impl.mParent with
      | none => (impl, .ok)
      | some parent => (impl, updateString parent symbol)

/-- `zmqBridgeMamaMsg_getReplyHandle`, as the C string it points to. -/
def MamaMsg.getReplyHandle (impl : ZmqBridgeMsgImpl) : List Byte :=
  impl.mReplyHandle.cstr

/-- `zmqBridgeMamaMsg_isFromInbox`. -/
def MamaMsg.isFromInbox (impl : ZmqBridgeMsgImpl) : Nat :=
  if impl.mMsgType = ZmqMsgType.inboxRequest.code then 1
  else if impl.mReplyHandle.bytes.head? ≠ some 0 then 1
  else 0

/-! ## Encoding -/

/-- The number of bytes `zmqBridgeMamaMsgImpl_serialize` asks ZeroMQ for. -/
def MamaMsgImpl.serializedSize (impl : ZmqBridgeMsgImpl) (payloadSize : Nat) :
    Except Fault Nat := do
  let serializedSize := ((← strlen impl.mSendSubject.bytes 0) + 1) + 1 + payloadSize
  let serializedSize ←
    if impl.mMsgType = ZmqMsgType.inboxRequest.code then do
      pure (serializedSize + (← strlen impl.mReplyHandle.bytes 0))
    else pure serializedSize
  -- trailing null for reply handle (even if not present)
  pure (serializedSize + 1)

/-- `zmqBridgeMamaMsgImpl_serialize`. `source` is what `mamaMsg_getByteBuffer`
returns and `initSize` whether `zmq_msg_init_size` succeeds. -/
def MamaMsgImpl.serialize (impl : ZmqBridgeMsgImpl)
    (source : Except MamaStatus (List Byte)) (initSize : Bool) :
    Except Fault (Except MamaStatus (List (Option Byte))) :=
  match source with
  | .error status => pure (.error status)
  | .ok payload => do
    let serializedSize ← MamaMsgImpl.serializedSize impl payload.length
    if !initSize then pure (.error .platform)
    else
      let zmsg := List.replicate serializedSize none
      -- the subject, with its terminator
      let msgSubjectByteCount := (← strlen impl.mSendSubject.bytes 0) + 1
      let zmsg ← memcpyAt zmsg 0 (impl.mSendSubject.bytes.take msgSubjectByteCount)
      let bufferPos := msgSubjectByteCount
      -- the message type
      let zmsg ← memcpyAt zmsg bufferPos [impl.mMsgType]
      let bufferPos := bufferPos + 1
      -- the reply address, only for a request
      let (zmsg, bufferPos) ←
        if impl.mMsgType = ZmqMsgType.inboxRequest.code then do
          let msgInboxByteCount ← strlen impl.mReplyHandle.bytes 0
          let zmsg ← memcpyAt zmsg bufferPos
            (impl.mReplyHandle.bytes.take msgInboxByteCount)
          pure (zmsg, bufferPos + msgInboxByteCount)
        else pure (zmsg, bufferPos)
      let zmsg ← memcpyAt zmsg bufferPos [0]
      let bufferPos := bufferPos + 1
      -- the payload
      let zmsg ← memcpyAt zmsg bufferPos payload
      pure (.ok zmsg)

/-! ## Decoding -/

/-- What `mamaMsgImpl_setMsgBuffer` is given: the payload's place in the
received message, its reported length, and its first byte. -/
structure MsgBuffer where
  bufferPos : Nat
  payloadSize : Int
  payloadType : Byte
  deriving DecidableEq, Repr

/-- The bytes handed on with a buffer. -/
def MsgBuffer.bytes (b : MsgBuffer) (zmsg : List Byte) : List Byte :=
  (zmsg.drop b.bufferPos).take b.payloadSize.toNat

/-- `zmqBridgeMamaMsgImpl_deserialize`. The message is updated in place, also
when the payload is rejected in the end. -/
def MamaMsgImpl.deserialize (impl : ZmqBridgeMsgImpl) (zmsg : List Byte) :
    Except Fault (ZmqBridgeMsgImpl × Except MamaStatus MsgBuffer) := do
  -- skip past the subject
  let bufferPos := (← strlen zmsg 0) + 1
  -- the message type
  let mMsgType ← readByte zmsg bufferPos
  let bufferPos := bufferPos + 1
  let (mReplyHandle, bufferPos) ←
    if mMsgType = ZmqMsgType.inboxRequest.code then do
      -- for requests, the reply address is embedded in the message
      let mReplyHandle ← strcpy impl.mReplyHandle zmsg bufferPos
      pure (mReplyHandle, bufferPos + (← strlen zmsg bufferPos))
    else if mMsgType = ZmqMsgType.inboxResponse.code then do
      -- for responses, the reply address is the subject
      let mReplyHandle ← strcpy impl.mReplyHandle zmsg 0
      pure (mReplyHandle, bufferPos)
    else pure (impl.mReplyHandle, bufferPos)
  let bufferPos := bufferPos + 1
  let impl := { impl with mMsgType, mReplyHandle }
  let payloadSize := narrowInt (zmsg.length - bufferPos)
  if payloadSize < 0 then pure (impl, .error .systemError)
  else
    let payloadType ← readByte zmsg bufferPos
    pure (impl, .ok { bufferPos, payloadSize, payloadType })

end ZmqBridge
