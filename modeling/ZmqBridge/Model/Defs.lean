import ZmqBridge.Lib.CMemory

/-!
# ZmqBridge — sizes, codes and records of the bridge

The constants and message records of `zmqdefs.h` and `util.h`. Sizes of `char`
arrays include the terminator where the source adds one; the reply handle is
`_INBOX.<uuid>.<serial>`, so its parts sit at fixed offsets.
-/

namespace ZmqBridge

open Lib

/-- `mama_status`, as far as the modelled functions return it. -/
inductive MamaStatus where
  | ok
  | nomem
  | platform
  | systemError
  | invalidArg
  | nullArg
  | notFound
  | timeout
  deriving DecidableEq, Repr

/-! ## Sizes -/

/-- `MAX_SUBJECT_LENGTH`. -/
def maxSubjectLength : Nat := 256

/-- `ZMQ_MAX_ENDPOINT_LENGTH`. -/
def zmqMaxEndpointLength : Nat := 256

/-- `UUID_STRING_SIZE`. -/
def uuidStringSize : Nat := 36

/-- `ZMQ_INBOX_SUBJECT_SIZE`: the length of `_INBOX.<uuid>`. -/
def zmqInboxSubjectSize : Nat := 6 + 1 + uuidStringSize

/-- `ZMQ_REPLYHANDLE_INBOXNAME_INDEX`: the offset of the serial in a handle. -/
def zmqReplyHandleInboxNameIndex : Nat := zmqInboxSubjectSize + 1

/-- `ZMQ_REPLYHANDLE_INBOXNAME_SIZE`: a `long long` in hexadecimal. -/
def zmqReplyHandleInboxNameSize : Nat := 16

/-- `ZMQ_REPLYHANDLE_SIZE`. -/
def zmqReplyHandleSize : Nat :=
  zmqInboxSubjectSize + 1 + zmqReplyHandleInboxNameSize

/-- `ZMQ_REPLYHANDLE_PREFIX`, the bytes of `_INBOX`. -/
def zmqReplyHandlePrefix : List Byte := [0x5f, 0x49, 0x4e, 0x42, 0x4f, 0x58]

/-- The separator between the parts of a subject or handle. -/
def dot : Byte := 0x2e

/-! ## Data messages -/

/-- `zmqMsgType`. -/
inductive ZmqMsgType where
  | unknown
  | pubSub
  | inboxRequest
  | inboxResponse
  deriving DecidableEq, Repr

/-- The value of the enumerator, as it stands in the one-byte type field. -/
def ZmqMsgType.code : ZmqMsgType → Byte
  | .unknown => 0x00
  | .pubSub => 0x01
  | .inboxRequest => 0x02
  | .inboxResponse => 0x03

/-- A `mamaMsg` handle. -/
abbrev MamaMsg := Nat

/-- `zmqBridgeMsgImpl`: the bridge message, which the receiving side keeps one
of per queue and reuses for every message. -/
structure ZmqBridgeMsgImpl where
  mParent : Option MamaMsg
  mMsgType : Byte
  mReplyHandle : CharArray (zmqReplyHandleSize + 1)
  mSendSubject : CharArray (maxSubjectLength + 1)
  deriving DecidableEq

end ZmqBridge
