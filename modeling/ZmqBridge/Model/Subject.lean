import ZmqBridge.Model.Transport

/-!
# ZmqBridge — subject keys

`zmqBridgeMamaSubscriptionImpl_generateSubjectKey` of `subscription.c`, which
subscribers and publishers build their subjects with, and
`zmqBridgeMamaPublisherImpl_buildSendSubject` of `publisher.c`.

The key is printed into a `char` array on the stack, whose contents are
arbitrary at first. A cursor and the number of bytes that remain are moved by
what `snprintf` returns: both are 64-bit.
-/

namespace ZmqBridge

open Lib

/-- The local variables of `generateSubjectKey`; `subjectPos` is the distance to
`subject`, and `wrapped` says whether a subtraction from `bytesRemaining` went
below zero. -/
structure KeyCursor where
  subject : CharArray (maxSubjectLength + 1)
  subjectPos : Nat
  bytesRemaining : Nat
  wrapped : Bool

def KeyCursor.start (stack : CharArray (maxSubjectLength + 1)) : KeyCursor :=
  ⟨stack, 0, maxSubjectLength, false⟩

/-- `written = snprintf(..)`, then both variables are moved. -/
def KeyCursor.append (c : KeyCursor) (text : List Byte) : Except Fault KeyCursor := do
  let (subject, printed) ← snprintf c.subject c.subjectPos c.bytesRemaining text
  let written := toSizeT printed
  pure {
    subject
    subjectPos := (c.subjectPos + written) % 2 ^ 64
    bytesRemaining := (c.bytesRemaining + 2 ^ 64 - written) % 2 ^ 64
    wrapped := c.wrapped || decide (c.bytesRemaining < written) }

/-- If these are not the first bytes, prepend with a period. -/
def KeyCursor.prepend (c : KeyCursor) (component : List Byte) : List Byte :=
  if c.subjectPos ≠ 0 then dot :: component else component

/-- The body of `generateSubjectKey` up to the copy of `subject`. -/
def SubscriptionImpl.printSubject (stack : CharArray (maxSubjectLength + 1))
    (root source topic : Option (List Byte)) : Except Fault KeyCursor := do
  let c := KeyCursor.start stack
  let c ←
    match root with
    | none => pure c
    | some root => c.append root
  let c ←
    match source with
    | none => pure c
    | some source => c.append (c.prepend source)
  match topic with
  | none => pure c
  | some topic => do
    -- the result is not looked at for the last component
    let (subject, _) ← snprintf c.subject c.subjectPos c.bytesRemaining (c.prepend topic)
    pure { c with subject }

/-- `zmqBridgeMamaSubscriptionImpl_generateSubjectKey`: what is left in
`keyTarget`, and the status. -/
def SubscriptionImpl.generateSubjectKey (stack : CharArray (maxSubjectLength + 1))
    (root source topic : Option (List Byte)) (strdup : Bool) :
    Except Fault (Option (List Byte) × MamaStatus) := do
  let c ← SubscriptionImpl.printSubject stack root source topic
  let key ← readCstr c.subject.bytes 0
  if strdup then pure (some key, .ok) else pure (none, .nomem)

/-- The root of the data dictionary, the bytes of `_MDDD`. -/
def rootDictionary : List Byte := [0x5f, 0x4d, 0x44, 0x44, 0x44]

/-- `zmqBridgeMamaPublisherImpl_buildSendSubject`: what becomes `mSubject`. The
status of `generateSubjectKey` is not looked at. -/
def PublisherImpl.buildSendSubject (stack : CharArray (maxSubjectLength + 1))
    (root source topic : Option (List Byte)) (strdup : Bool) :
    Except Fault (Option (List Byte) × MamaStatus) := do
  let (keyTarget, _) ←
    match root with
    | some root =>
      -- a special publisher loses its topic unless it is the dictionary
      if root = rootDictionary then
        SubscriptionImpl.generateSubjectKey stack (some root) source topic strdup
      else SubscriptionImpl.generateSubjectKey stack (some root) source none strdup
    | none => SubscriptionImpl.generateSubjectKey stack none source topic strdup
  pure (keyTarget, .ok)

end ZmqBridge
