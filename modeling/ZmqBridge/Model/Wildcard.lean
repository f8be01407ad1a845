import ZmqBridge.Model.Subject

/-!
# ZmqBridge — creating subscriptions, wildcards among them

`zmqBridgeMamaSubscription_create` and `zmqBridgeMamaSubscription_createWildCard` of
`subscription.c`. The subject of a wildcard subscription is an extended regular
expression; ZeroMQ filters by a literal beginning, so one is cut out of the text of
the expression. `regcomp` is left open.

`ws2posix` of `examples/ozimpl.cpp`, which turns a hierarchical topic into such an
expression.
-/

namespace ZmqBridge

open Lib

variable {κ ρ : Type}

/-- `'^'`. -/
def anchorByte : Byte := 0x5e

/-- `[^/]+`. -/
def segmentWildcard : List Byte := [0x5b, 0x5e, 0x2f, 0x5d, 0x2b]

/-- `/.*`. -/
def superWildcard : List Byte := [0x2f, 0x2e, 0x2a]

/-- Generate the ZeroMQ topic from the regex, in a copy on the stack. The copy
starts at offset 0 and `pos` is where the topic starts. -/
def Subscription.wildcardTopic (origRegex : List Byte) : Except Fault (List Byte) := do
  let copy := origRegex ++ [0]
  -- skip beginning anchor
  let pos := if (← readByte copy 0) = anchorByte then 1 else 0
  match ← strstr copy pos segmentWildcard with
  | some regexPos => do
    let copy ← writeByte copy (pos + regexPos) 0
    readCstr copy pos
  | none => do
    let l := narrowInt (← strlen copy pos)
    -- find trailing "super" wildcard?
    if ← strcmpEq copy (pos + (l - 3)) superWildcard then do
      let copy ← writeByte copy (pos + (l - 2)) 0
      readCstr copy pos
    else readCstr copy pos

/-- The allocations of `createWildCard` and its helpers, whether the control message
can be sent, and what the stack holds. -/
structure WildcardCalls where
  allocate : Bool
  strdupRegex : Bool
  alloca : Bool
  callocRegex : Bool
  strdupKey : Bool
  listElement : Bool
  send : Bool
  stack : CharArray (maxSubjectLength + 1)

/-- The key `generateSubjectKey` left; it is used without looking at the status. -/
def subjectKeyOf (keyTarget : Option (List Byte)) : Except Fault SubjectKey :=
  match keyTarget with
  | none => .error .badPointer
  | some bytes =>
    if h : NulFree bytes ∧ bytes.length < maxSubjectLength then .ok ⟨bytes, h.1, h.2⟩
    else .error .badPointer

/-- `zmqBridgeMamaSubscription_createWildCard`, for a record allocated at
`handle`. -/
def Subscription.createWildCard (regcomp : List Byte → Option ρ) (calls : WildcardCalls)
    (impl : DataTransport κ ρ) (handle : Nat) (source : Option (List Byte)) (queue : κ) :
    Except Fault (DataTransport κ ρ × List ZmqControlMsg × MamaStatus) :=
  match source with
  | none => pure (impl, [], .nullArg)
  | some source =>
    if !calls.allocate then pure (impl, [], .nullArg)
    else if !calls.strdupRegex then pure (impl, [], .nullArg)
    else if !calls.alloca then pure (impl, [], .nomem)
    else do
      let topic ← Subscription.wildcardTopic source
      if !calls.callocRegex then pure (impl, [], .nomem)
      else
        -- create regex to match against
        match regcomp source with
        | none => pure (impl, [], .invalidArg)
        | some regex => do
          let (keyTarget, _) ← SubscriptionImpl.generateSubjectKey calls.stack none none
            (some topic) calls.strdupKey
          let key ← subjectKeyOf keyTarget
          -- the new element is written to without a look at it
          if !calls.listElement then .error .badPointer
          else pure (SubscriptionImpl.createWildcard impl handle key regex queue calls.send)

/-- The same for a regular subscription. `register` is whether the pool takes it: it
does not if the identifier could not be allocated. -/
structure SubscribeCalls where
  allocate : Bool
  strdupKey : Bool
  register : Bool
  send : Bool
  stack : CharArray (maxSubjectLength + 1)

/-- `zmqBridgeMamaSubscription_create`, for a record allocated at `handle`. The status
of the registration is not looked at. -/
def Subscription.create (calls : SubscribeCalls) (impl : DataTransport κ ρ) (handle : Nat)
    (source symbol : Option (List Byte)) (queue : κ) :
    Except Fault (DataTransport κ ρ × List ZmqControlMsg × MamaStatus) :=
  if !calls.allocate then pure (impl, [], .nullArg)
  else do
    let (keyTarget, _) ← SubscriptionImpl.generateSubjectKey calls.stack none source symbol
      calls.strdupKey
    let key ← subjectKeyOf keyTarget
    let (created, sent, status) := SubscriptionImpl.create impl handle key queue calls.send
    if calls.register then pure (created, sent, status)
    else pure ({ created with mSubEndpoints := impl.mSubEndpoints }, sent, status)

/-! ## Hierarchical topics -/

/-- `'*'`. -/
def starByte : Byte := 0x2a

/-- `'$'`. -/
def endByte : Byte := 0x24

/-- `^[^_][^/]*`. -/
def firstSegment : List Byte := [0x5e, 0x5b, 0x5e, 0x5f, 0x5d, 0x5b, 0x5e, 0x2f, 0x5d, 0x2a]

/-- `^[^_].*`. -/
def anyTopic : List Byte := [0x5e, 0x5b, 0x5e, 0x5f, 0x5d, 0x2e, 0x2a]

/-- The loop that replaces every `*`; what is put in has none. -/
def replaceStars : List Byte → List Byte
  | [] => []
  | b :: s => if b = starByte then segmentWildcard ++ replaceStars s else b :: replaceStars s

/-- `std::string::rfind`; `none` is `npos`. -/
def rfind (needle : List Byte) : List Byte → Option Nat
  | [] => if needle = [] then some 0 else none
  | b :: s =>
    match rfind needle s with
    | some i => some (i + 1)
    | none => if needle <+: b :: s then some 0 else none

/-- `regex.length() -2` in `size_t`: for one character it wraps around to `npos`. -/
def lengthMinusTwo : List Byte → Option Nat
  | [] => some (2 ^ 64 - 2)
  | [_] => none
  | _ :: _ :: s => some s.length

/-- The second half of `ws2posix`: a trailing `/.`, and the anchors. -/
def finishRegex (regex : List Byte) (status : MamaStatus) : Option (List Byte × MamaStatus) :=
  let p := rfind [0x2f, 0x2e] regex
  if p = lengthMinusTwo regex then
    match p with
    -- `replace` throws
    | none => none
    -- anchor at beginning, omit subjects with beginning underscore
    | some 0 => some (anyTopic, .ok)
    | some p =>
      let regex := regex.take p ++ [0x2e, 0x2a]
      some (if regex.head? = some anchorByte then regex else anchorByte :: regex, .ok)
  -- anchor at end
  else if status = .ok then some (regex ++ [endByte], status)
  else some (regex, status)

/-- `ws2posix`, where `regex` is what the string for the result holds before; `none` if
it throws. -/
def ws2posixInto (inTopic regex : List Byte) : Option (List Byte × MamaStatus) :=
  match inTopic.idxOf? starByte with
  -- anchor at beginning, omit subjects with beginning underscore
  | some 0 => finishRegex (firstSegment ++ replaceStars (inTopic.drop 1)) .ok
  | some _ => finishRegex (replaceStars (anchorByte :: inTopic)) .ok
  | none => finishRegex (replaceStars (regex ++ inTopic)) .invalidArg

/-- `ws2posix`, with an empty string for the result. -/
def ws2posix (inTopic : List Byte) : Option (List Byte × MamaStatus) := ws2posixInto inTopic []

end ZmqBridge
