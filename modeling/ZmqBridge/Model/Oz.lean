import ZmqBridge.Model.Wildcard

/-!
# ZmqBridge — the C++ wrapper (`examples/ozimpl.cpp`)

How `oz::subscriber::start` makes a subscription out of a topic. What OpenMAMA does in
between is not part of the sources: its functions are a parameter, and that they hand the
topic over to the bridge is a hypothesis, `MamaSubscription.HandsOver`.
-/

namespace ZmqBridge

open Lib

variable {κ ρ : Type}

/-- `oz::wcType`. -/
inductive WcType where
  | unspecified
  | none
  | posix
  | ws
  deriving DecidableEq, Repr

/-- The characters that are taken for a regular expression: `.^$*+[]`. The backslash in
the string literal is not a character of the string. -/
def regexBytes : List Byte := [0x2e, 0x5e, 0x24, 0x2a, 0x2b, 0x5b, 0x5d]

/-- The type of a subscription, guessed if it is not given. -/
def WcType.guess (wcType : WcType) (topic : List Byte) : WcType :=
  if wcType = .unspecified ∧ topic.any (regexBytes.contains ·) then .posix else wcType

/-- What making a subscription comes to. -/
abbrev CreateResult (κ ρ : Type) : Type :=
  Except Fault (DataTransport κ ρ × List ZmqControlMsg × MamaStatus)

/-- The functions of OpenMAMA that a start calls: what `mamaSubscription_allocate` returns,
and `mamaSubscription_createBasic` and `mamaSubscription_createBasicWildCard` for a record
at a handle, with a topic and a queue. -/
structure MamaSubscription (κ ρ : Type) where
  allocate : MamaStatus
  createBasic : DataTransport κ ρ → Nat → List Byte → κ → CreateResult κ ρ
  createBasicWildCard : DataTransport κ ρ → Nat → List Byte → κ → CreateResult κ ρ

/-- `subscriber::start`, for a record allocated at `handle`; `none` if it throws. The
topic is translated into the string that holds it. -/
def Subscriber.start (mama : MamaSubscription κ ρ) (impl : DataTransport κ ρ) (handle : Nat)
    (topic : List Byte) (wcType : WcType) (queue : κ) :
    Except Fault (Option (DataTransport κ ρ × List ZmqControlMsg × MamaStatus)) :=
  if mama.allocate ≠ .ok then .ok (some (impl, [], mama.allocate))
  else
    match wcType.guess topic with
    | .ws =>
      match ws2posixInto topic topic with
      | Option.none => .ok Option.none
      | some (regex, status) =>
        if status ≠ .ok then .ok (some (impl, [], status))
        else (mama.createBasicWildCard impl handle regex queue).map some
    | .posix => (mama.createBasicWildCard impl handle topic queue).map some
    | .unspecified | .none => (mama.createBasic impl handle topic queue).map some

/-- The outcomes of the calls of a start, down to those of the bridge. -/
structure SubscriberCalls where
  allocate : MamaStatus
  basic : SubscribeCalls
  wildcard : WildcardCalls

/-- **OpenMAMA hands the topic over**: that of a basic subscription as the symbol, and that
of a wildcard subscription as the source, without a symbol, as the remark in
`zmqBridgeMamaSubscription_createWildCard` has it. -/
structure MamaSubscription.HandsOver (mama : MamaSubscription κ ρ)
    (regcomp : List Byte → Option ρ) (calls : SubscriberCalls) : Prop where
  allocate : mama.allocate = calls.allocate
  createBasic : ∀ impl handle topic queue, mama.createBasic impl handle topic queue =
    Subscription.create calls.basic impl handle none (some topic) queue
  createBasicWildCard : ∀ impl handle topic queue,
    mama.createBasicWildCard impl handle topic queue =
      Subscription.createWildCard regcomp calls.wildcard impl handle (some topic) queue

/-- An OpenMAMA that does nothing else. -/
def MamaSubscription.direct (regcomp : List Byte → Option ρ) (calls : SubscriberCalls) :
    MamaSubscription κ ρ where
  allocate := calls.allocate
  createBasic impl handle topic queue :=
    Subscription.create calls.basic impl handle none (some topic) queue
  createBasicWildCard impl handle topic queue :=
    Subscription.createWildCard regcomp calls.wildcard impl handle (some topic) queue

theorem MamaSubscription.direct_handsOver (regcomp : List Byte → Option ρ)
    (calls : SubscriberCalls) :
    (MamaSubscription.direct regcomp calls : MamaSubscription κ ρ).HandsOver regcomp calls :=
  ⟨rfl, fun _ _ _ _ => rfl, fun _ _ _ _ => rfl⟩

end ZmqBridge
