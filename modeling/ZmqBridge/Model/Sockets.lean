import ZmqBridge.Lib.RecLock
import ZmqBridge.Model.Create
import ZmqBridge.Model.Threads

/-!
# ZmqBridge — the sockets of one transport and their locks (`transport.c`)

ZeroMQ sockets must not be used by two threads at once, so a `zmqSocket` comes with
a lock, which is recursive. The threads are those of `Threads`, and the threads of
the application that publish and post commands. What a thread does to the sockets
on the way to one of its steps is a list of operations: those before the step takes
effect and those after it. Between any two operations the other threads may move.

A call stands for the calls of ZeroMQ that are made one after another, and `close` for
the two calls of `zmqBridgeMamaTransportImpl_destroySocket`. What is undefined (to take
a lock after `wlock_destroy`, to call a socket after `zmq_close`) ends a run. The
sockets of the monitor are left out, as its thread is.
-/

namespace ZmqBridge

open Lib

variable {κ : Type}

/-! ## What the threads do to the sockets -/

/-- `wlock_lock`, a call and `wlock_unlock`. -/
def useOps (s : SocketName) : List (SyncOp SocketName) := [.lock s, .call [s], .unlock s]

/-- `zmqBridgeMamaTransportImpl_destroySocket`. -/
def destroySocketOps (s : SocketName) : List (SyncOp SocketName) :=
  [.lock s, .close s, .unlock s, .destroy s]

/-- The sockets the dispatch thread locks for good. -/
def dispatchLocks (mIsNaming : Bool) : List SocketName :=
  .dataSub :: if mIsNaming then [.namingSub] else []

/-- The sockets that `zmqBridgeMamaTransport_destroy` destroys, in its order. -/
def transportSockets (mIsNaming : Bool) : List SocketName :=
  [.dataSub, .dataPub, .controlSub, .controlPub] ++
    if mIsNaming then [.namingSub, .namingPub] else []

/-- What is done to the sockets for a step: before it takes effect, and after. -/
structure SocketOps where
  before : List (SyncOp SocketName)
  after : List (SyncOp SocketName)

def SocketOps.none : SocketOps := ⟨[], []⟩

/-- A send under the lock: what is sent is sent before the lock is given back. -/
def sendOps (s : SocketName) : SocketOps := ⟨[.lock s, .call [s]], [.unlock s]⟩

/-- `zmqBridgeMamaTransport_destroy`. -/
def Threads.destroyOps (s : Threads) : SocketOps :=
  match s.app with
  | .disconnect => if s.impl.mIsNaming then sendOps .namingPub else .none
  | .exit => sendOps .controlPub
  | .close _ => ⟨(transportSockets s.impl.mIsNaming).flatMap destroySocketOps, []⟩
  | _ => .none

/-- `zmqBridgeMamaTransportImpl_dispatchThread`, other than receiving a message. Where a
socket is drained, `ok` tells whether it was polled as readable: then the last of the
calls finds nothing. -/
def Threads.dispatchOps (s : Threads) (ok : Bool) : SocketOps :=
  match s.dispatch with
  | .setBeacon => ⟨(dispatchLocks s.impl.mIsNaming).map .lock, []⟩
  | .loop =>
    if s.impl.naming.mIsDispatching then .none
    else ⟨(dispatchLocks s.impl.mIsNaming).map .unlock, []⟩
  | .poll => ⟨[.call (.controlSub :: dispatchLocks s.impl.mIsNaming)], []⟩
  | .sendBeacon => sendOps .namingPub
  | .control => if ok then ⟨[.call [.controlSub]], []⟩ else .none
  | .naming => if s.impl.mIsNaming && ok then ⟨[.call [.namingSub]], []⟩ else .none
  | .data => if ok then ⟨[.call [.dataSub]], []⟩ else .none
  | _ => .none

/-- `zmqBridgeMamaTransportImpl_dispatchControlMsg`: the data socket is subscribed without
taking its lock once more. -/
def Threads.controlOps (s : Threads) : SocketOps :=
  match s.impl.control with
  | [] => .none
  | pMsg :: _ =>
    ⟨[.call [.controlSub]],
      if pMsg.command = commandSubscribe ∨ pMsg.command = commandUnsubscribe then
        [.call [.dataSub]] else []⟩

/-- `zmqBridgeMamaTransportImpl_dispatchNamingMsg`. -/
def Threads.namingOps (s : Threads) (calls : NamingCalls) (pMsg : NamingMsg) : SocketOps :=
  if pMsg.announces then
    match s.impl.naming.mPeers.lookup pMsg.mUuid with
    | some _ => ⟨[.call [.namingSub]], []⟩
    | none =>
      if calls.connect then
        ⟨[.call [.namingSub]] ++ useOps .dataSub ++ (sendOps .namingPub).before,
          (sendOps .namingPub).after⟩
      else ⟨[.call [.namingSub]] ++ useOps .dataSub, []⟩
  else if pMsg.mType = typeDisconnect then
    -- the data socket for publishing is kicked as well
    ⟨[.call [.namingSub]] ++ useOps .dataSub ++ useOps .dataPub, []⟩
  else if pMsg.mType = typeWelcome then ⟨[.call [.namingSub]] ++ useOps .namingPub, []⟩
  else ⟨[.call [.namingSub]], []⟩

/-- `zmqBridgeMamaTransportImpl_publishEndpoints`. -/
def Threads.publishOps (s : Threads) (i : Nat) : SocketOps :=
  match s.publish[i]? with
  | some (.send _) => sendOps .namingPub
  | _ => .none

/-- What a step of the threads does to the sockets. -/
def Threads.socketOps (s : Threads) : ThreadsAct → SocketOps
  | .destroy _ => s.destroyOps
  | .dispatch ok => s.dispatchOps ok
  | .control => s.controlOps
  | .naming calls pMsg => s.namingOps calls pMsg
  | .publish i _ => s.publishOps i
  | .command _ => sendOps .controlPub

/-! ## Runs -/

/-- The threads that use the sockets; a `client` is one of the application. -/
inductive SocketThread (κ : Type) where
  | app
  | dispatch
  | publish (i : Nat)
  | client (k : κ)
  deriving DecidableEq, Repr

/-- The thread that takes a step; a command is posted by `k`. -/
def ThreadsAct.thread (a : ThreadsAct) (k : κ) : SocketThread κ :=
  match a with
  | .destroy _ => .app
  | .dispatch _ => .dispatch
  | .control => .dispatch
  | .naming _ _ => .dispatch
  | .publish i _ => .publish i
  | .command _ => .client k

/-- A transport with its sockets. A thread is going to do `todo`; then, if a step is
`pending`, the step takes effect and what is after it is left to do. -/
structure LockedThreads (κ : Type) where
  threads : Threads
  sync : Sync (SocketThread κ) SocketName
  todo : SocketThread κ → List (SyncOp SocketName)
  pending : SocketThread κ → Option (ThreadsAct × List (SyncOp SocketName))
  undefined : Bool

def LockedThreads.init (threads : Threads) : LockedThreads κ where
  threads
  sync := ⟨fun _ => .free, fun _ => false⟩
  todo _ := []
  pending _ := none
  undefined := false

/-- A thread begins a step, or a client begins to publish; a thread performs its next
operation; a step takes effect. -/
inductive LockedAct (κ : Type) where
  | begin (a : ThreadsAct) (k : κ)
  | publish (k : κ)
  | exec (t : SocketThread κ)
  | effect (t : SocketThread κ)

section Step

variable [DecidableEq κ]

/-- The thread is between two steps. -/
def LockedThreads.idle (s : LockedThreads κ) (t : SocketThread κ) : Bool :=
  (s.todo t).isEmpty && (s.pending t).isNone

/-- The thread does what is next on its list. -/
def LockedThreads.exec (s : LockedThreads κ) (t : SocketThread κ) : Option (LockedThreads κ) :=
  match s.todo t with
  | [] => none
  | op :: ops =>
    match s.sync.exec t op with
    | .waits => none
    | .undefined => some { s with undefined := true }
    | .next sync => some { s with sync, todo := Function.update s.todo t ops }

/-- The pending step of the thread takes effect. -/
def LockedThreads.effect (s : LockedThreads κ) (t : SocketThread κ) :
    Option (LockedThreads κ) :=
  match s.todo t, s.pending t with
  | [], some (a, ops) =>
    match s.threads.step a with
    | none => none
    | some threads => some { s with
        threads
        todo := Function.update s.todo t ops
        pending := Function.update s.pending t none }
  | _, _ => none

/-- A step waits for a semaphore or for a thread before it begins. -/
def LockedThreads.step (s : LockedThreads κ) (a : LockedAct κ) : Option (LockedThreads κ) :=
  if s.undefined then none
  else match a with
    | .begin a k =>
      if s.idle (a.thread k) ∧ (s.threads.step a).isSome then
        let ops := s.threads.socketOps a
        some { s with
          todo := Function.update s.todo (a.thread k) ops.before
          pending := Function.update s.pending (a.thread k) (some (a, ops.after)) }
      else none
    | .publish k =>
      -- `zmqBridgeMamaPublisherImpl_sendSubject`
      if s.idle (.client k) then
        some { s with todo := Function.update s.todo (.client k) (useOps .dataPub) }
      else none
    | .exec t => s.exec t
    | .effect t => s.effect t

end Step

end ZmqBridge
