import ZmqBridge.Model.Naming
import ZmqBridge.Model.Transport

/-!
# ZmqBridge — the threads of one transport (`transport.c`)

Three kinds of threads share a `zmqTransportBridge`: the application's, which
calls `zmqBridgeMamaTransport_destroy`; the dispatch thread, which
`zmqBridgeMamaTransportImpl_start` creates; and a `publishEndpoints` thread for
each welcome message. A thread is the place it is at, and a step takes it to the
next access to something shared. Every interleaving of such steps is a run.

The transport starts as `zmqBridgeMamaTransport_create` leaves it. The monitor
thread and the data messages are left out; so is `usleep`, which only says that a
step may take its time. The locks of the sockets, for which a thread may have to wait
as well, are in `Model/Sockets`: what is said here about every run holds of the runs
they allow, but not every run is one of these.

`wthread_create` that fails leaves the handle undefined. Joining a handle that
is not that of a thread is recorded, and the caller goes on.
-/

namespace ZmqBridge

open Lib

/-! ## What is shared -/

def commandExit : Byte := 0x58

/-- The part of `zmqTransportBridge` its threads share. `control` is on its way
from `mZmqControlPub` to `mZmqControlSub`; `mPublishThread` is the number of a
`publishEndpoints` thread, if it is the handle of one. -/
structure TransportBridge where
  mIsNaming : Bool
  mBeaconInterval : Nat
  mIsReady : Nat
  mPublishThread : Option Nat
  control : List ZmqControlMsg
  naming : NamingTransport

/-- `zmqBridgeMamaTransportImpl_dispatchControlMsg` for 'X'. -/
def TransportImpl.dispatchExitMsg (impl : NamingTransport) (pMsg : ZmqControlMsg) :
    NamingTransport :=
  if pMsg.command = commandExit then { impl with mIsDispatching := false } else impl

/-- The control message of `zmqBridgeMamaTransportImpl_stop`. -/
def exitMsg : ZmqControlMsg := ⟨commandExit, CharArray.zero _⟩

/-! ## Where the threads are -/

/-- The application thread: before `zmqBridgeMamaTransport_destroy`, in
`zmqBridgeMamaTransportImpl_stop` up to `joinDispatch`, and then in `destroy`
again, with the status `stop` returned. It ends by freeing the transport, or
without that if the monitor could not be stopped. -/
inductive AppPc where
  | running
  | ready
  | disconnect
  | exit
  | joinDispatch
  | joinPublish (status : MamaStatus)
  | close (status : MamaStatus)
  | freed (status : MamaStatus)
  | returned (status : MamaStatus)
  deriving DecidableEq, Repr

/-- The dispatch thread. -/
inductive DispatchPc where
  | start
  | post
  | setBeacon
  | loop
  | poll
  | beacon
  | sendBeacon
  | control
  | naming
  | data
  | done
  deriving DecidableEq, Repr

inductive ThreadId where
  | dispatch
  | publish (i : Nat)
  deriving DecidableEq, Repr

/-- A transport with its threads. `nextBeacon` is a local of the dispatch thread,
as far as it is tested. What happened is kept as well: the results of
`wthread_create` for `mPublishThread`, the handles that were joined, and what was
sent on `mZmqNamingPub`. -/
structure Threads where
  impl : TransportBridge
  app : AppPc
  dispatch : DispatchPc
  nextBeacon : Bool
  publish : List PublishPc
  creations : List Bool
  joins : List (Option ThreadId)
  sent : List NamingMsg

/-! ## The application thread -/

/-- One step of `zmqBridgeMamaTransport_destroy`; `ok` tells whether the call it
makes succeeds. -/
def Threads.destroy (s : Threads) (ok : Bool) : Option Threads :=
  match s.app with
  | .running => some { s with impl := { s.impl with mBeaconInterval := 0 }, app := .ready }
  | .ready =>
    if s.impl.mIsReady = 0 then none
    else some { s with
      impl := { s.impl with mIsReady := s.impl.mIsReady - 1 }, app := .disconnect }
  | .disconnect =>
    if s.impl.mIsNaming then
      let (msgs, status) := TransportImpl.sendEndpointsMsg s.impl.naming typeDisconnect ok
      if status ≠ .ok then some { s with app := .joinPublish status }
      else some { s with sent := s.sent ++ msgs, app := .exit }
    else some { s with app := .exit }
  | .exit =>
    let (msgs, status) := TransportImpl.sendCommand exitMsg ok
    if status ≠ .ok then some { s with app := .joinPublish status }
    else some { s with
      impl := { s.impl with control := s.impl.control ++ msgs }, app := .joinDispatch }
  | .joinDispatch =>
    if s.dispatch = .done then
      some { s with joins := s.joins ++ [some .dispatch], app := .joinPublish .ok }
    else none
  | .joinPublish status =>
    match s.impl.mPublishThread with
    | none => some { s with joins := s.joins ++ [none], app := .close status }
    | some i =>
      if s.publish[i]? = some .done then
        some { s with joins := s.joins ++ [some (.publish i)], app := .close status }
      else none
  | .close status => some { s with app := if ok then .freed status else .returned status }
  | .freed _ => none
  | .returned _ => none

/-! ## The dispatch thread -/

/-- One step of `zmqBridgeMamaTransportImpl_dispatchThread` other than receiving
a message. `ok` is the outcome of the call, or of the test of the clock. -/
def Threads.dispatchThread (s : Threads) (ok : Bool) : Option Threads :=
  match s.dispatch with
  | .start => some { s with
      impl := { s.impl with naming := { s.impl.naming with mIsDispatching := true } }
      dispatch := .post }
  | .post => some { s with
      impl := { s.impl with mIsReady := s.impl.mIsReady + 1 }, dispatch := .setBeacon }
  | .setBeacon => some { s with
      nextBeacon := decide (s.impl.mBeaconInterval > 0), dispatch := .loop }
  | .loop => some { s with
      dispatch := if s.impl.naming.mIsDispatching then .poll else .done }
  | .poll => some { s with dispatch := if ok then .beacon else .loop }
  | .beacon => some { s with
      dispatch := if s.nextBeacon ∧ s.impl.mBeaconInterval > 0 ∧ ok then .sendBeacon
        else .control }
  | .sendBeacon => some { s with
      sent := s.sent ++ (TransportImpl.sendEndpointsMsg s.impl.naming typeBeacon ok).1
      dispatch := .control }
  | .control => some { s with dispatch := .naming }
  | .naming => some { s with dispatch := .data }
  | .data => some { s with dispatch := .loop }
  | .done => none

/-- The dispatch thread receives a control message. -/
def Threads.recvControl (s : Threads) : Option Threads :=
  match s.dispatch, s.impl.control with
  | .control, pMsg :: control => some { s with
      impl := { s.impl with
        control, naming := TransportImpl.dispatchExitMsg s.impl.naming pMsg } }
  | _, _ => none

/-- The dispatch thread receives a naming message. -/
def Threads.recvNaming (s : Threads) (calls : NamingCalls) (pMsg : NamingMsg) :
    Option Threads :=
  if s.dispatch = .naming ∧ s.impl.mIsNaming = true then
    let out := TransportImpl.dispatchNamingMsg calls s.impl.naming pMsg
    let impl := { s.impl with naming := out.impl }
    let sent := s.sent ++ out.sent
    match out.thread with
    | none => some { s with impl, sent }
    | some false => some { s with
        impl := { impl with mPublishThread := none }, sent
        creations := s.creations ++ [false] }
    | some true => some { s with
        impl := { impl with mPublishThread := some s.publish.length }, sent
        publish := s.publish ++ [.reset], creations := s.creations ++ [true] }
  else none

/-! ## The `publishEndpoints` threads -/

/-- One step of `publishEndpoints` thread `i`; `ok` tells whether a send
succeeds. -/
def Threads.publishEndpoints (s : Threads) (i : Nat) (ok : Bool) : Option Threads :=
  match s.publish[i]? with
  | none => none
  | some .done => none
  | some pc =>
    let out := TransportImpl.publishEndpoints s.impl.naming pc
    let msgs := match out.command with
      | none => []
      | some command => (TransportImpl.sendEndpointsMsg out.impl command ok).1
    some { s with
      impl := { s.impl with naming := out.impl }
      publish := s.publish.set i out.pc, sent := s.sent ++ msgs }

/-! ## Runs -/

/-- Which thread moves, and what it is told by the calls it makes. Other threads
of the application post commands, but only `stop` posts an 'X'. -/
inductive ThreadsAct where
  | destroy (ok : Bool)
  | dispatch (ok : Bool)
  | control
  | naming (calls : NamingCalls) (pMsg : NamingMsg)
  | publish (i : Nat) (ok : Bool)
  | command (msg : ZmqControlMsg)

def Threads.step (s : Threads) : ThreadsAct → Option Threads
  | .destroy ok => s.destroy ok
  | .dispatch ok => s.dispatchThread ok
  | .control => s.recvControl
  | .naming calls pMsg => s.recvNaming calls pMsg
  | .publish i ok => s.publishEndpoints i ok
  | .command msg =>
    if msg.command = commandExit then none
    else some { s with impl := { s.impl with control := s.impl.control ++ [msg] } }

/-- A transport that was just created, with its dispatch thread. -/
def Threads.init (mIsNaming : Bool) (mBeaconInterval : Nat) (mUuid mPubEndpoint : List Byte)
    (mNamingConnectRetries : Int) : Threads where
  impl := {
    mIsNaming, mBeaconInterval
    mIsReady := 0
    mPublishThread := none
    control := []
    naming := {
      mUuid, mPubEndpoint, mNamingConnectRetries
      mPeers := ∅
      mNamingConnected := false
      mIsDispatching := false
      mZmqDataSub := ∅
      mZmqNamingPub := ∅ } }
  app := .running
  dispatch := .start
  nextBeacon := false
  publish := []
  creations := []
  joins := []
  sent := []

end ZmqBridge
