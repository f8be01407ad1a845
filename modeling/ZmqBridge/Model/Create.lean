import ZmqBridge.Lib.Attempt
import ZmqBridge.Lib.PtrArray
import ZmqBridge.Model.Defs

/-!
# ZmqBridge — creating a transport (`transport.c`)

`zmqBridgeMamaTransport_create` and what it calls, with every call of ZeroMQ, of
the thread library and of an allocator that it looks at as a `LibCall`, which may
succeed or fail. The state of a `Creation` is what has been opened and started;
`CALL_MAMA_FUNC` and `CALL_ZMQ_FUNC` leave it as it is.

Once the dispatch thread runs, the other threads of the transport run next to the
rest of `start`: a `NamingRun` is what `start` sees of them. The sockets that the
monitor thread opens for itself belong to that thread.
-/

namespace ZmqBridge

open Lib

/-! ## Sockets, threads and calls -/

/-- The sockets of a transport, by the name they are given. -/
inductive SocketName where
  | controlSub
  | controlPub
  | dataPub
  | dataSub
  | namingPub
  | namingSub
  | monitorSub
  | monitorPub
  deriving DecidableEq, Repr

inductive TransportThread where
  | dispatch
  | monitor
  | publishEndpoints
  deriving DecidableEq, Repr

/-- The calls whose outcome is looked at. Binds and connects are numbered as the loops
of `zmqBridgeMamaTransportImpl_init` number the addresses of a socket. -/
inductive LibCall where
  | calloc
  | listCreate
  | createPeers
  | createInboxes
  | endpointPoolCreate
  | generateUuid
  | strdupInboxSubject
  | ctxNew
  | socket (s : SocketName)
  | setIdentity (s : SocketName)
  | monitorSocket (s : SocketName)
  | setLinger (s : SocketName)
  | bind (s : SocketName) (i : Nat)
  | lastEndpoint (s : SocketName)
  | setHeartbeat (s : SocketName) (i : Nat)
  | setReconnect (s : SocketName) (i : Nat)
  | connect (s : SocketName) (i : Nat)
  | setRcvHwm (s : SocketName)
  | setSndHwm (s : SocketName)
  | setBacklog (s : SocketName)
  | subscribe (s : SocketName)
  | reconnectStop (s : SocketName)
  | createThread (t : TransportThread)
  deriving DecidableEq, Repr

/-- An address a socket is bound or connected to. -/
structure SocketEndpoint where
  socket : SocketName
  bound : Bool
  uri : List Byte
  deriving DecidableEq

/-- What is open and running. -/
structure Creation where
  context : Bool
  sockets : List SocketName
  threads : List TransportThread
  endpoints : List SocketEndpoint
  deriving DecidableEq

def Creation.empty : Creation := ⟨false, [], [], []⟩

abbrev CreateM := Attempt Creation MamaStatus Fault Unit

/-! ## Parameters -/

/-- `ZMQ_MAX_NAMING_URIS`. -/
def zmqMaxNamingUris : Nat := 8

/-- `ZMQ_MAX_INCOMING_URIS`. -/
def zmqMaxIncomingUris : Nat := 512

/-- `ZMQ_MAX_OUTGOING_URIS`. -/
def zmqMaxOutgoingUris : Nat := 512

/-- The parameters in `zmqTransportBridge` that decide which calls are made. The number
of retries is never negative, since `getInt` does not return a negative one. -/
structure TransportParams where
  mSocketMonitor : Int
  mIsNaming : Int
  mPublishAddress : List Byte
  mNamingAddress : PtrArray (List Byte) zmqMaxNamingUris
  mIncomingAddress : PtrArray (List Byte) zmqMaxIncomingUris
  mOutgoingAddress : PtrArray (List Byte) zmqMaxOutgoingUris
  mNamingWaitForConnect : Int
  mNamingConnectRetries : Nat

/-- What `zmqBridgeMamaTransportImpl_start` sees of the other threads: what each read of
`mNamingConnected` gives, and whether a `publishEndpoints` thread is running at the
end. -/
structure NamingRun where
  connected : Nat → Bool
  publishing : Bool

/-! ## Sockets -/

/-- `zmqBridgeMamaTransportImpl_createSocket`. -/
def TransportImpl.createSocket (calls : LibCall → Bool) (s : SocketName) (monitor : Int) :
    CreateM := do
  Attempt.check (calls (.socket s)) .platform
  modify fun c => { c with sockets := c.sockets ++ [s] }
  -- every socket has a name
  Attempt.check (calls (.setIdentity s)) .platform
  Attempt.whenever (monitor ≠ 0) (Attempt.check (calls (.monitorSocket s)) .platform)
  Attempt.check (calls (.setLinger s)) .platform

/-- `zmqBridgeMamaTransportImpl_connectSocket`. -/
def TransportImpl.connectNewSocket (calls : LibCall → Bool) (s : SocketName) (i : Nat)
    (uri : List Byte) : CreateM := do
  Attempt.check (calls (.setHeartbeat s i)) .platform
  Attempt.check (calls (.setReconnect s i)) .platform
  Attempt.check (calls (.connect s i)) .platform
  modify fun c => { c with endpoints := c.endpoints ++ [⟨s, false, uri⟩] }

/-- `zmqBridgeMamaTransportImpl_bindSocket`; `endpointName` is whether the endpoint is
asked for. -/
def TransportImpl.bindSocket (calls : LibCall → Bool) (s : SocketName) (i : Nat)
    (uri : List Byte) (endpointName : Bool) : CreateM := do
  Attempt.check (calls (.bind s i)) .platform
  modify fun c => { c with endpoints := c.endpoints ++ [⟨s, true, uri⟩] }
  Attempt.whenever (endpointName = true) (Attempt.check (calls (.lastEndpoint s)) .platform)

/-- `zmqBridgeMamaTransportImpl_setCommonSocketOptions`: all three options are set before
the status is returned. -/
def TransportImpl.setCommonSocketOptions (calls : LibCall → Bool) (s : SocketName) : CreateM :=
  Attempt.check (calls (.setRcvHwm s) && calls (.setSndHwm s) && calls (.setBacklog s)) .platform

/-- `zmqBridgeMamaTransportImpl_subscribe`; the length of the topic is taken, so it must
not be `NULL`. -/
def TransportImpl.subscribeSocket (calls : LibCall → Bool) (s : SocketName) (topic : Bool) :
    CreateM := do
  Attempt.demand topic .badPointer
  Attempt.check (calls (.subscribe s)) .platform

/-- `zmqBridgeMamaTransportImpl_stopReconnectOnError`. -/
def TransportImpl.stopReconnectOnError (calls : LibCall → Bool) (s : SocketName) : CreateM :=
  Attempt.check (calls (.reconnectStop s)) .platform

/-- `zmqTransportType`, without `ZMQ_TPORT_TYPE_UNKNOWN`. -/
inductive ZmqTransportType where
  | tcp
  | ipc
  | pgm
  | epgm
  deriving DecidableEq, Repr

inductive ZmqTransportDirection where
  | incoming
  | outgoing
  deriving DecidableEq, Repr

/-- The transport type in front of the first colon of an address, of which only the
first 15 bytes are looked at. -/
def transportType (uri : List Byte) : Option ZmqTransportType :=
  let tportTypeStr := (uri.take 15).takeWhile (· ≠ 0x3a)
  if tportTypeStr = [0x74, 0x63, 0x70] then some .tcp
  else if tportTypeStr = [0x65, 0x70, 0x67, 0x6d] then some .epgm
  else if tportTypeStr = [0x70, 0x67, 0x6d] then some .pgm
  else if tportTypeStr = [0x69, 0x70, 0x63] then some .ipc
  else none

/-- Whether to bind rather than to connect; `0x2a` is `*`. -/
def isBinding (direction : ZmqTransportDirection) (type : ZmqTransportType)
    (uri : List Byte) : Bool :=
  match direction, type with
  | _, .tcp => uri.contains 0x2a
  | .outgoing, .ipc => true
  | _, _ => false

/-- `zmqBridgeMamaTransportImpl_bindOrConnect`. -/
def TransportImpl.bindOrConnect (calls : LibCall → Bool) (s : SocketName)
    (direction : ZmqTransportDirection) (i : Nat) (uri : List Byte) : CreateM :=
  match transportType uri with
  | none => throw .invalidArg
  | some type =>
    if isBinding direction type uri then TransportImpl.bindSocket calls s i uri false
    else TransportImpl.connectNewSocket calls s i uri

/-! ## Threads -/

/-- `ZMQ_CONTROL_ENDPOINT`, the bytes of `inproc://control`. -/
def zmqControlEndpoint : List Byte :=
  [0x69, 0x6e, 0x70, 0x72, 0x6f, 0x63, 0x3a, 0x2f, 0x2f, 0x63, 0x6f, 0x6e, 0x74, 0x72, 0x6f,
    0x6c]

/-- `ZMQ_MONITOR_ENDPOINT`, the bytes of `inproc://monitor`. -/
def zmqMonitorEndpoint : List Byte :=
  [0x69, 0x6e, 0x70, 0x72, 0x6f, 0x63, 0x3a, 0x2f, 0x2f, 0x6d, 0x6f, 0x6e, 0x69, 0x74, 0x6f,
    0x72]

/-- `wthread_create`. -/
def TransportImpl.createThread (calls : LibCall → Bool) (t : TransportThread) : CreateM := do
  Attempt.check (calls (.createThread t)) .platform
  modify fun c => { c with threads := c.threads ++ [t] }

/-- `zmqBridgeMamaTransportImpl_startMonitor`. -/
def TransportImpl.startMonitor (calls : LibCall → Bool) : CreateM := do
  TransportImpl.createSocket calls .monitorSub 0
  TransportImpl.bindSocket calls .monitorSub 0 zmqMonitorEndpoint false
  TransportImpl.createSocket calls .monitorPub 0
  TransportImpl.connectNewSocket calls .monitorPub 0 zmqMonitorEndpoint
  TransportImpl.createThread calls .monitor

/-! ## `zmqBridgeMamaTransportImpl_init` -/

/-- The sockets every transport has. -/
def TransportImpl.initCommon (calls : LibCall → Bool) (params : TransportParams)
    (inboxSubject : Bool) : CreateM := do
  TransportImpl.createSocket calls .controlSub 0
  TransportImpl.bindSocket calls .controlSub 0 zmqControlEndpoint false
  TransportImpl.createSocket calls .controlPub 0
  TransportImpl.connectNewSocket calls .controlPub 0 zmqControlEndpoint
  TransportImpl.createSocket calls .dataPub params.mSocketMonitor
  TransportImpl.createSocket calls .dataSub params.mSocketMonitor
  TransportImpl.setCommonSocketOptions calls .dataPub
  TransportImpl.setCommonSocketOptions calls .dataSub
  -- subscribe to inbox subjects
  TransportImpl.subscribeSocket calls .dataSub inboxSubject

/-- The naming sockets. -/
def TransportImpl.initNaming (calls : LibCall → Bool) (params : TransportParams) :
    CreateM := do
  TransportImpl.stopReconnectOnError calls .dataSub
  TransportImpl.createSocket calls .namingPub params.mSocketMonitor
  TransportImpl.stopReconnectOnError calls .namingPub
  TransportImpl.createSocket calls .namingSub params.mSocketMonitor
  TransportImpl.subscribeSocket calls .namingSub true

/-- `tcp://%s:*`. -/
def publishUri (address : List Byte) : List Byte :=
  [0x74, 0x63, 0x70, 0x3a, 0x2f, 0x2f] ++ address ++ [0x3a, 0x2a]

/-- Bind the data publisher and connect to the proxies. -/
def TransportImpl.connectNaming (calls : LibCall → Bool) (params : TransportParams) :
    CreateM := do
  -- sprintf into endpointAddress
  Attempt.demand ((publishUri params.mPublishAddress).length ≤ zmqMaxEndpointLength)
    .writeOutside
  TransportImpl.bindSocket calls .dataPub 0 (publishUri params.mPublishAddress) true
  Attempt.each (TransportImpl.connectNewSocket calls .namingSub) params.mNamingAddress.upToNull 0

/-- Bind or connect the data sockets. -/
def TransportImpl.connectNonNaming (calls : LibCall → Bool) (params : TransportParams) :
    CreateM := do
  Attempt.each (TransportImpl.bindOrConnect calls .dataPub .outgoing)
    params.mOutgoingAddress.upToNull 0
  Attempt.each (TransportImpl.bindOrConnect calls .dataSub .incoming)
    params.mIncomingAddress.upToNull 0

/-- The first call of `zmqBridgeMamaTransportImpl_init`. -/
def TransportImpl.createContext (calls : LibCall → Bool) : CreateM := do
  Attempt.check (calls .ctxNew) .platform
  modify fun c => { c with context := true }

/-- The rest of `zmqBridgeMamaTransportImpl_init`. -/
def TransportImpl.initSockets (calls : LibCall → Bool) (params : TransportParams)
    (inboxSubject : Bool) : CreateM := do
  TransportImpl.initCommon calls params inboxSubject
  Attempt.whenever (params.mIsNaming = 1) (TransportImpl.initNaming calls params)
  -- start the monitor thread (before any connects/binds)
  Attempt.whenever (params.mSocketMonitor ≠ 0) (TransportImpl.startMonitor calls)
  Attempt.whenever (params.mIsNaming = 1) (TransportImpl.connectNaming calls params)
  Attempt.whenever (params.mIsNaming ≠ 1) (TransportImpl.connectNonNaming calls params)

/-- `zmqBridgeMamaTransportImpl_init`; `inboxSubject` is whether `mInboxSubject` is set. -/
def TransportImpl.init (calls : LibCall → Bool) (params : TransportParams)
    (inboxSubject : Bool) : CreateM := do
  TransportImpl.createContext calls
  TransportImpl.initSockets calls params inboxSubject

/-! ## `zmqBridgeMamaTransport_create` -/

/-- `while ((--retries > 0) && (mNamingConnected != 1))`: the number of reads. -/
def waitForConnect (connected : Nat → Bool) : (retries : Nat) → (reads : Nat) → Nat
  | 0, reads => reads
  | 1, reads => reads
  | retries + 2, reads =>
    if connected reads then reads + 1 else waitForConnect connected (retries + 1) (reads + 1)

/-- The read of `mNamingConnected` after the loop. -/
def NamingRun.connects (naming : NamingRun) (retries : Nat) : Bool :=
  naming.connected (waitForConnect naming.connected retries 0)

/-- `zmqBridgeMamaTransportImpl_start`. -/
def TransportImpl.start (calls : LibCall → Bool) (params : TransportParams)
    (naming : NamingRun) : CreateM := do
  TransportImpl.createThread calls .dispatch
  -- the dispatch thread may have started a thread of its own by now
  Attempt.whenever (params.mIsNaming = 1 ∧ naming.publishing = true)
    (modify fun c => { c with threads := c.threads ++ [.publishEndpoints] })
  Attempt.whenever (params.mIsNaming = 1 ∧ params.mNamingWaitForConnect = 1)
    (Attempt.check (naming.connects params.mNamingConnectRetries) .timeout)

/-- The allocations of `zmqBridgeMamaTransport_create`. -/
def Transport.allocate (calls : LibCall → Bool) : CreateM := do
  Attempt.check (calls .calloc) .nomem
  Attempt.check (calls .listCreate) .nomem
  Attempt.check (calls .createPeers) .nomem
  Attempt.check (calls .createInboxes) .nomem
  Attempt.check (calls .endpointPoolCreate) .nomem
  Attempt.check (calls .generateUuid) .systemError

/-- `zmqBridgeMamaTransport_create`. -/
def Transport.create (calls : LibCall → Bool) (params : TransportParams) (naming : NamingRun) :
    CreateM := do
  Transport.allocate calls
  TransportImpl.init calls params (calls .strdupInboxSubject)
  TransportImpl.start calls params naming

end ZmqBridge
