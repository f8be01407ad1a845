import ZmqBridge.Model.Defs

/-!
# ZmqBridge — the naming protocol of one transport (`transport.c`)

`zmqBridgeMamaTransportImpl_dispatchNamingMsg`, the sends it makes and the
`publishEndpoints` thread it starts. A naming message is reduced to the three
fields the handler acts on; program name, host, pid and topic are only logged.

The outcome of every call that can fail is an argument (`NamingCalls`), and the
handler returns with the new transport also what it sent on `namingPub` and
whether it tried to start a thread, so that a system of transports can be put
together from it. The set of endpoints a socket is connected to follows ZeroMQ:
connecting twice is connecting once.
-/

namespace ZmqBridge

open Lib

/-! ## Messages and state -/

/-- The letters of `zmqNamingMsg.mType`. -/
def typeConnect : Byte := 0x43

def typeBeacon : Byte := 0x63

def typeDisconnect : Byte := 0x44

def typeWelcome : Byte := 0x57

/-- `zmqNamingMsg`, as far as the handler acts on it. -/
structure NamingMsg where
  mType : Byte
  mUuid : List Byte
  mEndPointAddr : List Byte
  deriving DecidableEq, Repr

/-- A 'C' or a 'c' message: both announce an endpoint. -/
def NamingMsg.announces (m : NamingMsg) : Bool :=
  m.mType = typeConnect || m.mType = typeBeacon

/-- The part of `zmqTransportBridge` that naming works on. -/
structure NamingTransport where
  mUuid : List Byte
  mPubEndpoint : List Byte
  mNamingConnectRetries : Int
  mPeers : AList fun _ : List Byte => NamingMsg
  mNamingConnected : Bool
  mIsDispatching : Bool
  mZmqDataSub : Finset (List Byte)
  mZmqNamingPub : Finset (List Byte)
  deriving DecidableEq

/-- Which of the calls the handler may make succeed. -/
structure NamingCalls where
  connect : Bool
  disconnect : Bool
  send : Bool
  malloc : Bool
  createThread : Bool
  deriving DecidableEq, Repr

def NamingCalls.allOk : NamingCalls := ⟨true, true, true, true, true⟩

/-- What handling a message leaves behind: `sent` went out on `namingPub`,
`thread` is the result of `wthread_create` if it was called. -/
structure NamingOutcome where
  impl : NamingTransport
  sent : List NamingMsg
  thread : Option Bool
  status : MamaStatus

/-! ## Sockets and sends -/

/-- `zmqBridgeMamaTransportImpl_connectSocket`. -/
def TransportImpl.connectSocket (socket : Finset (List Byte)) (uri : List Byte) (ok : Bool) :
    Finset (List Byte) × MamaStatus :=
  if ok then (insert uri socket, .ok) else (socket, .platform)

/-- `zmqBridgeMamaTransportImpl_disconnectSocket`. -/
def TransportImpl.disconnectSocket (socket : Finset (List Byte)) (uri : List Byte)
    (ok : Bool) : Finset (List Byte) × MamaStatus :=
  if ok then (socket.erase uri, .ok) else (socket, .platform)

/-- The message a transport publishes about itself. -/
def NamingTransport.endpointsMsg (impl : NamingTransport) (command : Byte) : NamingMsg :=
  ⟨command, impl.mUuid, impl.mPubEndpoint⟩

/-- `zmqBridgeMamaTransportImpl_sendEndpointsMsg`. -/
def TransportImpl.sendEndpointsMsg (impl : NamingTransport) (command : Byte) (ok : Bool) :
    List NamingMsg × MamaStatus :=
  if ok then ([impl.endpointsMsg command], .ok) else ([], .platform)

/-! ## The handler -/

/-- The end of the connect branch: a transport that sees its own message knows
that it is connected to the proxy. -/
def NamingTransport.noteOwnMsg (impl : NamingTransport) (uuid : List Byte) :
    NamingTransport :=
  if impl.mNamingConnected ≠ true ∧ uuid = impl.mUuid then
    { impl with mNamingConnected := true }
  else impl

/-- `zmqBridgeMamaTransportImpl_dispatchNamingMsg`. -/
def TransportImpl.dispatchNamingMsg (calls : NamingCalls) (impl : NamingTransport)
    (pMsg : NamingMsg) : NamingOutcome :=
  if pMsg.announces then
    match impl.mPeers.lookup pMsg.mUuid with
    | some _ => ⟨impl.noteOwnMsg pMsg.mUuid, [], none, .ok⟩
    | none =>
      -- never seen this peer before, so connect (sub => pub)
      let (dataSub, status) :=
        TransportImpl.connectSocket impl.mZmqDataSub pMsg.mEndPointAddr calls.connect
      let impl := { impl with mZmqDataSub := dataSub }
      if status ≠ .ok then ⟨impl, [], none, status⟩
      else
        let (sent, status) := TransportImpl.sendEndpointsMsg impl typeConnect calls.send
        if status ≠ .ok then ⟨impl, sent, none, status⟩
        else if !calls.malloc then ⟨impl, sent, none, .nomem⟩
        else
          let impl := { impl with mPeers := impl.mPeers.insert pMsg.mUuid pMsg }
          ⟨impl.noteOwnMsg pMsg.mUuid, sent, none, .ok⟩
  else if pMsg.mType = typeDisconnect then
    let impl := { impl with mPeers := impl.mPeers.erase pMsg.mUuid }
    -- the result is ignored, and the table has no say in this
    let (dataSub, _) :=
      TransportImpl.disconnectSocket impl.mZmqDataSub pMsg.mEndPointAddr calls.disconnect
    ⟨{ impl with mZmqDataSub := dataSub }, [], none, .ok⟩
  else if pMsg.mType = typeWelcome then
    let (namingPub, status) :=
      TransportImpl.connectSocket impl.mZmqNamingPub pMsg.mEndPointAddr calls.connect
    let impl := { impl with mZmqNamingPub := namingPub }
    if status ≠ .ok then ⟨impl, [], none, .platform⟩
    else if !calls.createThread then ⟨impl, [], some false, .platform⟩
    else ⟨impl, [], some true, .ok⟩
  else ⟨impl, [], none, .platform⟩

/-! ## The `publishEndpoints` thread -/

/-- Where a `zmqBridgeMamaTransportImpl_publishEndpoints` thread is, with the
value of its `retries`. -/
inductive PublishPc where
  | reset
  | loop (retries : Int)
  | send (retries : Int)
  | check (retries : Int)
  | done
  deriving DecidableEq, Repr

/-- A step of the thread: the new transport, the command it sends if it sends
one, and the next place. -/
structure PublishOutcome where
  impl : NamingTransport
  command : Option Byte
  pc : PublishPc

/-- One step of `zmqBridgeMamaTransportImpl_publishEndpoints`. The `usleep`
between two rounds is the edge from `check` back to `loop`; the status of the
send is ignored. -/
def TransportImpl.publishEndpoints (impl : NamingTransport) : PublishPc → PublishOutcome
  | .reset => ⟨{ impl with mNamingConnected := false }, none, .loop impl.mNamingConnectRetries⟩
  | .loop retries =>
    if retries - 1 > 0 ∧ impl.mIsDispatching = true then ⟨impl, none, .send (retries - 1)⟩
    else ⟨impl, none, .done⟩
  | .send retries => ⟨impl, some typeConnect, .check retries⟩
  | .check retries => ⟨impl, none, if impl.mNamingConnected then .done else .loop retries⟩
  | .done => ⟨impl, none, .done⟩

/-! ## What handling a message does -/

section Outcome

variable {calls : NamingCalls} {impl : NamingTransport} {pMsg : NamingMsg}
  {uuid : List Byte}

@[simp] theorem noteOwnMsg_mUuid : (impl.noteOwnMsg uuid).mUuid = impl.mUuid := by
  unfold NamingTransport.noteOwnMsg
  split <;> rfl

@[simp] theorem noteOwnMsg_mPubEndpoint :
    (impl.noteOwnMsg uuid).mPubEndpoint = impl.mPubEndpoint := by
  unfold NamingTransport.noteOwnMsg
  split <;> rfl

@[simp] theorem noteOwnMsg_mPeers : (impl.noteOwnMsg uuid).mPeers = impl.mPeers := by
  unfold NamingTransport.noteOwnMsg
  split <;> rfl

@[simp] theorem noteOwnMsg_mZmqDataSub :
    (impl.noteOwnMsg uuid).mZmqDataSub = impl.mZmqDataSub := by
  unfold NamingTransport.noteOwnMsg
  split <;> rfl

@[simp] theorem noteOwnMsg_mZmqNamingPub :
    (impl.noteOwnMsg uuid).mZmqNamingPub = impl.mZmqNamingPub := by
  unfold NamingTransport.noteOwnMsg
  split <;> rfl

@[simp] theorem noteOwnMsg_mIsDispatching :
    (impl.noteOwnMsg uuid).mIsDispatching = impl.mIsDispatching := by
  unfold NamingTransport.noteOwnMsg
  split <;> rfl

/-- An announcement of a recorded peer changes no table and no socket. -/
theorem dispatchNamingMsg_known (hA : pMsg.announces = true) {m : NamingMsg}
    (hKnown : impl.mPeers.lookup pMsg.mUuid = some m) :
    TransportImpl.dispatchNamingMsg calls impl pMsg =
      ⟨impl.noteOwnMsg pMsg.mUuid, [], none, .ok⟩ := by
  rw [TransportImpl.dispatchNamingMsg, if_pos hA, hKnown]

/-- An announcement of a new peer, once the socket is connected: the reply goes
out before the peer is recorded, and a failure of either ends the handling. -/
theorem dispatchNamingMsg_new (hA : pMsg.announces = true)
    (hNew : impl.mPeers.lookup pMsg.mUuid = none) (hConnect : calls.connect = true) :
    TransportImpl.dispatchNamingMsg calls impl pMsg =
      (let impl' := { impl with mZmqDataSub := insert pMsg.mEndPointAddr impl.mZmqDataSub }
       if calls.send then
         if calls.malloc then
           ⟨NamingTransport.noteOwnMsg
             { impl' with mPeers := impl.mPeers.insert pMsg.mUuid pMsg } pMsg.mUuid,
             [impl.endpointsMsg typeConnect], none, .ok⟩
         else ⟨impl', [impl.endpointsMsg typeConnect], none, .nomem⟩
       else ⟨impl', [], none, .platform⟩) := by
  rw [TransportImpl.dispatchNamingMsg, if_pos hA, hNew]
  simp only [TransportImpl.connectSocket, hConnect, if_true]
  cases hSend : calls.send <;> cases hMalloc : calls.malloc <;>
    simp [TransportImpl.sendEndpointsMsg, NamingTransport.endpointsMsg]

/-- The table after an announcement: the peer is recorded unless it was already
there or the handling ended early. -/
theorem dispatchNamingMsg_mPeers (hA : pMsg.announces = true)
    (hConnect : calls.connect = true) :
    (TransportImpl.dispatchNamingMsg calls impl pMsg).impl.mPeers =
      if impl.mPeers.lookup pMsg.mUuid = none ∧ calls.send = true ∧ calls.malloc = true
      then impl.mPeers.insert pMsg.mUuid pMsg else impl.mPeers := by
  cases hL : impl.mPeers.lookup pMsg.mUuid with
  | some m => simp [dispatchNamingMsg_known hA hL]
  | none =>
    rw [dispatchNamingMsg_new hA hL hConnect]
    cases calls.send <;> cases calls.malloc <;> simp

/-- The data socket after an announcement. -/
theorem dispatchNamingMsg_mZmqDataSub (hA : pMsg.announces = true)
    (hConnect : calls.connect = true) :
    (TransportImpl.dispatchNamingMsg calls impl pMsg).impl.mZmqDataSub =
      if impl.mPeers.lookup pMsg.mUuid = none
      then insert pMsg.mEndPointAddr impl.mZmqDataSub else impl.mZmqDataSub := by
  cases hL : impl.mPeers.lookup pMsg.mUuid with
  | some m => simp [dispatchNamingMsg_known hA hL]
  | none =>
    rw [dispatchNamingMsg_new hA hL hConnect]
    cases calls.send <;> cases calls.malloc <;> simp

/-- Recording a peer that is not recorded yet. -/
def NamingTransport.record (impl : NamingTransport) (pMsg : NamingMsg) : NamingTransport :=
  if impl.mPeers.lookup pMsg.mUuid = none then
    { impl with
      mPeers := impl.mPeers.insert pMsg.mUuid pMsg
      mZmqDataSub := insert pMsg.mEndPointAddr impl.mZmqDataSub }
  else impl

/-- Handling an announcement that, if it is of a new peer, is answered and recorded. -/
theorem dispatchNamingMsg_announce (hA : pMsg.announces = true)
    (hConnect : calls.connect = true)
    (hNew : impl.mPeers.lookup pMsg.mUuid = none → calls.send = true ∧ calls.malloc = true) :
    TransportImpl.dispatchNamingMsg calls impl pMsg =
      ⟨(impl.record pMsg).noteOwnMsg pMsg.mUuid,
        if impl.mPeers.lookup pMsg.mUuid = none then [impl.endpointsMsg typeConnect] else [],
        none, .ok⟩ := by
  unfold NamingTransport.record
  cases hL : impl.mPeers.lookup pMsg.mUuid with
  | some m =>
    rw [dispatchNamingMsg_known hA hL]
    simp
  | none =>
    obtain ⟨hSend, hMalloc⟩ := hNew hL
    rw [dispatchNamingMsg_new hA hL hConnect]
    simp [hSend, hMalloc]

@[simp] theorem record_mUuid : (impl.record pMsg).mUuid = impl.mUuid := by
  unfold NamingTransport.record
  split <;> rfl

@[simp] theorem record_mPubEndpoint : (impl.record pMsg).mPubEndpoint = impl.mPubEndpoint := by
  unfold NamingTransport.record
  split <;> rfl

@[simp] theorem record_mZmqNamingPub :
    (impl.record pMsg).mZmqNamingPub = impl.mZmqNamingPub := by
  unfold NamingTransport.record
  split <;> rfl

@[simp] theorem record_mNamingConnected :
    (impl.record pMsg).mNamingConnected = impl.mNamingConnected := by
  unfold NamingTransport.record
  split <;> rfl

/-- After recording, exactly one more uuid is in the table. -/
theorem record_lookup_ne_none :
    (impl.record pMsg).mPeers.lookup uuid ≠ none ↔
      impl.mPeers.lookup uuid ≠ none ∨ uuid = pMsg.mUuid := by
  unfold NamingTransport.record
  split
  · rename_i hNew
    by_cases hu : uuid = pMsg.mUuid
    · simp [hu]
    · simp [AList.lookup_insert_ne hu, hu]
  · rename_i hOld
    constructor
    · exact Or.inl
    · rintro (h | rfl)
      · exact h
      · exact hOld

theorem mem_record_mZmqDataSub {endpoint : List Byte} (h : endpoint ∈ impl.mZmqDataSub) :
    endpoint ∈ (impl.record pMsg).mZmqDataSub := by
  unfold NamingTransport.record
  split
  · exact Finset.mem_insert_of_mem h
  · exact h

theorem announces_of_disconnect (hType : pMsg.mType = typeDisconnect) :
    pMsg.announces = false := by
  rw [NamingMsg.announces, hType]
  decide

/-- The own-message check sets `mNamingConnected` only on an own message. -/
theorem noteOwnMsg_connected (h : (impl.noteOwnMsg uuid).mNamingConnected = true) :
    impl.mNamingConnected = true ∨ uuid = impl.mUuid := by
  unfold NamingTransport.noteOwnMsg at h
  split at h
  · rename_i hOwn
    exact Or.inr hOwn.2
  · exact Or.inl h

/-- A disconnect forgets the uuid and drops the endpoint, whoever else is
recorded for it. -/
theorem dispatchNamingMsg_disconnect (hType : pMsg.mType = typeDisconnect)
    (hDisconnect : calls.disconnect = true) :
    TransportImpl.dispatchNamingMsg calls impl pMsg =
      ⟨{ impl with mPeers := impl.mPeers.erase pMsg.mUuid
                   mZmqDataSub := impl.mZmqDataSub.erase pMsg.mEndPointAddr },
        [], none, .ok⟩ := by
  rw [TransportImpl.dispatchNamingMsg, announces_of_disconnect hType,
    if_neg Bool.false_ne_true, if_pos hType]
  simp only [TransportImpl.disconnectSocket, hDisconnect, if_true]

/-- A welcome connects `namingPub` and tries to start a thread. -/
theorem dispatchNamingMsg_welcome (hType : pMsg.mType = typeWelcome)
    (hConnect : calls.connect = true) :
    TransportImpl.dispatchNamingMsg calls impl pMsg =
      ⟨{ impl with mZmqNamingPub := insert pMsg.mEndPointAddr impl.mZmqNamingPub },
        [], some calls.createThread, if calls.createThread then .ok else .platform⟩ := by
  have hA : pMsg.announces = false := by
    rw [NamingMsg.announces, hType]
    decide
  have hD : pMsg.mType ≠ typeDisconnect := by
    rw [hType]
    decide
  rw [TransportImpl.dispatchNamingMsg, hA, if_neg Bool.false_ne_true, if_neg hD, if_pos hType]
  simp only [TransportImpl.connectSocket, hConnect, if_true]
  cases calls.createThread <;> rfl

/-- What handling a message never changes. -/
theorem dispatchNamingMsg_frame (calls : NamingCalls) (impl : NamingTransport)
    (pMsg : NamingMsg) :
    (TransportImpl.dispatchNamingMsg calls impl pMsg).impl.mUuid = impl.mUuid ∧
      (TransportImpl.dispatchNamingMsg calls impl pMsg).impl.mPubEndpoint =
        impl.mPubEndpoint ∧
      (TransportImpl.dispatchNamingMsg calls impl pMsg).impl.mIsDispatching =
        impl.mIsDispatching := by
  unfold TransportImpl.dispatchNamingMsg
  split
  · split
    · exact ⟨noteOwnMsg_mUuid, noteOwnMsg_mPubEndpoint, noteOwnMsg_mIsDispatching⟩
    · dsimp only
      split
      · exact ⟨rfl, rfl, rfl⟩
      · split
        · exact ⟨rfl, rfl, rfl⟩
        · split
          · exact ⟨rfl, rfl, rfl⟩
          · exact ⟨noteOwnMsg_mUuid, noteOwnMsg_mPubEndpoint, noteOwnMsg_mIsDispatching⟩
  · split
    · exact ⟨rfl, rfl, rfl⟩
    · split
      · dsimp only
        split
        · exact ⟨rfl, rfl, rfl⟩
        · split <;> exact ⟨rfl, rfl, rfl⟩
      · exact ⟨rfl, rfl, rfl⟩

/-- A reply is sent to a peer that was not in the table. -/
theorem dispatchNamingMsg_sent (calls : NamingCalls) (impl : NamingTransport)
    (pMsg : NamingMsg) :
    (TransportImpl.dispatchNamingMsg calls impl pMsg).sent =
      if pMsg.announces = true ∧ impl.mPeers.lookup pMsg.mUuid = none ∧ calls.connect = true ∧
        calls.send = true then [impl.endpointsMsg typeConnect] else [] := by
  by_cases hA : pMsg.announces = true
  · cases hL : impl.mPeers.lookup pMsg.mUuid with
    | some m =>
      rw [dispatchNamingMsg_known hA hL, if_neg fun h => Option.some_ne_none _ h.2.1]
    | none =>
      cases hConnect : calls.connect with
      | true =>
        rw [dispatchNamingMsg_new hA hL hConnect]
        cases hSend : calls.send <;> cases calls.malloc <;> simp [hA]
      | false =>
        rw [TransportImpl.dispatchNamingMsg, if_pos hA, hL, if_neg (by simp)]
        simp [TransportImpl.connectSocket, hConnect]
  · rw [if_neg fun h => hA h.1, TransportImpl.dispatchNamingMsg, if_neg hA]
    split
    · rfl
    · split
      · dsimp only
        split
        · rfl
        · split <;> rfl
      · rfl

/-- A thread is created for a welcome message only. -/
theorem dispatchNamingMsg_thread {calls : NamingCalls} {impl : NamingTransport}
    {pMsg : NamingMsg} {b : Bool}
    (h : (TransportImpl.dispatchNamingMsg calls impl pMsg).thread = some b) :
    pMsg.mType = typeWelcome ∧ calls.connect = true ∧ calls.createThread = b := by
  unfold TransportImpl.dispatchNamingMsg at h
  split at h
  · split at h
    · cases h
    · dsimp only at h
      split at h
      · cases h
      · split at h
        · cases h
        · split at h <;> cases h
  · split at h
    · cases h
    · split at h
      · rename_i hType
        dsimp only at h
        split at h
        · cases h
        · rename_i hConnect
          have hOk : calls.connect = true := by
            by_contra hNot
            simp [TransportImpl.connectSocket, hNot] at hConnect
          split at h
          · rename_i hCreate
            cases h
            exact ⟨hType, hOk, by simpa using hCreate⟩
          · rename_i hCreate
            cases h
            exact ⟨hType, hOk, by simpa using hCreate⟩
      · cases h

end Outcome

end ZmqBridge
