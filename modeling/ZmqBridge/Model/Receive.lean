import ZmqBridge.Model.Naming
import ZmqBridge.Model.Transport

/-!
# ZmqBridge — what the dispatch thread does with received bytes

`zmqBridgeMamaTransportImpl_dispatchThread` hands every message it receives to
a handler, unless it is empty. The handler of data messages is in
`Model.Transport` and works on bytes already. Here is the handler of naming
messages once more, on bytes: it overlays `zmqNamingMsg` on whatever was
received, and every field it uses is read from there.

A log statement is a call whose arguments are evaluated at every level; whether
`mama_log` then prints, and follows the pointers it was given, is left open.
Statements that print what is read anyway are left out.
-/

namespace ZmqBridge

open Lib

/-! ## The layout of `zmqNamingMsg` -/

/-- What the platform and the configuration of the process decide: two sizes in the
packed struct, the log levels of `params.c`, and the levels `mama_log` prints at. -/
structure Platform where
  maxHostNameLen : Nat
  sizeofLong : Nat
  logLevelBeacon : Int
  logLevelNaming : Int
  prints : Int → Bool

/-- `mType`, after `mTopic`. -/
def namingTypeOffset : Nat := maxSubjectLength + 1

/-- `mProgName`, after `mType`. -/
def progNameOffset : Nat := namingTypeOffset + 1

/-- `mHost`, after `mProgName`. -/
def hostOffset : Nat := progNameOffset + (256 + 1)

/-- `mPid`, after `mHost`. -/
def Platform.pidOffset (p : Platform) : Nat := hostOffset + (p.maxHostNameLen + 1)

/-- `mUuid`, after `mPid`. -/
def Platform.uuidOffset (p : Platform) : Nat := p.pidOffset + p.sizeofLong

/-- `mEndPointAddr`, after `mUuid`. -/
def Platform.endPointAddrOffset (p : Platform) : Nat := p.uuidOffset + (uuidStringSize + 1)

/-- `sizeof(zmqNamingMsg)`. -/
def Platform.sizeofNamingMsg (p : Platform) : Nat :=
  p.endPointAddrOffset + (zmqMaxEndpointLength + 1)

/-! ## The handlers -/

/-- `getNamingLogLevel`. -/
def Platform.getNamingLogLevel (p : Platform) (mType : Byte) : Int :=
  if mType = typeBeacon then p.logLevelBeacon else p.logLevelNaming

/-- `MAMA_LOG` of a whole naming message: `mPid` is passed by value, the strings as
pointers. -/
def Platform.logNamingMsg (p : Platform) (level : Int) (zmsg : List Byte) :
    Except Fault Unit := do
  let _ ← readBytes zmsg p.pidOffset p.sizeofLong
  if p.prints level then
    let _ ← readCstr zmsg progNameOffset
    let _ ← readCstr zmsg hostOffset
    let _ ← readCstr zmsg p.uuidOffset
    let _ ← readCstr zmsg 0
    let _ ← readCstr zmsg p.endPointAddrOffset
    pure ()

/-- A peer found through a beacon is logged again. -/
def Platform.logNewPeer (p : Platform) (mType : Byte) (zmsg : List Byte) : Except Fault Unit :=
  if mType = typeBeacon then p.logNamingMsg p.logLevelBeacon zmsg else pure ()

/-- `zmqBridgeMamaTransportImpl_dispatchNamingMsg` on the bytes of a message. -/
def TransportImpl.dispatchNamingZmsg (p : Platform) (calls : NamingCalls)
    (impl : NamingTransport) (zmsg : List Byte) : Except Fault NamingOutcome := do
  let mType ← readByte zmsg namingTypeOffset
  p.logNamingMsg (p.getNamingLogLevel mType) zmsg
  if mType = typeConnect || mType = typeBeacon then
    -- wtable_lookup hashes the whole string
    let mUuid ← readCstr zmsg p.uuidOffset
    match impl.mPeers.lookup mUuid with
    | some _ => pure ⟨impl.noteOwnMsg mUuid, [], none, .ok⟩
    | none => do
      p.logNewPeer mType zmsg
      let mEndPointAddr ← readCstr zmsg p.endPointAddrOffset
      let connected :=
        TransportImpl.connectSocket impl.mZmqDataSub mEndPointAddr calls.connect
      let impl := { impl with mZmqDataSub := connected.1 }
      if connected.2 ≠ .ok then pure ⟨impl, [], none, connected.2⟩
      else
        let sent := TransportImpl.sendEndpointsMsg impl typeConnect calls.send
        if sent.2 ≠ .ok then pure ⟨impl, sent.1, none, sent.2⟩
        else if !calls.malloc then pure ⟨impl, sent.1, none, .nomem⟩
        else
          -- the table takes its key from the copy
          let pOrigMsg ← memcpyFrom zmsg p.sizeofNamingMsg
          let key ← readCstr pOrigMsg p.uuidOffset
          let impl := { impl with
            mPeers := impl.mPeers.insert key ⟨mType, mUuid, mEndPointAddr⟩ }
          pure ⟨impl.noteOwnMsg mUuid, sent.1, none, .ok⟩
  else if mType = typeDisconnect then
    let mUuid ← readCstr zmsg p.uuidOffset
    let impl := { impl with mPeers := impl.mPeers.erase mUuid }
    let mEndPointAddr ← readCstr zmsg p.endPointAddrOffset
    let disconnected :=
      TransportImpl.disconnectSocket impl.mZmqDataSub mEndPointAddr calls.disconnect
    pure ⟨{ impl with mZmqDataSub := disconnected.1 }, [], none, .ok⟩
  else if mType = typeWelcome then
    let mEndPointAddr ← readCstr zmsg p.endPointAddrOffset
    let connected :=
      TransportImpl.connectSocket impl.mZmqNamingPub mEndPointAddr calls.connect
    let impl := { impl with mZmqNamingPub := connected.1 }
    if connected.2 ≠ .ok then pure ⟨impl, [], none, .platform⟩
    else if !calls.createThread then pure ⟨impl, [], some false, .platform⟩
    else pure ⟨impl, [], some true, .ok⟩
  else pure ⟨impl, [], none, .platform⟩

/-- The dispatch thread drops an empty message on the naming socket. -/
def TransportImpl.receiveNaming (p : Platform) (calls : NamingCalls) (impl : NamingTransport)
    (zmsg : List Byte) : Except Fault NamingTransport :=
  if zmsg.length ≤ 0 then pure impl
  else (TransportImpl.dispatchNamingZmsg p calls impl zmsg).map NamingOutcome.impl

/-- The dispatch thread drops an empty message on the data socket. -/
def TransportImpl.receiveData {κ ρ : Type} (reads : MemcmpReads)
    (regexec : ρ → List Byte → Bool) (order : List Nat → List Nat) (impl : DataTransport κ ρ)
    (zmsg : List Byte) : Except Fault (List (Enqueue κ)) :=
  if zmsg.length ≤ 0 then pure []
  else (TransportImpl.dispatchNormalMsg reads regexec order impl zmsg).map Prod.fst

/-- 64-bit Linux, with the log levels that `params.c` sets by default; `mama_log` prints
warnings and worse. -/
def platform64 : Platform where
  maxHostNameLen := 64
  sizeofLong := 8
  logLevelBeacon := 6
  logLevelNaming := 4
  prints level := level ≤ 3

end ZmqBridge
