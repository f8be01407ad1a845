import ZmqBridge.Lib.Numeral
import ZmqBridge.Model.Create

/-!
# ZmqBridge — the parameters of a transport (`params.c`)

Parameters are properties of MAMA, looked up by a name that is put together in a
buffer of `PARAM_NAME_MAX_LENGTH` bytes: a name that is longer is cut off. Integer
parameters are read with `atoi`, whose result is undefined for a number that is no
`int`; `getInt` is `none` then. The addresses of a transport without naming are
read into its two arrays until one is not set.

Of `parseCommonParams` and `parseNamingParams` only the integer parameters are
modelled, as a table, without the log levels. Logging is left out.
-/

namespace ZmqBridge

open Lib

/-- The properties of MAMA; `properties_Get` is `NULL` for one that is not set. -/
abbrev Properties := List Byte → Option (List Byte)

/-! ## Names -/

/-- `PARAM_NAME_MAX_LENGTH`. -/
def paramNameMaxLength : Nat := 1024

/-- What `vsnprintf` leaves in `paramName`. -/
def paramName (text : List Byte) : List Byte := text.take (paramNameMaxLength - 1)

/-- `TPORT_PARAM_PREFIX`, the bytes of `mama.zmq.transport`. -/
def tportParamStart : List Byte :=
  [0x6d, 0x61, 0x6d, 0x61, 0x2e, 0x7a, 0x6d, 0x71, 0x2e, 0x74, 0x72, 0x61, 0x6e, 0x73, 0x70,
    0x6f, 0x72, 0x74]

/-- `"%s.%s.%s"`. -/
def tportParam (name property : List Byte) : List Byte :=
  tportParamStart ++ [0x2e] ++ name ++ [0x2e] ++ property

/-- `"%s.%s.%s_%d"`. -/
def tportParamIndexed (name property : List Byte) (i : Nat) : List Byte :=
  tportParam name property ++ [0x5f] ++ numeral 10 i

/-- `zmqBridgeMamaTransportImpl_getParameter`, for the text that the format makes. -/
def TransportImpl.getParameter (properties : Properties) (defaultVal : Option (List Byte))
    (text : List Byte) : Option (List Byte) :=
  (properties (paramName text)).or defaultVal

/-! ## Integers -/

/-- What `getInt` does to a number that is too small: a positive one is raised to the
least value, a negative one to zero. -/
def raiseToMin (minValue temp : Int) : Int :=
  let temp := if minValue ≥ 0 ∧ temp < 0 then 0 else temp
  if temp > 0 ∧ temp < minValue then minValue else temp

/-- `getInt`. -/
def getInt (properties : Properties) (name property : List Byte)
    (defaultValue minValue : Int) : Option Int := do
  let result ← TransportImpl.getParameter properties (some (printInt defaultValue))
    (tportParam name property)
  let temp ← atoi result
  pure (raiseToMin minValue temp)

/-- An integer parameter: its property, its default and its least value. -/
structure IntParam where
  property : List Byte
  defaultValue : Int
  minValue : Int
  deriving DecidableEq, Repr

/-- `ZMQ_RECONNECT_STOP_CONN_REFUSED`. -/
def zmqReconnectStopConnRefused : Int := 1

/-- `reconnect_stop`. -/
def reconnectStop : IntParam :=
  ⟨[0x72, 0x65, 0x63, 0x6f, 0x6e, 0x6e, 0x65, 0x63, 0x74, 0x5f, 0x73, 0x74, 0x6f, 0x70],
    zmqReconnectStopConnRefused, 0⟩

/-- The integers of `zmqBridgeMamaTransportImpl_parseCommonParams`: `socket_monitor`,
`is_naming`, `disable_refresh` and `reconnect_stop`. -/
def commonIntParams : List IntParam :=
  [⟨[0x73, 0x6f, 0x63, 0x6b, 0x65, 0x74, 0x5f, 0x6d, 0x6f, 0x6e, 0x69, 0x74, 0x6f, 0x72], 1, 0⟩,
   ⟨[0x69, 0x73, 0x5f, 0x6e, 0x61, 0x6d, 0x69, 0x6e, 0x67], 1, 0⟩,
   ⟨[0x64, 0x69, 0x73, 0x61, 0x62, 0x6c, 0x65, 0x5f, 0x72, 0x65, 0x66, 0x72, 0x65, 0x73, 0x68],
     1, 0⟩,
   reconnectStop]

/-- `naming.subscribe_port`. -/
def namingSubscribePort : List Byte :=
  [0x6e, 0x61, 0x6d, 0x69, 0x6e, 0x67, 0x2e, 0x73, 0x75, 0x62, 0x73, 0x63, 0x72, 0x69, 0x62,
    0x65, 0x5f, 0x70, 0x6f, 0x72, 0x74]

/-- The integers of `zmqBridgeMamaTransportImpl_parseNamingParams`:
`naming.wait_for_connect`, `naming.connect_retries` and the ports, of which only the
one with index 0 has a default. -/
def namingIntParams : List IntParam :=
  [⟨[0x6e, 0x61, 0x6d, 0x69, 0x6e, 0x67, 0x2e, 0x77, 0x61, 0x69, 0x74, 0x5f, 0x66, 0x6f, 0x72,
      0x5f, 0x63, 0x6f, 0x6e, 0x6e, 0x65, 0x63, 0x74], 1, 0⟩,
   ⟨[0x6e, 0x61, 0x6d, 0x69, 0x6e, 0x67, 0x2e, 0x63, 0x6f, 0x6e, 0x6e, 0x65, 0x63, 0x74, 0x5f,
      0x72, 0x65, 0x74, 0x72, 0x69, 0x65, 0x73], 100, 10⟩,
   ⟨namingSubscribePort, 0, 0⟩,
   ⟨namingSubscribePort ++ [0x5f, 0x30], 5756, 0⟩,
   ⟨namingSubscribePort ++ [0x5f, 0x31], 0, 0⟩,
   ⟨namingSubscribePort ++ [0x5f, 0x32], 0, 0⟩]

/-! ## Addresses -/

/-- `TPORT_PARAM_INCOMING_URL`, the bytes of `incoming_url`. -/
def tportParamIncomingUrl : List Byte :=
  [0x69, 0x6e, 0x63, 0x6f, 0x6d, 0x69, 0x6e, 0x67, 0x5f, 0x75, 0x72, 0x6c]

/-- `TPORT_PARAM_OUTGOING_URL`, the bytes of `outgoing_url`. -/
def tportParamOutgoingUrl : List Byte :=
  [0x6f, 0x75, 0x74, 0x67, 0x6f, 0x69, 0x6e, 0x67, 0x5f, 0x75, 0x72, 0x6c]

/-- `tcp://*:555` and `tcp://127.0.0.1:555`, without the last digit. -/
def anyHostUrl : List Byte :=
  [0x74, 0x63, 0x70, 0x3a, 0x2f, 0x2f, 0x2a, 0x3a, 0x35, 0x35, 0x35]

def localHostUrl : List Byte :=
  [0x74, 0x63, 0x70, 0x3a, 0x2f, 0x2f, 0x31, 0x32, 0x37, 0x2e, 0x30, 0x2e, 0x30, 0x2e, 0x31,
    0x3a, 0x35, 0x35, 0x35]

/-- `DEFAULT_PUB_INCOMING_URL` or `DEFAULT_SUB_INCOMING_URL`: a transport of the name `pub`
has defaults of its own. -/
def defaultIncomingUrl (name : List Byte) : List Byte :=
  localHostUrl ++ [if name = [0x70, 0x75, 0x62] then 0x37 else 0x36]

/-- `DEFAULT_PUB_OUTGOING_URL` or `DEFAULT_SUB_OUTGOING_URL`. -/
def defaultOutgoingUrl (name : List Byte) : List Byte :=
  anyHostUrl ++ [if name = [0x70, 0x75, 0x62] then 0x36 else 0x37]

/-- The loop over `_0`, `_1` etc. A write outside the array ends it, so it has at most
as many rounds as the array has entries, and one more. -/
def TransportImpl.scanUrls {n : Nat} (getUri : Nat → Option (List Byte)) :
    (rounds : Nat) → (uriIndex : Nat) → PtrArray (List Byte) n →
      Except Fault (PtrArray (List Byte) n)
  | 0, _, _ => .error .writeOutside
  | rounds + 1, uriIndex, addresses =>
    match getUri uriIndex with
    | none => pure addresses
    | some uri => do
      let addresses ← addresses.write uriIndex uri
      TransportImpl.scanUrls getUri rounds (uriIndex + 1) addresses

/-- Half of `zmqBridgeMamaTransportImpl_parseNonNamingParams`. -/
def TransportImpl.parseUrls {n : Nat} (properties : Properties)
    (name property defaultUrl : List Byte) (addresses : PtrArray (List Byte) n) :
    Except Fault (PtrArray (List Byte) n) := do
  -- start with bare address
  let bare := (TransportImpl.getParameter properties (some defaultUrl)
    (tportParam name property)).getD defaultUrl
  let addresses ← addresses.write 0 bare
  -- now parse any _0, _1 etc.
  TransportImpl.scanUrls
    (fun i => TransportImpl.getParameter properties none (tportParamIndexed name property i))
    (n + 1) 0 addresses

/-- `zmqBridgeMamaTransportImpl_parseNonNamingParams`. -/
def TransportImpl.parseNonNamingParams (properties : Properties) (name : List Byte)
    (impl : TransportParams) : Except Fault TransportParams := do
  let mIncomingAddress ← TransportImpl.parseUrls properties name tportParamIncomingUrl
    (defaultIncomingUrl name) impl.mIncomingAddress
  let mOutgoingAddress ← TransportImpl.parseUrls properties name tportParamOutgoingUrl
    (defaultOutgoingUrl name) impl.mOutgoingAddress
  pure { impl with mIncomingAddress, mOutgoingAddress }

end ZmqBridge
