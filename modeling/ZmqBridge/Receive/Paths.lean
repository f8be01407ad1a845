import ZmqBridge.Model.Receive
import ZmqBridge.Receive.Pointers
import ZmqBridge.Data.Dispatch

/-!
# ZmqBridge — which bytes the handlers can take

For each handler the exact condition under which it stays inside the received
message and inside the arrays it copies to, for every byte string.

* `deserialize_inside`        — decoding, once the header fits;
* `deserialize_exact_iff`     — decoding stays inside and reports the right
  payload length exactly for `Decodable` messages;
* `DataMsg.decodable`         — what a peer encodes is `Decodable`;
* `Pointers.receiveData_iff`  — the dispatch of a data message;
* `Pointers.runCallback_iff`  — the callback of a queued item;
* `receiveNaming_iff`         — the handler of naming messages; inside, it does
  what `TransportImpl.dispatchNamingMsg` does with the fields.
-/

namespace ZmqBridge

open Lib

variable {κ ρ : Type}

-- ---------------------------------------------------------------------------
-- Decoding
-- ---------------------------------------------------------------------------

/-- Where the type byte is, after the subject and its terminator. -/
def typePos (zmsg : List Byte) : Nat := (cstr zmsg).length + 1

/-- The string after the type byte. -/
def embeddedHandle (zmsg : List Byte) : List Byte := cstr (zmsg.drop (typePos zmsg + 1))

/-- Subject, type, the handle of a request, and the terminator in front of the
payload. -/
def headerLength (zmsg : List Byte) : Nat :=
  typePos zmsg + 1 +
    (if zmsg[typePos zmsg]? = some ZmqMsgType.inboxRequest.code then
      (embeddedHandle zmsg).length else 0) + 1

/-- The number of bytes after the header; negative if the last terminator is
missing. -/
def payloadLength (zmsg : List Byte) : Int := zmsg.length - headerLength zmsg

/-- The header can be read, and the reply handle fits `mReplyHandle`. -/
structure HeaderFits (zmsg : List Byte) : Prop where
  subject : (0 : Byte) ∈ zmsg
  type : typePos zmsg < zmsg.length
  request : zmsg[typePos zmsg]? = some ZmqMsgType.inboxRequest.code →
    (0 : Byte) ∈ zmsg.drop (typePos zmsg + 1) ∧
      (embeddedHandle zmsg).length ≤ zmqReplyHandleSize
  response : zmsg[typePos zmsg]? = some ZmqMsgType.inboxResponse.code →
    (cstr zmsg).length ≤ zmqReplyHandleSize

/-- The header fits, and the size of the payload either shows as negative in an
`int` or is a positive `int`. -/
structure Decodable (zmsg : List Byte) : Prop extends HeaderFits zmsg where
  payload : narrowInt (payloadLength zmsg) < 0 ∨
    0 < payloadLength zmsg ∧ payloadLength zmsg < 2 ^ 31

/-- The buffer is what follows the header. -/
def MsgBuffer.Exact (b : MsgBuffer) (zmsg : List Byte) : Prop :=
  b.bufferPos = headerLength zmsg ∧ b.payloadSize = (zmsg.drop (headerLength zmsg)).length

/-- The end of decoding, behind the header. -/
def decodePayload (zmsg : List Byte) : Except Fault (Except MamaStatus MsgBuffer) :=
  if narrowInt (payloadLength zmsg) < 0 then pure (.error .systemError)
  else do
    let payloadType ← readByte zmsg (headerLength zmsg)
    pure (.ok ⟨headerLength zmsg, narrowInt (payloadLength zmsg), payloadType⟩)

/-- The reply handle, as far as decoding reads one. -/
def decodeHandle (impl : ZmqBridgeMsgImpl) (zmsg : List Byte) (mMsgType : Byte) :
    Except Fault (CharArray (zmqReplyHandleSize + 1)) :=
  if mMsgType = ZmqMsgType.inboxRequest.code then
    strcpy impl.mReplyHandle zmsg (typePos zmsg + 1)
  else if mMsgType = ZmqMsgType.inboxResponse.code then strcpy impl.mReplyHandle zmsg 0
  else pure impl.mReplyHandle

/-- The statements of `deserialize` behind the header. -/
theorem decodePayload_tail {zmsg : List Byte} {bufferPos : Nat} (msg : ZmqBridgeMsgImpl)
    (hHeader : headerLength zmsg = bufferPos) :
    (if narrowInt (zmsg.length - bufferPos) < 0 then pure (msg, .error .systemError)
      else do
        let payloadType ← readByte zmsg bufferPos
        pure (msg, .ok ⟨bufferPos, narrowInt (zmsg.length - bufferPos), payloadType⟩)) =
      (do
        let result ← decodePayload zmsg
        pure (msg, result) : Except Fault (ZmqBridgeMsgImpl × Except MamaStatus MsgBuffer)) := by
  subst hHeader
  rw [decodePayload, payloadLength]
  split
  · rfl
  · cases readByte zmsg (headerLength zmsg) <;> rfl

/-- Decoding as a type byte, a reply handle and a payload. -/
theorem deserialize_parts (impl : ZmqBridgeMsgImpl) {zmsg : List Byte}
    (h0 : (0 : Byte) ∈ zmsg) :
    MamaMsgImpl.deserialize impl zmsg = (do
      let mMsgType ← readByte zmsg (typePos zmsg)
      let mReplyHandle ← decodeHandle impl zmsg mMsgType
      let result ← decodePayload zmsg
      pure ({ impl with mMsgType, mReplyHandle }, result)) := by
  have hLen : strlen zmsg 0 = .ok (cstr zmsg).length := by
    rw [strlen_eq, List.drop_zero, if_pos h0]
  rw [MamaMsgImpl.deserialize, hLen]
  show (readByte zmsg (typePos zmsg) >>= _) = _
  by_cases hType : typePos zmsg < zmsg.length
  swap
  · rw [readByte_eq_error (by omega)]
    rfl
  have hGet : zmsg[typePos zmsg]? = some zmsg[typePos zmsg] := List.getElem?_eq_getElem hType
  rw [readByte_eq_ok hType]
  simp only [decodeHandle, bind, Except.bind]
  by_cases hReq : zmsg[typePos zmsg] = ZmqMsgType.inboxRequest.code
  · simp only [hReq, if_true]
    cases hCopy : strcpy impl.mReplyHandle zmsg ((cstr zmsg).length + 1 + 1) with
    | error e =>
      have hCopy' : strcpy impl.mReplyHandle zmsg (typePos zmsg + 1) = .error e := hCopy
      rw [hCopy']
    | ok mReplyHandle =>
      have hCopy' : strcpy impl.mReplyHandle zmsg (typePos zmsg + 1) = .ok mReplyHandle := hCopy
      have hHandle : strlen zmsg ((cstr zmsg).length + 1 + 1) =
          .ok (embeddedHandle zmsg).length := by
        rw [strlen_eq, if_pos (strcpy_ok_iff.mp ⟨_, hCopy⟩).1]
        rfl
      have hHeader : headerLength zmsg =
          typePos zmsg + 1 + (embeddedHandle zmsg).length + 1 := by
        rw [headerLength, hGet, hReq, if_pos rfl]
      rw [hCopy', hHandle]
      exact decodePayload_tail _ hHeader
  · have hHeader : headerLength zmsg = typePos zmsg + 1 + 1 := by
      rw [headerLength, hGet, if_neg fun h => hReq (Option.some.inj h)]
    simp only [hReq, if_false]
    by_cases hResp : zmsg[typePos zmsg] = ZmqMsgType.inboxResponse.code
    · simp only [hResp, if_true]
      cases strcpy impl.mReplyHandle zmsg 0 with
      | error e => rfl
      | ok mReplyHandle => exact decodePayload_tail _ hHeader
    · simp only [hResp, if_false]
      exact decodePayload_tail _ hHeader

/-- Copying the reply handle. -/
theorem inside_decodeHandle {impl : ZmqBridgeMsgImpl} {zmsg : List Byte} {mMsgType : Byte} :
    Inside (decodeHandle impl zmsg mMsgType) ↔
      (mMsgType = ZmqMsgType.inboxRequest.code →
        (0 : Byte) ∈ zmsg.drop (typePos zmsg + 1) ∧
          (embeddedHandle zmsg).length ≤ zmqReplyHandleSize) ∧
      (mMsgType = ZmqMsgType.inboxResponse.code →
        (0 : Byte) ∈ zmsg ∧ (cstr zmsg).length ≤ zmqReplyHandleSize) := by
  have hDiffer : ZmqMsgType.inboxRequest.code ≠ ZmqMsgType.inboxResponse.code := by decide
  rw [decodeHandle]
  by_cases hReq : mMsgType = ZmqMsgType.inboxRequest.code
  · rw [if_pos hReq, Inside, strcpy_ok_iff]
    simp [hReq, hDiffer, embeddedHandle]
  · rw [if_neg hReq]
    by_cases hResp : mMsgType = ZmqMsgType.inboxResponse.code
    · rw [if_pos hResp, Inside, strcpy_ok_iff]
      simp [hResp, hDiffer.symm]
    · simp [hReq, hResp]

/-- **What decoding needs of a message.** -/
theorem deserialize_inside {impl : ZmqBridgeMsgImpl} {zmsg : List Byte} :
    Inside (MamaMsgImpl.deserialize impl zmsg) ↔
      HeaderFits zmsg ∧ Inside (decodePayload zmsg) := by
  by_cases h0 : (0 : Byte) ∈ zmsg
  swap
  · refine iff_of_false ?_ fun h => h0 h.1.subject
    rw [MamaMsgImpl.deserialize, strlen_eq, List.drop_zero, if_neg h0]
    exact not_inside_error _
  rw [deserialize_parts impl h0, inside_bind]
  constructor
  · rintro ⟨mMsgType, hType, h⟩
    obtain ⟨mReplyHandle, hHandle, h⟩ := inside_bind.mp h
    obtain ⟨result, hResult, -⟩ := inside_bind.mp h
    have hLt := inside_readByte.mp ⟨_, hType⟩
    have hGet : zmsg[typePos zmsg]? = some mMsgType := by
      rw [readByte_eq_ok hLt] at hType
      rw [List.getElem?_eq_getElem hLt, Except.ok.inj hType]
    obtain ⟨hReq, hResp⟩ := inside_decodeHandle.mp ⟨_, hHandle⟩
    exact ⟨⟨h0, hLt, fun h => hReq (Option.some.inj (hGet.symm.trans h)),
      fun h => (hResp (Option.some.inj (hGet.symm.trans h))).2⟩, result, hResult⟩
  · rintro ⟨hFits, result, hResult⟩
    have hLt := hFits.type
    have hGet : zmsg[typePos zmsg]? = some zmsg[typePos zmsg] := List.getElem?_eq_getElem hLt
    refine ⟨_, readByte_eq_ok hLt, inside_bind.mpr ?_⟩
    obtain ⟨mReplyHandle, hHandle⟩ := inside_decodeHandle.mpr
      ⟨fun h => hFits.request (hGet.trans (congrArg some h)),
        fun h => ⟨h0, hFits.response (hGet.trans (congrArg some h))⟩⟩
    exact ⟨mReplyHandle, hHandle, inside_bind.mpr ⟨result, hResult, inside_pure _⟩⟩

/-- What decoding returns is the end of decoding. -/
theorem deserialize_result {impl msg : ZmqBridgeMsgImpl} {zmsg : List Byte}
    {result : Except MamaStatus MsgBuffer}
    (h : MamaMsgImpl.deserialize impl zmsg = .ok (msg, result)) :
    decodePayload zmsg = .ok result := by
  obtain ⟨hFits, result', hResult⟩ := deserialize_inside.mp ⟨_, h⟩
  have hLt := hFits.type
  rw [deserialize_parts impl hFits.subject, readByte_eq_ok hLt, hResult] at h
  cases hHandle : decodeHandle impl zmsg zmsg[typePos zmsg] with
  | error e =>
    simp only [bind, Except.bind, hHandle] at h
    cases h
  | ok mReplyHandle =>
    simp only [bind, Except.bind, hHandle, pure, Except.pure] at h
    rw [hResult, (Prod.mk.inj (Except.ok.inj h)).2]

/-- The payload part stays inside and is exact for sizes that an `int` shows as
negative or holds. -/
theorem decodePayload_exact_iff {zmsg : List Byte} :
    (∃ result, decodePayload zmsg = .ok result ∧
        ∀ b, result = .ok b → b.Exact zmsg) ↔
      (narrowInt (payloadLength zmsg) < 0 ∨
        0 < payloadLength zmsg ∧ payloadLength zmsg < 2 ^ 31) := by
  rw [decodePayload]
  by_cases hNeg : narrowInt (payloadLength zmsg) < 0
  · rw [if_pos hNeg]
    refine iff_of_true ⟨_, rfl, fun b hb => ?_⟩ (Or.inl hNeg)
    cases hb
  rw [if_neg hNeg]
  constructor
  · rintro ⟨result, hResult, hExact⟩
    obtain ⟨payloadType, hType, -⟩ := inside_bind.mp ⟨_, hResult⟩
    have hLt := inside_readByte.mp ⟨_, hType⟩
    rw [hType] at hResult
    cases hResult
    obtain ⟨-, hSize⟩ := hExact _ rfl
    have hShort := narrowInt_lt (payloadLength zmsg)
    rw [List.length_drop] at hSize
    simp only [payloadLength] at hSize hShort ⊢
    right
    omega
  · rintro (h | ⟨hPos, hLt⟩)
    · exact absurd h hNeg
    have hInside : headerLength zmsg < zmsg.length := by
      rw [payloadLength] at hPos
      omega
    have hNat : payloadLength zmsg = ((zmsg.length - headerLength zmsg : Nat) : Int) := by
      rw [payloadLength]
      omega
    have hNarrow : narrowInt (payloadLength zmsg) = payloadLength zmsg := by
      rw [hNat]
      exact narrowInt_of_lt (by omega)
    rw [readByte_eq_ok hInside]
    refine ⟨_, rfl, fun b hb => ?_⟩
    cases hb
    exact ⟨rfl, by rw [hNarrow, hNat, List.length_drop]⟩

/-- **Decoding stays inside and reports the right length exactly for `Decodable`
messages.** -/
theorem deserialize_exact_iff (impl : ZmqBridgeMsgImpl) (zmsg : List Byte) :
    (∃ msg result, MamaMsgImpl.deserialize impl zmsg = .ok (msg, result) ∧
        ∀ b, result = .ok b → b.Exact zmsg) ↔ Decodable zmsg := by
  constructor
  · rintro ⟨msg, result, h, hExact⟩
    have hFits := (deserialize_inside.mp ⟨_, h⟩).1
    exact ⟨hFits, decodePayload_exact_iff.mp ⟨result, deserialize_result h, hExact⟩⟩
  · intro h
    obtain ⟨result, hResult, hExact⟩ := decodePayload_exact_iff.mpr h.payload
    obtain ⟨⟨msg, result'⟩, hOk⟩ := deserialize_inside.mpr ⟨h.toHeaderFits, result, hResult⟩
    obtain rfl : result' = result :=
      Except.ok.inj ((deserialize_result hOk).symm.trans hResult)
    exact ⟨msg, result', hOk, hExact⟩

/-- What a peer encodes is `Decodable`, up to the size of an `int`. -/
theorem DataMsg.decodable (m : DataMsg) (hSize : m.wire.length < 2 ^ 31) :
    Decodable m.wire := by
  obtain ⟨a, -, hDec⟩ := WireMsg.deserialize_eq m.handleFits MamaMsgImpl.createMsgOnly
  obtain ⟨hFits, hPayload⟩ := deserialize_inside.mp ⟨_, hDec⟩
  refine ⟨hFits, ?_⟩
  by_cases hNeg : narrowInt (payloadLength m.wire) < 0
  · exact Or.inl hNeg
  · rw [decodePayload, if_neg hNeg] at hPayload
    obtain ⟨payloadType, hType, -⟩ := inside_bind.mp hPayload
    have hLt := inside_readByte.mp ⟨_, hType⟩
    rw [payloadLength]
    omega

-- ---------------------------------------------------------------------------
-- Dispatching a data message
-- ---------------------------------------------------------------------------

/-- What the dispatch of a data message reads is there: the bytes compared with
the inbox prefix, and then the inbox name, or the subject and the bytes compared
with the keys of the wildcard subscriptions. -/
structure DispatchFits (reads : MemcmpReads) (impl : DataTransport κ ρ) (zmsg : List Byte) :
    Prop where
  compared : MemcmpInside reads zmsg zmqReplyHandlePrefix
  inbox : zmqReplyHandlePrefix <+: zmsg →
    (0 : Byte) ∈ zmsg.drop zmqReplyHandleInboxNameIndex
  subject : ¬ zmqReplyHandlePrefix <+: zmsg → (0 : Byte) ∈ zmsg
  wildcards : ¬ zmqReplyHandlePrefix <+: zmsg → ∀ s ∈ impl.subs,
    s.handle ∈ impl.mWcEndpoints → MemcmpInside reads zmsg s.mSubjectKey.bytes

theorem enqueueMsg_mZmsg {callback : Callback} {queue : κ} {target pos : Nat}
    {identifier zmsg : List Byte} {item : Enqueue κ}
    (h : enqueueMsg callback queue target identifier pos zmsg = .ok item) :
    item.tmsg.mZmsg = zmsg := by
  obtain ⟨a, -, h⟩ := bind_eq_ok h
  cases h
  rfl

theorem queueForSub_mZmsg {impl : DataTransport κ ρ} {zmsg : List Byte} {handle : Nat}
    {item : Enqueue κ} (h : TransportImpl.queueForSub impl zmsg handle = .ok (some item)) :
    item.tmsg.mZmsg = zmsg := by
  obtain ⟨s, -, h⟩ := bind_eq_ok h
  split at h
  · cases h
  · obtain ⟨queued, hQueued, h⟩ := bind_eq_ok h
    cases h
    exact enqueueMsg_mZmsg hQueued

theorem matchWildcards_mZmsg {impl : DataTransport κ ρ} {reads : MemcmpReads}
    {regexec : ρ → List Byte → Bool} {zmsg : List Byte} {handle : Nat} {item : Enqueue κ}
    (h : TransportImpl.matchWildcards reads regexec impl zmsg handle = .ok (some item)) :
    item.tmsg.mZmsg = zmsg := by
  obtain ⟨s, -, h⟩ := bind_eq_ok h
  obtain ⟨same, -, h⟩ := bind_eq_ok h
  split at h
  · cases h
  · split at h
    · cases h
    · obtain ⟨subject, -, h⟩ := bind_eq_ok h
      split at h
      · cases h
      · obtain ⟨queued, hQueued, h⟩ := bind_eq_ok h
        cases h
        exact enqueueMsg_mZmsg hQueued

section Dispatch

variable {impl : DataTransport κ ρ} {next : Nat} (hPtr : Pointers impl next)
  {reads : MemcmpReads} {regexec : ρ → List Byte → Bool} {order : List Nat → List Nat}
  (hOrder : ∀ l, (order l).Perm l) {zmsg : List Byte}

include hPtr

/-- The identifier of a live subscription fits an item. -/
theorem Pointers.inside_enqueueMsg {s : ZmqSubscription κ ρ} (hs : s ∈ impl.subs)
    (callback : Callback) (zmsg : List Byte) :
    Inside (enqueueMsg callback s.mZmqQueue s.handle (s.mEndpointIdentifier ++ [0]) 0 zmsg) := by
  obtain ⟨hNul, hLen⟩ := hPtr.identifiers s hs
  exact ⟨_, enqueueMsg_eq (p := []) (r := []) hNul hLen⟩

theorem Pointers.inside_matchWildcards {s : ZmqSubscription κ ρ} (hs : s ∈ impl.subs)
    (hKind : s.mIsWildcard = true) (h0 : (0 : Byte) ∈ zmsg) :
    Inside (TransportImpl.matchWildcards reads regexec impl zmsg s.handle) ↔
      MemcmpInside reads zmsg s.mSubjectKey.bytes := by
  obtain ⟨regex, hRegex⟩ := Option.isSome_iff_exists.mp hKind
  obtain ⟨subject, hSubject⟩ := inside_readCstr.mpr (show (0 : Byte) ∈ zmsg.drop 0 from h0)
  rw [TransportImpl.matchWildcards, hPtr.sub_eq hs]
  show Inside (memcmpEq reads zmsg s.mSubjectKey.bytes >>= _) ↔ _
  rw [memcmpEq_eq]
  by_cases hCmp : MemcmpInside reads zmsg s.mSubjectKey.bytes
  · refine iff_of_true ?_ hCmp
    rw [if_pos hCmp]
    simp only [bind, Except.bind, hRegex, hSubject, Bool.not_eq_eq_eq_not, Bool.not_true]
    split
    · exact inside_pure _
    split
    · exact inside_pure _
    obtain ⟨item, hItem⟩ := hPtr.inside_enqueueMsg hs .wildcard zmsg
    rw [hItem]
    exact inside_pure _
  · refine iff_of_false ?_ hCmp
    rw [if_neg hCmp]
    exact not_inside_error _

theorem Pointers.inside_queueForSub {s : ZmqSubscription κ ρ} (hs : s ∈ impl.subs) :
    Inside (TransportImpl.queueForSub impl zmsg s.handle) := by
  rw [TransportImpl.queueForSub, hPtr.sub_eq hs]
  obtain ⟨item, hItem⟩ := hPtr.inside_enqueueMsg hs .sub zmsg
  simp only [bind, Except.bind, hItem]
  split
  · exact inside_pure _
  · exact inside_pure _

include hOrder in
theorem Pointers.inside_dispatchSubMsg :
    Inside (TransportImpl.dispatchSubMsg reads regexec order impl zmsg) ↔
      (0 : Byte) ∈ zmsg ∧ ∀ s ∈ impl.subs, s.handle ∈ impl.mWcEndpoints →
        MemcmpInside reads zmsg s.mSubjectKey.bytes := by
  rw [TransportImpl.dispatchSubMsg, inside_bind]
  constructor
  · rintro ⟨wildcards, hWild, h⟩
    obtain ⟨subject, hSubject, -⟩ := inside_bind.mp h
    have h0 : (0 : Byte) ∈ zmsg := (readCstr_eq_ok hSubject).1
    refine ⟨h0, fun s hs hIn => ?_⟩
    obtain ⟨t, ht, hKind, hEq⟩ := hPtr.wildcard _ hIn
    obtain rfl := hPtr.sub_unique ht hs hEq
    exact (hPtr.inside_matchWildcards hs hKind h0).mp (inside_collect.mp ⟨_, hWild⟩ _ hIn)
  · rintro ⟨h0, hCmp⟩
    have hWild : Inside (collect (TransportImpl.matchWildcards reads regexec impl zmsg)
        impl.mWcEndpoints) := by
      refine inside_collect.mpr fun h hh => ?_
      obtain ⟨s, hs, hKind, rfl⟩ := hPtr.wildcard h hh
      exact (hPtr.inside_matchWildcards hs hKind h0).mpr (hCmp s hs hh)
    obtain ⟨wildcards, hWild⟩ := hWild
    obtain ⟨subject, hSubject⟩ := inside_readCstr.mpr (show (0 : Byte) ∈ zmsg.drop 0 from h0)
    refine ⟨wildcards, hWild, inside_bind.mpr ⟨subject, hSubject, ?_⟩⟩
    rw [inside_ite]
    refine ⟨fun _ => inside_pure _, fun _ => inside_bind.mpr ?_⟩
    have hSubs : Inside (collect (TransportImpl.queueForSub impl zmsg)
        (order (endpointPoolGetRegistered impl.mSubEndpoints subject))) := by
      refine inside_collect.mpr fun h hh => ?_
      obtain ⟨e, he, rfl⟩ := List.mem_map.mp ((hOrder _).mem_iff.mp hh)
      obtain ⟨s, hs, -, rfl⟩ := hPtr.regular e (List.mem_filter.mp he).1
      exact hPtr.inside_queueForSub hs
    obtain ⟨regular, hRegular⟩ := hSubs
    exact ⟨regular, hRegular, inside_pure _⟩

/-- A name that is found has the size its copy is made for. -/
theorem Pointers.inside_dispatchInboxMsg :
    Inside (TransportImpl.dispatchInboxMsg impl zmsg) ↔
      (0 : Byte) ∈ zmsg.drop zmqReplyHandleInboxNameIndex := by
  rw [TransportImpl.dispatchInboxMsg, inside_bind]
  constructor
  · rintro ⟨name, hName, -⟩
    exact (readCstr_eq_ok hName).1
  · intro h0
    obtain ⟨name, hName⟩ := inside_readCstr.mpr h0
    refine ⟨name, hName, ?_⟩
    have hEq := (readCstr_eq_ok hName).2
    cases hFound : impl.mInboxes.lookup name with
    | none => exact inside_pure _
    | some h =>
      obtain ⟨i, hi, rfl, hiName⟩ := hPtr.inbox name h hFound
      have hFits : Inside (strcpy (CharArray.zero (zmqReplyHandleInboxNameSize + 1)) zmsg
          zmqReplyHandleInboxNameIndex) := by
        refine strcpy_ok_iff.mpr ⟨h0, ?_⟩
        rw [← hEq, ← hiName, hPtr.names i hi]
        exact Nat.lt_succ_self _
      obtain ⟨a, ha⟩ := hFits
      simp only [hPtr.inbox_eq hi, enqueueMsg, ha, bind, Except.bind]
      exact inside_pure _

/-- **The dispatch of a data message** stays inside exactly when the message is
empty or what it reads is there. -/
theorem Pointers.receiveData_iff (reads : MemcmpReads) (regexec : ρ → List Byte → Bool)
    (hOrder : ∀ l, (order l).Perm l) (zmsg : List Byte) :
    Inside (TransportImpl.receiveData reads regexec order impl zmsg) ↔
      zmsg = [] ∨ DispatchFits reads impl zmsg := by
  rw [TransportImpl.receiveData]
  cases zmsg with
  | nil => exact iff_of_true (inside_pure _) (Or.inl rfl)
  | cons b bs =>
    rw [if_neg (by simp), inside_map, TransportImpl.dispatchNormalMsg, memcmpEq_eq]
    by_cases hCmp : MemcmpInside reads (b :: bs) zmqReplyHandlePrefix
    swap
    · refine iff_of_false ?_ ?_
      · rw [if_neg hCmp]
        exact not_inside_error _
      · rintro (h | h)
        · cases h
        · exact hCmp h.compared
    rw [if_pos hCmp, inside_bind]
    by_cases hPrefix : zmqReplyHandlePrefix <+: b :: bs
    · have hBranch : (∃ a, Except.ok (decide (zmqReplyHandlePrefix <+: b :: bs)) =
          (Except.ok a : Except Fault Bool) ∧ Inside (if a = true then
            TransportImpl.dispatchInboxMsg impl (b :: bs)
            else TransportImpl.dispatchSubMsg reads regexec order impl (b :: bs))) ↔
          Inside (TransportImpl.dispatchInboxMsg impl (b :: bs)) := by
        simp [hPrefix]
      rw [hBranch, hPtr.inside_dispatchInboxMsg]
      constructor
      · exact fun h0 => Or.inr ⟨hCmp, fun _ => h0, fun h => absurd hPrefix h,
          fun h => absurd hPrefix h⟩
      · rintro (h | h)
        · cases h
        · exact h.inbox hPrefix
    · have hBranch : (∃ a, Except.ok (decide (zmqReplyHandlePrefix <+: b :: bs)) =
          (Except.ok a : Except Fault Bool) ∧ Inside (if a = true then
            TransportImpl.dispatchInboxMsg impl (b :: bs)
            else TransportImpl.dispatchSubMsg reads regexec order impl (b :: bs))) ↔
          Inside (TransportImpl.dispatchSubMsg reads regexec order impl (b :: bs)) := by
        simp [hPrefix]
      rw [hBranch, hPtr.inside_dispatchSubMsg hOrder]
      constructor
      · exact fun h => Or.inr ⟨hCmp, fun hp => absurd hp hPrefix, fun _ => h.1, fun _ => h.2⟩
      · rintro (h | h)
        · cases h
        · exact ⟨h.subject hPrefix, h.wildcards hPrefix⟩

end Dispatch

/-- The items carry the message, and its subject is terminated. -/
theorem receiveData_items {impl : DataTransport κ ρ} {reads : MemcmpReads}
    {regexec : ρ → List Byte → Bool} {order : List Nat → List Nat} {zmsg : List Byte}
    {items : List (Enqueue κ)}
    (h : TransportImpl.receiveData reads regexec order impl zmsg = .ok items)
    {item : Enqueue κ} (hItem : item ∈ items) :
    item.tmsg.mZmsg = zmsg ∧ (0 : Byte) ∈ zmsg := by
  rw [TransportImpl.receiveData] at h
  split at h
  · cases h
    cases hItem
  cases hDispatch : TransportImpl.dispatchNormalMsg reads regexec order impl zmsg with
  | error e =>
    rw [hDispatch] at h
    cases h
  | ok out =>
    rw [hDispatch] at h
    cases h
    obtain ⟨isInbox, -, hBranch⟩ := bind_eq_ok hDispatch
    cases isInbox with
    | true =>
      obtain ⟨name, hName, hRest⟩ := bind_eq_ok hBranch
      refine ⟨?_, List.mem_of_mem_drop (readCstr_eq_ok hName).1⟩
      cases hFound : impl.mInboxes.lookup name with
      | none =>
        rw [hFound] at hRest
        cases hRest
        cases hItem
      | some handle =>
        rw [hFound] at hRest
        obtain ⟨inbox, -, hRest⟩ := bind_eq_ok hRest
        obtain ⟨queued, hQueued, hRest⟩ := bind_eq_ok hRest
        cases hRest
        rw [List.mem_singleton.mp hItem]
        exact enqueueMsg_mZmsg hQueued
    | false =>
      obtain ⟨wildcards, hWild, hRest⟩ := bind_eq_ok hBranch
      obtain ⟨subject, hSubject, hRest⟩ := bind_eq_ok hRest
      refine ⟨?_, (readCstr_eq_ok hSubject).1⟩
      have hWildItem : ∀ it ∈ wildcards, it.tmsg.mZmsg = zmsg := by
        intro it hIt
        obtain ⟨handle, -, hMatch⟩ := mem_collect hWild hIt
        exact matchWildcards_mZmsg hMatch
      simp only at hRest
      split at hRest
      · cases hRest
        exact hWildItem item hItem
      · obtain ⟨regular, hRegular, hRest⟩ := bind_eq_ok hRest
        cases hRest
        rcases List.mem_append.mp hItem with hItem | hItem
        · exact hWildItem item hItem
        · obtain ⟨handle, -, hQueue⟩ := mem_collect hRegular hItem
          exact queueForSub_mZmsg hQueue

-- ---------------------------------------------------------------------------
-- Running an item
-- ---------------------------------------------------------------------------

/-- The last element of the wildcard list with an identifier. -/
def DataTransport.wildcardNamed (impl : DataTransport κ ρ) (identifier : List Byte) :
    Option (ZmqSubscription κ ρ) :=
  ((impl.mWcEndpoints.filterMap fun h => impl.subs.find? (·.handle = h)).filter
    (·.mEndpointIdentifier = identifier)).getLast?

/-- There is somebody to decode the item for: a registered inbox, or a
registered subscription that is not muted. -/
def DataTransport.Takes (impl : DataTransport κ ρ) (tmsg : ZmqTransportMsg) : Prop :=
  match tmsg.callback with
  | .inbox => impl.mInboxes.lookup tmsg.mEndpointIdentifier.cstr ≠ none
  | .sub => ∃ h, endpointPoolGetEndpointByIdentifiers impl.mSubEndpoints (cstr tmsg.mZmsg)
      tmsg.mEndpointIdentifier.cstr = some h ∧
    ∃ s ∈ impl.subs, s.handle = h ∧ s.mIsNotMuted = true
  | .wildcard => ∃ s, impl.wildcardNamed tmsg.mEndpointIdentifier.cstr = some s ∧
    s.mIsNotMuted = true

/-- The callback stays inside, and a buffer it sets is what follows the
header. -/
def HandsOnExactly (x : Except Fault (CallbackOutcome κ)) (zmsg : List Byte) : Prop :=
  ∃ out, x = .ok out ∧ ∀ b, out.msgBuffer = some b → b.Exact zmsg

theorem handsOnExactly_none (queueMsgs : κ → ZmqBridgeMsgImpl) (zmsg : List Byte) :
    HandsOnExactly (.ok ⟨queueMsgs, none, none⟩) zmsg :=
  ⟨_, rfl, fun b hb => by cases hb⟩

/-- A callback that decodes the message and sets the buffer it gets. -/
theorem handsOnExactly_iff (msg : ZmqBridgeMsgImpl) {zmsg : List Byte}
    {x : Except Fault (CallbackOutcome κ)}
    (hError : ∀ e, MamaMsgImpl.deserialize msg zmsg = .error e → x = .error e)
    (hOk : ∀ m result, MamaMsgImpl.deserialize msg zmsg = .ok (m, result) →
      ∃ out, x = .ok out ∧ out.msgBuffer = result.toOption) :
    HandsOnExactly x zmsg ↔ Decodable zmsg := by
  rw [← deserialize_exact_iff msg zmsg]
  constructor
  · rintro ⟨out, hOut, hExact⟩
    cases hDec : MamaMsgImpl.deserialize msg zmsg with
    | error e =>
      rw [hError e hDec] at hOut
      cases hOut
    | ok r =>
      obtain ⟨m, result⟩ := r
      obtain ⟨out', hOut', hBuffer⟩ := hOk m result hDec
      obtain rfl : out' = out := Except.ok.inj (hOut'.symm.trans hOut)
      refine ⟨m, result, rfl, fun b hb => hExact b ?_⟩
      rw [hBuffer, hb]
      rfl
  · rintro ⟨m, result, hDec, hExact⟩
    obtain ⟨out, hOut, hBuffer⟩ := hOk m result hDec
    refine ⟨out, hOut, fun b hb => hExact b ?_⟩
    rw [hBuffer] at hb
    cases result with
    | error e => cases hb
    | ok b' => exact congrArg Except.ok (Option.some.inj hb)

section Callbacks

variable [DecidableEq κ] (queueMsgs : κ → ZmqBridgeMsgImpl) {tmsg : ZmqTransportMsg}

theorem processMsg_iff (s : ZmqSubscription κ ρ) :
    HandsOnExactly (TransportImpl.processMsg tmsg queueMsgs s) tmsg.mZmsg ↔
      (s.mIsNotMuted = true → Decodable tmsg.mZmsg) := by
  cases hMuted : s.mIsNotMuted with
  | false =>
    refine iff_of_true ?_ (fun h => by cases h)
    simp only [TransportImpl.processMsg, hMuted]
    exact handsOnExactly_none _ _
  | true =>
    rw [forall_prop_of_true rfl]
    refine handsOnExactly_iff (queueMsgs s.mZmqQueue) (fun e hDec => ?_)
      (fun m result hDec => ?_)
    · simp only [TransportImpl.processMsg, hMuted, hDec]
      rfl
    · simp only [TransportImpl.processMsg, hMuted, hDec]
      cases result with
      | error e => exact ⟨_, rfl, rfl⟩
      | ok b => exact ⟨_, rfl, rfl⟩

variable {impl : DataTransport κ ρ} {next : Nat} (hPtr : Pointers impl next)

include hPtr

theorem Pointers.inboxCallback_iff :
    HandsOnExactly (TransportImpl.inboxCallback impl tmsg queueMsgs) tmsg.mZmsg ↔
      (impl.mInboxes.lookup tmsg.mEndpointIdentifier.cstr ≠ none → Decodable tmsg.mZmsg) := by
  rw [TransportImpl.inboxCallback]
  cases hFound : impl.mInboxes.lookup tmsg.mEndpointIdentifier.cstr with
  | none => exact iff_of_true (handsOnExactly_none _ _) fun h => absurd rfl h
  | some h =>
    obtain ⟨inbox, hi, rfl, -⟩ := hPtr.inbox _ h hFound
    rw [forall_prop_of_true (Option.some_ne_none _)]
    refine handsOnExactly_iff (queueMsgs inbox.mZmqQueue) (fun e hDec => ?_)
      (fun m result hDec => ?_)
    · simp only [hPtr.inbox_eq hi, bind, Except.bind, hDec]
    · simp only [hPtr.inbox_eq hi, bind, Except.bind, hDec]
      cases result with
      | error e => exact ⟨_, rfl, rfl⟩
      | ok b => exact ⟨_, rfl, rfl⟩

theorem Pointers.subCallback_iff (h0 : (0 : Byte) ∈ tmsg.mZmsg) :
    HandsOnExactly (TransportImpl.subCallback impl tmsg queueMsgs) tmsg.mZmsg ↔
      ((∃ h, endpointPoolGetEndpointByIdentifiers impl.mSubEndpoints (cstr tmsg.mZmsg)
          tmsg.mEndpointIdentifier.cstr = some h ∧
        ∃ s ∈ impl.subs, s.handle = h ∧ s.mIsNotMuted = true) → Decodable tmsg.mZmsg) := by
  have hSubject : readCstr tmsg.mZmsg 0 = .ok (cstr tmsg.mZmsg) := by
    rw [readCstr_eq, List.drop_zero, if_pos h0]
  rw [TransportImpl.subCallback, hSubject]
  simp only [bind, Except.bind]
  cases hFound : endpointPoolGetEndpointByIdentifiers impl.mSubEndpoints (cstr tmsg.mZmsg)
      tmsg.mEndpointIdentifier.cstr with
  | none =>
    refine iff_of_true (handsOnExactly_none _ _) ?_
    rintro ⟨h, hSome, -⟩
    cases hSome
  | some h =>
    obtain ⟨e, hFind, rfl⟩ := Option.map_eq_some_iff.mp hFound
    obtain ⟨s, hs, -, rfl⟩ := hPtr.regular e (List.mem_of_find?_eq_some hFind)
    have hSub : impl.sub s.entry.endpoint = .ok s := hPtr.sub_eq hs
    simp only [hSub]
    rw [processMsg_iff queueMsgs s]
    constructor
    · rintro hDec ⟨h, hSome, t, ht, rfl, hMuted⟩
      rw [← hPtr.sub_unique hs ht (Option.some.inj hSome)] at hMuted
      exact hDec hMuted
    · exact fun hDec hMuted => hDec ⟨s.handle, rfl, s, hs, rfl, hMuted⟩

omit [DecidableEq κ] in
/-- Walking the wildcard list finds `wildcardNamed`. -/
theorem Pointers.findWildcard (identifier : List Byte) :
    ∃ found, collect (fun handle => do
        let s ← impl.sub handle
        pure (if s.mEndpointIdentifier = identifier then some s else none))
        impl.mWcEndpoints = .ok found ∧ found.getLast? = impl.wildcardNamed identifier := by
  refine ⟨_, collect_ok (g := fun h => (impl.subs.find? (·.handle = h)).bind fun s =>
    if s.mEndpointIdentifier = identifier then some s else none) ?_, ?_⟩
  · intro h hh
    obtain ⟨s, hs, -, rfl⟩ := hPtr.wildcard h hh
    rw [hPtr.sub_eq hs, find?_of_nodup (List.nodup_append.mp hPtr.nodup).1 hs]
    rfl
  · rw [DataTransport.wildcardNamed, ← List.filterMap_eq_filter, List.filterMap_filterMap]
    simp only [Option.guard, decide_eq_true_eq]

theorem Pointers.wcCallback_iff :
    HandsOnExactly (TransportImpl.wcCallback impl tmsg queueMsgs) tmsg.mZmsg ↔
      ((∃ s, impl.wildcardNamed tmsg.mEndpointIdentifier.cstr = some s ∧
        s.mIsNotMuted = true) → Decodable tmsg.mZmsg) := by
  obtain ⟨found, hFound, hLast⟩ := hPtr.findWildcard tmsg.mEndpointIdentifier.cstr
  rw [TransportImpl.wcCallback, hFound]
  simp only [bind, Except.bind, hLast]
  cases impl.wildcardNamed tmsg.mEndpointIdentifier.cstr with
  | none =>
    refine iff_of_true (handsOnExactly_none _ _) ?_
    rintro ⟨s, hSome, -⟩
    cases hSome
  | some s =>
    simp only [processMsg_iff queueMsgs s, Option.some.injEq]
    constructor
    · rintro hDec ⟨t, rfl, hMuted⟩
      exact hDec hMuted
    · exact fun hDec hMuted => hDec ⟨s, rfl, hMuted⟩

/-- **The callback of a queued item** stays inside and hands on what follows the
header exactly when the message is `Decodable` or there is nobody to decode it
for. -/
theorem Pointers.runCallback_iff (h0 : (0 : Byte) ∈ tmsg.mZmsg) :
    HandsOnExactly (TransportImpl.runCallback impl tmsg queueMsgs) tmsg.mZmsg ↔
      (impl.Takes tmsg → Decodable tmsg.mZmsg) := by
  rw [TransportImpl.runCallback, DataTransport.Takes]
  cases tmsg.callback with
  | inbox => exact hPtr.inboxCallback_iff queueMsgs
  | sub => exact hPtr.subCallback_iff queueMsgs h0
  | wildcard => exact hPtr.wcCallback_iff queueMsgs

end Callbacks

-- ---------------------------------------------------------------------------
-- Naming messages
-- ---------------------------------------------------------------------------

/-- The fields of a naming message, as far as they are there. -/
def Platform.namingMsg (p : Platform) (zmsg : List Byte) : NamingMsg :=
  ⟨zmsg[namingTypeOffset]?.getD 0, cstr (zmsg.drop p.uuidOffset),
    cstr (zmsg.drop p.endPointAddrOffset)⟩

/-- What the handler of naming messages reads is there: everything up to `mPid` for
every message, the strings for those that are printed. The struct as a whole, and a
terminated uuid inside of it, are only needed for a peer that ends up in the table. -/
structure NamingFits (p : Platform) (calls : NamingCalls) (impl : NamingTransport)
    (zmsg : List Byte) : Prop where
  pid : p.uuidOffset ≤ zmsg.length
  printed : p.prints (p.getNamingLogLevel (p.namingMsg zmsg).mType) = true →
    (0 : Byte) ∈ zmsg.drop p.endPointAddrOffset
  uuid : (p.namingMsg zmsg).announces = true ∨ (p.namingMsg zmsg).mType = typeDisconnect →
    (0 : Byte) ∈ zmsg.drop p.uuidOffset
  endpoint : (p.namingMsg zmsg).announces = true ∧
      impl.mPeers.lookup (p.namingMsg zmsg).mUuid = none ∨
      (p.namingMsg zmsg).mType = typeDisconnect ∨ (p.namingMsg zmsg).mType = typeWelcome →
    (0 : Byte) ∈ zmsg.drop p.endPointAddrOffset
  copy : (p.namingMsg zmsg).announces = true →
    impl.mPeers.lookup (p.namingMsg zmsg).mUuid = none → calls.connect = true →
    calls.send = true → calls.malloc = true →
    p.sizeofNamingMsg ≤ zmsg.length ∧ (0 : Byte) ∈ (zmsg.take p.sizeofNamingMsg).drop p.uuidOffset

section Naming

variable {p : Platform} {calls : NamingCalls} {impl : NamingTransport} {zmsg : List Byte}

theorem namingType_lt_of_pid (h : p.uuidOffset ≤ zmsg.length) :
    namingTypeOffset < zmsg.length := by
  unfold Platform.uuidOffset Platform.pidOffset hostOffset progNameOffset at h
  omega

/-- A string that is terminated further on is terminated. -/
theorem mem_drop_of_le {pos pos' : Nat} (hLe : pos ≤ pos') (h : (0 : Byte) ∈ zmsg.drop pos') :
    (0 : Byte) ∈ zmsg.drop pos := by
  rw [← Nat.add_sub_cancel' hLe, ← List.drop_drop] at h
  exact List.mem_of_mem_drop h

/-- Logging reads `mPid`, and if the message is printed, the last of the strings is
terminated, and with it all of them. -/
theorem inside_logNamingMsg {level : Int} :
    Inside (p.logNamingMsg level zmsg) ↔ p.uuidOffset ≤ zmsg.length ∧
      (p.prints level = true → (0 : Byte) ∈ zmsg.drop p.endPointAddrOffset) := by
  rw [Platform.logNamingMsg, inside_then, inside_readBytes]
  refine and_congr_right fun _ => ?_
  cases p.prints level with
  | false => exact iff_of_true (inside_pure _) fun h => absurd h Bool.false_ne_true
  | true =>
    simp only [if_true, inside_then, inside_readCstr, forall_const]
    constructor
    · exact fun h => h.2.2.2.2.1
    · intro h
      have hUuid : p.uuidOffset ≤ p.endPointAddrOffset := Nat.le_add_right _ _
      have hHost : hostOffset ≤ p.uuidOffset := by
        unfold Platform.uuidOffset Platform.pidOffset
        omega
      have hProg : progNameOffset ≤ hostOffset := Nat.le_add_right _ _
      exact ⟨mem_drop_of_le (by omega) h, mem_drop_of_le (by omega) h, mem_drop_of_le hUuid h,
        mem_drop_of_le (Nat.zero_le _) h, h, inside_pure _⟩

theorem NamingFits.logs (h : NamingFits p calls impl zmsg) :
    p.logNamingMsg (p.getNamingLogLevel (p.namingMsg zmsg).mType) zmsg = .ok () := by
  obtain ⟨_, hOk⟩ := inside_logNamingMsg.mpr ⟨h.pid, h.printed⟩
  exact hOk

/-- A beacon is logged again at the level it was logged at. -/
theorem NamingFits.logs_again (h : NamingFits p calls impl zmsg) :
    p.logNewPeer (p.namingMsg zmsg).mType zmsg = .ok () := by
  unfold Platform.logNewPeer
  split
  · rename_i hType
    have hLogs := h.logs
    rwa [Platform.getNamingLogLevel, if_pos hType] at hLogs
  · rfl

theorem readByte_namingType (h : namingTypeOffset < zmsg.length) :
    readByte zmsg namingTypeOffset = .ok (p.namingMsg zmsg).mType := by
  rw [readByte_eq_ok h, Platform.namingMsg, List.getElem?_eq_getElem h]
  rfl

theorem readCstr_of_mem {pos : Nat} (h : (0 : Byte) ∈ zmsg.drop pos) :
    readCstr zmsg pos = .ok (cstr (zmsg.drop pos)) := by
  rw [readCstr_eq, if_pos h]

/-- The key of the table, read from the copy of the message. -/
theorem readCstr_copy (h : (0 : Byte) ∈ (zmsg.take p.sizeofNamingMsg).drop p.uuidOffset) :
    readCstr (zmsg.take p.sizeofNamingMsg) p.uuidOffset = .ok (p.namingMsg zmsg).mUuid := by
  rw [readCstr_eq, if_pos h, List.drop_take, cstr_take (by rwa [← List.drop_take])]
  rfl

/-- **Inside, the handler does what it does with the fields of the message.** -/
theorem dispatchNamingZmsg_eq (h : NamingFits p calls impl zmsg) :
    TransportImpl.dispatchNamingZmsg p calls impl zmsg =
      .ok (TransportImpl.dispatchNamingMsg calls impl (p.namingMsg zmsg)) := by
  rw [TransportImpl.dispatchNamingZmsg, readByte_namingType (p := p) (namingType_lt_of_pid h.pid),
    TransportImpl.dispatchNamingMsg]
  simp only [bind, Except.bind, pure, Except.pure, NamingMsg.announces, h.logs]
  by_cases hA : (p.namingMsg zmsg).announces = true
  · have hA' := hA
    rw [NamingMsg.announces] at hA'
    rw [if_pos hA', if_pos hA', readCstr_of_mem (h.uuid (Or.inl hA))]
    dsimp only
    rw [show cstr (zmsg.drop p.uuidOffset) = (p.namingMsg zmsg).mUuid from rfl]
    cases hNew : impl.mPeers.lookup (p.namingMsg zmsg).mUuid with
    | some m => rfl
    | none =>
      rw [h.logs_again, readCstr_of_mem (h.endpoint (Or.inl ⟨hA, hNew⟩))]
      simp only [TransportImpl.connectSocket, TransportImpl.sendEndpointsMsg]
      cases hConnect : calls.connect with
      | false => rfl
      | true =>
        cases hSend : calls.send with
        | false => rfl
        | true =>
          cases hMalloc : calls.malloc with
          | false => rfl
          | true =>
            obtain ⟨hSize, hKey⟩ := h.copy hA hNew hConnect hSend hMalloc
            simp only [memcpyFrom, if_pos hSize, readCstr_copy hKey]
            rfl
  have hA' := hA
  rw [NamingMsg.announces] at hA'
  rw [if_neg hA', if_neg hA']
  by_cases hD : (p.namingMsg zmsg).mType = typeDisconnect
  · rw [if_pos hD, if_pos hD, readCstr_of_mem (h.uuid (Or.inr hD)),
      readCstr_of_mem (h.endpoint (Or.inr (Or.inl hD)))]
    rfl
  rw [if_neg hD, if_neg hD]
  by_cases hW : (p.namingMsg zmsg).mType = typeWelcome
  · rw [if_pos hW, if_pos hW, readCstr_of_mem (h.endpoint (Or.inr (Or.inr hW)))]
    simp only [TransportImpl.connectSocket]
    cases calls.connect with
    | false => rfl
    | true => cases calls.createThread <;> rfl
  · rw [if_neg hW, if_neg hW]

theorem namingFits_of_inside
    (h : Inside (TransportImpl.dispatchNamingZmsg p calls impl zmsg)) :
    NamingFits p calls impl zmsg := by
  obtain ⟨mType, hType, h⟩ := inside_bind.mp h
  obtain rfl : (p.namingMsg zmsg).mType = mType :=
    Except.ok.inj ((readByte_namingType (inside_readByte.mp ⟨_, hType⟩)).symm.trans hType)
  obtain ⟨hLog, h⟩ := inside_then.mp h
  obtain ⟨hPid, hPrinted⟩ := inside_logNamingMsg.mp hLog
  by_cases hA : (p.namingMsg zmsg).announces = true
  · have hA' := hA
    rw [NamingMsg.announces] at hA'
    have hNotD : (p.namingMsg zmsg).mType ≠ typeDisconnect := fun hD => by
      rw [announces_of_disconnect hD] at hA
      cases hA
    have hNotW : (p.namingMsg zmsg).mType ≠ typeWelcome := fun hW => by
      rw [NamingMsg.announces, hW] at hA
      exact absurd hA (by decide)
    rw [if_pos hA'] at h
    obtain ⟨mUuid, hUuid, h⟩ := inside_bind.mp h
    obtain ⟨hU0, rfl⟩ := readCstr_eq_ok hUuid
    cases hNew : impl.mPeers.lookup (p.namingMsg zmsg).mUuid with
    | some m =>
      refine ⟨hPid, hPrinted, fun _ => hU0, ?_, fun _ hNone => ?_⟩
      · rintro (⟨-, hNone⟩ | hD | hW)
        · cases hNew.symm.trans hNone
        · exact absurd hD hNotD
        · exact absurd hW hNotW
      · cases hNew.symm.trans hNone
    | none =>
      have hNew' : impl.mPeers.lookup (cstr (zmsg.drop p.uuidOffset)) = none := hNew
      rw [hNew'] at h
      obtain ⟨-, h⟩ := inside_then.mp h
      obtain ⟨mEndPointAddr, hEndpoint, h⟩ := inside_bind.mp h
      refine ⟨hPid, hPrinted, fun _ => hU0, fun _ => (readCstr_eq_ok hEndpoint).1, ?_⟩
      intro _ _ hConnect hSend hMalloc
      simp only [TransportImpl.connectSocket, TransportImpl.sendEndpointsMsg, hConnect, hSend,
        hMalloc, if_true, ne_eq, not_true_eq_false, if_false, Bool.not_true,
        Bool.false_eq_true] at h
      obtain ⟨copy, hCopy, h⟩ := inside_bind.mp h
      obtain ⟨key, hKey, -⟩ := inside_bind.mp h
      have hSize := inside_memcpyFrom.mp ⟨_, hCopy⟩
      rw [memcpyFrom, if_pos hSize] at hCopy
      obtain rfl := Except.ok.inj hCopy
      exact ⟨hSize, (readCstr_eq_ok hKey).1⟩
  have hA' := hA
  rw [NamingMsg.announces] at hA'
  rw [if_neg hA'] at h
  by_cases hD : (p.namingMsg zmsg).mType = typeDisconnect
  · rw [if_pos hD] at h
    obtain ⟨mUuid, hUuid, h⟩ := inside_bind.mp h
    obtain ⟨mEndPointAddr, hEndpoint, -⟩ := inside_bind.mp h
    exact ⟨hPid, hPrinted, fun _ => (readCstr_eq_ok hUuid).1,
      fun _ => (readCstr_eq_ok hEndpoint).1, fun h => absurd h hA⟩
  rw [if_neg hD] at h
  by_cases hW : (p.namingMsg zmsg).mType = typeWelcome
  · rw [if_pos hW] at h
    obtain ⟨mEndPointAddr, hEndpoint, -⟩ := inside_bind.mp h
    exact ⟨hPid, hPrinted, fun h => absurd h (not_or.mpr ⟨hA, hD⟩),
      fun _ => (readCstr_eq_ok hEndpoint).1, fun h => absurd h hA⟩
  · refine ⟨hPid, hPrinted, fun h => absurd h (not_or.mpr ⟨hA, hD⟩), ?_, fun h => absurd h hA⟩
    rintro (⟨h, -⟩ | h | h)
    · exact absurd h hA
    · exact absurd h hD
    · exact absurd h hW

/-- **The handling of a naming message** stays inside exactly when the message
is empty or what the handler reads is there. -/
theorem receiveNaming_iff (p : Platform) (calls : NamingCalls) (impl : NamingTransport)
    (zmsg : List Byte) :
    Inside (TransportImpl.receiveNaming p calls impl zmsg) ↔
      zmsg = [] ∨ NamingFits p calls impl zmsg := by
  rw [TransportImpl.receiveNaming]
  cases zmsg with
  | nil => exact iff_of_true (inside_pure _) (Or.inl rfl)
  | cons b bs =>
    rw [if_neg (by simp), inside_map]
    constructor
    · exact fun h => Or.inr (namingFits_of_inside h)
    · rintro (h | h)
      · cases h
      · exact ⟨_, dispatchNamingZmsg_eq h⟩

end Naming

end ZmqBridge
