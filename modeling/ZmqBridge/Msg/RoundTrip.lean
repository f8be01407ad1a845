import ZmqBridge.Model.Msg

/-!
# ZmqBridge — the wire format of data messages

The three pieces of cursor arithmetic in `msg.c` — the size computation, the
writer and the reader — agree on one layout:

    subject, null, type byte, reply handle (requests only), null, payload

`wireFormat` writes that layout down as a list; `serialize_wire` shows that the
writer produces exactly it, and `deserialize_wire` what the reader makes of it.
`WireMsg` carries the side conditions a sender guarantees, so that the round
trip is a statement about every such message.

* `serializedSize_wire`  — the size asked for is the size of the layout;
* `serialize_wire`       — every byte of the buffer is written, none outside;
* `deserialize_wire`     — the reader splits the layout where it was joined;
* `serialize_deserialize_roundtrip` — the end-to-end statement.
-/

namespace ZmqBridge

open Lib

/-- A data message as a publisher hands it to `serialize`. -/
structure WireMsg where
  msgType : ZmqMsgType
  subject : List Byte
  replyHandle : List Byte
  payload : List Byte
  msgType_ne : msgType ≠ .unknown
  subject_nulFree : NulFree subject
  subject_le : subject.length ≤ maxSubjectLength
  replyHandle_nulFree : NulFree replyHandle
  replyHandle_le : replyHandle.length ≤ zmqReplyHandleSize
  payload_ne : payload ≠ []

/-- A reply travels under its reply handle, so the receiver copies the subject
of a response to where it keeps the handle. -/
def WireMsg.HandleFits (m : WireMsg) : Prop :=
  m.msgType = .inboxResponse → m.subject.length ≤ zmqReplyHandleSize

instance (m : WireMsg) : Decidable m.HandleFits :=
  inferInstanceAs (Decidable (_ → _))

/-- A data message whose handle the receiver has room for. -/
structure DataMsg extends WireMsg where
  handleFits : toWireMsg.HandleFits

/-- The sending bridge message holds the parts of `m`. -/
structure Carries (impl : ZmqBridgeMsgImpl) (m : WireMsg) : Prop where
  msgType : impl.mMsgType = m.msgType.code
  sendSubject : impl.mSendSubject.Holds m.subject
  replyHandle : impl.mReplyHandle.Holds m.replyHandle

-- ---------------------------------------------------------------------------
-- The layout
-- ---------------------------------------------------------------------------

/-- What stands between the type byte and the separator in front of the
payload. -/
def replyPart (type : Byte) (handle : List Byte) : List Byte :=
  if type = ZmqMsgType.inboxRequest.code then handle else []

/-- The layout of a data message. -/
def wireFormat (type : Byte) (subject handle payload : List Byte) : List Byte :=
  subject ++ 0 :: type :: (replyPart type handle ++ 0 :: payload)

theorem wireFormat_length (type : Byte) (subject handle payload : List Byte) :
    (wireFormat type subject handle payload).length =
      subject.length + 1 + 1 + (replyPart type handle).length + 1 + payload.length := by
  simp only [wireFormat, List.length_append, List.length_cons]
  omega

theorem cstr_wireFormat {type : Byte} {subject handle payload : List Byte}
    (hs : NulFree subject) :
    cstr (wireFormat type subject handle payload) = subject :=
  cstr_append hs

-- ---------------------------------------------------------------------------
-- The writer
-- ---------------------------------------------------------------------------

/-- The size asked for is the size of the layout. -/
theorem serializedSize_wire {impl : ZmqBridgeMsgImpl} {subject handle : List Byte}
    (hSubject : impl.mSendSubject.Holds subject)
    (hHandle : impl.mReplyHandle.Holds handle) (payload : List Byte) :
    MamaMsgImpl.serializedSize impl payload.length =
      .ok (wireFormat impl.mMsgType subject handle payload).length := by
  rw [wireFormat_length, MamaMsgImpl.serializedSize, hSubject.strlen_eq]
  by_cases hReq : impl.mMsgType = ZmqMsgType.inboxRequest.code
  · simp only [hReq, if_true, replyPart, hHandle.strlen_eq, pure, Except.pure,
      bind, Except.bind, Except.ok.injEq]
    omega
  · simp only [hReq, if_false, replyPart, pure, Except.pure, bind, Except.bind,
      List.length_nil, Except.ok.injEq]
    omega

/-- The bytes of an array up to and including the terminator. -/
theorem holds_take_succ {n : Nat} {a : CharArray n} {s : List Byte} (h : a.Holds s) :
    a.bytes.take (s.length + 1) = s ++ [0] := by
  obtain ⟨-, rest, hrest⟩ := h
  rw [hrest]
  simp [List.take_append]

theorem holds_take {n : Nat} {a : CharArray n} {s : List Byte} (h : a.Holds s) :
    a.bytes.take s.length = s := by
  obtain ⟨-, rest, hrest⟩ := h
  rw [hrest, List.take_left]

/-- One more write at the cursor, in the shape the writer's steps leave behind:
`k` is the cursor and `left` what the buffer still has room for. -/
theorem memcpyAt_step {done src : List Byte} {k left : Nat} (hk : k = done.length)
    (hLeft : src.length ≤ left) :
    memcpyAt (filled done left) k src =
      .ok (filled (done ++ src) (left - src.length)) :=
  hk ▸ memcpyAt_filled hLeft

/-- **The writer produces the layout.** Every byte of the buffer is written
(`some`) and no write falls outside it. -/
theorem serialize_wire {impl : ZmqBridgeMsgImpl} {subject handle : List Byte}
    (hSubject : impl.mSendSubject.Holds subject)
    (hHandle : impl.mReplyHandle.Holds handle) (payload : List Byte) :
    MamaMsgImpl.serialize impl (.ok payload) true =
      .ok (.ok ((wireFormat impl.mMsgType subject handle payload).map some)) := by
  have hSize := serializedSize_wire hSubject hHandle payload
  have hLen := wireFormat_length impl.mMsgType subject handle payload
  set total := (wireFormat impl.mMsgType subject handle payload).length with hTotal
  have hFresh : List.replicate total (none : Option Byte) = filled [] total := rfl
  simp only [MamaMsgImpl.serialize, hSize, hSubject.strlen_eq, bind, Except.bind,
    pure, Except.pure, Bool.not_true, Bool.false_eq_true, if_false,
    holds_take_succ hSubject, hFresh]
  rw [memcpyAt_step (by rfl) (by simp; omega)]
  simp only [List.nil_append, List.length_append, List.length_singleton]
  rw [memcpyAt_step (by simp) (by simp; omega)]
  by_cases hReq : impl.mMsgType = ZmqMsgType.inboxRequest.code
  · simp only [replyPart, hReq, if_true] at hLen
    simp only [hReq, if_true, hHandle.strlen_eq, holds_take hHandle]
    rw [memcpyAt_step (by simp) (by simp; omega)]
    simp only
    rw [memcpyAt_step (by simp; omega) (by simp; omega)]
    simp only
    rw [memcpyAt_step (by simp; omega) (by simp; omega)]
    simp [filled, wireFormat, replyPart]
    omega
  · simp only [replyPart, hReq, if_false, List.length_nil] at hLen
    simp only [hReq, if_false]
    rw [memcpyAt_step (by simp) (by simp; omega)]
    simp only
    rw [memcpyAt_step (by simp) (by simp; omega)]
    simp [filled, wireFormat, replyPart, hReq]
    omega

-- ---------------------------------------------------------------------------
-- The reader
-- ---------------------------------------------------------------------------

/-- The offset of the payload in the layout. -/
def payloadPos (type : Byte) (subject handle : List Byte) : Nat :=
  subject.length + 1 + 1 + (replyPart type handle).length + 1

/-- What the reader makes of the part behind the header: the narrowed length
decides, and a non-negative one is handed on with the first payload byte. -/
def decodedPayload (pos : Nat) : List Byte → Except MamaStatus MsgBuffer
  | [] => .error .systemError
  | b :: bs =>
    if narrowInt (b :: bs).length < 0 then .error .systemError
    else .ok ⟨pos, narrowInt (b :: bs).length, b⟩

/-- The reply handle after decoding: taken from the message for a request, the
subject for a response, left alone otherwise. -/
def DecodedHandle (type : Byte) (subject handle : List Byte)
    (old new : CharArray (zmqReplyHandleSize + 1)) : Prop :=
  if type = ZmqMsgType.inboxRequest.code then new.Holds handle
  else if type = ZmqMsgType.inboxResponse.code then new.Holds subject
  else new = old

/-- The last part of the reader, with the cursor at the payload. -/
theorem deserialize_payload {p payload : List Byte} (hPay : payload ≠ [])
    (impl : ZmqBridgeMsgImpl) :
    (if narrowInt ((p ++ payload).length - (p.length : Int)) < 0 then
        (Except.ok (impl, .error .systemError) :
          Except Fault (ZmqBridgeMsgImpl × Except MamaStatus MsgBuffer))
      else (readByte (p ++ payload) p.length).bind fun payloadType =>
        .ok (impl, .ok ⟨p.length,
          narrowInt ((p ++ payload).length - (p.length : Int)), payloadType⟩)) =
      .ok (impl, decodedPayload p.length payload) := by
  obtain ⟨b, bs, rfl⟩ := List.exists_cons_of_ne_nil hPay
  have hLen : ((p ++ b :: bs).length : Int) - p.length = (b :: bs).length := by
    simp
  rw [hLen, readByte_at, decodedPayload]
  split <;> rfl

/-- **The reader splits the layout where the writer joined it.** -/
theorem deserialize_wire {type : Byte} {subject handle payload : List Byte}
    (hs : NulFree subject) (hh : NulFree handle)
    (hHandle : handle.length ≤ zmqReplyHandleSize)
    (hSubject : type = ZmqMsgType.inboxResponse.code →
      subject.length ≤ zmqReplyHandleSize)
    (hPay : payload ≠ []) (impl : ZmqBridgeMsgImpl) :
    ∃ a, DecodedHandle type subject handle impl.mReplyHandle a ∧
      MamaMsgImpl.deserialize impl (wireFormat type subject handle payload) =
        .ok ({ impl with mMsgType := type, mReplyHandle := a },
          decodedPayload (payloadPos type subject handle) payload) := by
  set zmsg := wireFormat type subject handle payload with hz
  -- the three places the cursor stops at
  have hz0 : zmsg = [] ++ (subject ++ 0 :: (type :: (replyPart type handle ++ 0 :: payload))) :=
    rfl
  have hz1 : zmsg = (subject ++ [0]) ++ type :: (replyPart type handle ++ 0 :: payload) := by
    simp [hz, wireFormat]
  have hz2 : zmsg = (subject ++ [0, type]) ++ (replyPart type handle ++ 0 :: payload) := by
    simp [hz, wireFormat]
  have hz3 : zmsg = (subject ++ [0, type] ++ replyPart type handle ++ [0]) ++ payload := by
    simp [hz, wireFormat]
  have hLen0 : strlen zmsg 0 = .ok subject.length := by
    rw [hz0]
    exact strlen_at (p := []) hs
  have hType : readByte zmsg (subject.length + 1) = .ok type := by
    have := readByte_at (p := subject ++ [0]) (b := type)
      (r := replyPart type handle ++ 0 :: payload)
    rw [← hz1] at this
    simpa using this
  have hEnd := deserialize_payload (p := subject ++ [0, type] ++ replyPart type handle ++ [0])
    hPay
  rw [← hz3] at hEnd
  have hPos : (subject ++ [0, type] ++ replyPart type handle ++ [0]).length =
      payloadPos type subject handle := by
    simp [payloadPos]
    omega
  rw [hPos] at hEnd
  by_cases hReq : type = ZmqMsgType.inboxRequest.code
  · have hPart : replyPart type handle = handle := if_pos hReq
    rw [hPart] at hz2
    obtain ⟨a, ha, hHolds⟩ := strcpy_at (d := impl.mReplyHandle)
      (p := subject ++ [0, type]) (r := payload) hh (Nat.lt_succ_of_le hHandle)
    have hLen2 := strlen_at (p := subject ++ [0, type]) (r := payload) hh
    rw [← hz2] at ha hLen2
    simp only [List.length_append, List.length_cons, List.length_nil] at ha hLen2
    refine ⟨a, by rw [DecodedHandle, if_pos hReq]; exact hHolds, ?_⟩
    rw [← hEnd]
    simp only [MamaMsgImpl.deserialize, hLen0, hType, if_pos hReq, ha, hLen2, bind,
      Except.bind, pure, Except.pure, payloadPos, hPart]
  have hPart : replyPart type handle = [] := if_neg hReq
  by_cases hResp : type = ZmqMsgType.inboxResponse.code
  · obtain ⟨a, ha, hHolds⟩ := strcpy_at (d := impl.mReplyHandle) (p := [])
      (r := type :: (replyPart type handle ++ 0 :: payload)) hs
      (Nat.lt_succ_of_le (hSubject hResp))
    rw [← hz0, List.length_nil] at ha
    refine ⟨a, by rw [DecodedHandle, if_neg hReq, if_pos hResp]; exact hHolds, ?_⟩
    rw [← hEnd]
    simp only [MamaMsgImpl.deserialize, hLen0, hType, if_neg hReq, if_pos hResp, ha,
      bind, Except.bind, pure, Except.pure, payloadPos, hPart, List.length_nil,
      Nat.add_zero]
  · refine ⟨impl.mReplyHandle, by rw [DecodedHandle, if_neg hReq, if_neg hResp], ?_⟩
    rw [← hEnd]
    simp only [MamaMsgImpl.deserialize, hLen0, hType, if_neg hReq, if_neg hResp,
      bind, Except.bind, pure, Except.pure, payloadPos, hPart, List.length_nil,
      Nat.add_zero]

/-- A payload that fits an `int` is handed on as it is. -/
theorem decodedPayload_of_lt (pos : Nat) {payload : List Byte} (hPay : payload ≠ [])
    (hLen : payload.length < 2 ^ 31) :
    ∃ b, decodedPayload pos payload = .ok ⟨pos, payload.length, b⟩ := by
  obtain ⟨b, bs, rfl⟩ := List.exists_cons_of_ne_nil hPay
  refine ⟨b, ?_⟩
  rw [decodedPayload, narrowInt_of_lt hLen, if_neg (by omega)]

-- ---------------------------------------------------------------------------
-- Messages a publisher sends
-- ---------------------------------------------------------------------------

/-- The bytes of `m` on the wire. -/
def WireMsg.wire (m : WireMsg) : List Byte :=
  wireFormat m.msgType.code m.subject m.replyHandle m.payload

theorem WireMsg.code_eq_request {m : WireMsg} :
    m.msgType.code = ZmqMsgType.inboxRequest.code ↔ m.msgType = .inboxRequest := by
  cases m.msgType <;> decide

theorem WireMsg.code_eq_response {m : WireMsg} :
    m.msgType.code = ZmqMsgType.inboxResponse.code ↔ m.msgType = .inboxResponse := by
  cases m.msgType <;> decide

/-- A bridge message with the parts of `m` copied in. -/
def WireMsg.bridgeMsg (m : WireMsg) : ZmqBridgeMsgImpl where
  mParent := none
  mMsgType := m.msgType.code
  mReplyHandle := (strSizeCpy (CharArray.zero _) m.replyHandle).1
  mSendSubject := (strSizeCpy (CharArray.zero _) m.subject).1

theorem WireMsg.bridgeMsg_carries (m : WireMsg) : Carries m.bridgeMsg m where
  msgType := rfl
  sendSubject := (strSizeCpy_holds m.subject_nulFree (Nat.lt_succ_of_le m.subject_le)).1
  replyHandle :=
    (strSizeCpy_holds m.replyHandle_nulFree (Nat.lt_succ_of_le m.replyHandle_le)).1

theorem Carries.serialize_eq {impl : ZmqBridgeMsgImpl} {m : WireMsg}
    (h : Carries impl m) :
    MamaMsgImpl.serialize impl (.ok m.payload) true = .ok (.ok (m.wire.map some)) := by
  rw [serialize_wire h.sendSubject h.replyHandle, h.msgType]
  rfl

theorem Carries.serializedSize_eq {impl : ZmqBridgeMsgImpl} {m : WireMsg}
    (h : Carries impl m) :
    MamaMsgImpl.serializedSize impl m.payload.length = .ok m.wire.length := by
  rw [serializedSize_wire h.sendSubject h.replyHandle, h.msgType]
  rfl

/-- Decoding the bytes of a message, whatever the bridge message held before. -/
theorem WireMsg.deserialize_eq {m : WireMsg} (hFits : m.HandleFits)
    (impl : ZmqBridgeMsgImpl) :
    ∃ a, DecodedHandle m.msgType.code m.subject m.replyHandle impl.mReplyHandle a ∧
      MamaMsgImpl.deserialize impl m.wire =
        .ok ({ impl with mMsgType := m.msgType.code, mReplyHandle := a },
          decodedPayload (payloadPos m.msgType.code m.subject m.replyHandle) m.payload) :=
  deserialize_wire m.subject_nulFree m.replyHandle_nulFree m.replyHandle_le
    (fun h => hFits (WireMsg.code_eq_response.mp h)) m.payload_ne impl

/-- The subject of a response that does not fit runs over the end of
`mReplyHandle`. -/
theorem WireMsg.deserialize_overflow {m : WireMsg} (hFits : ¬ m.HandleFits)
    (impl : ZmqBridgeMsgImpl) :
    MamaMsgImpl.deserialize impl m.wire = .error .writeOutside := by
  obtain ⟨hT, hLong⟩ := Classical.not_imp.mp hFits
  have hWire : m.wire = m.subject ++ 0 :: (3 :: ([] ++ 0 :: m.payload)) := by
    rw [WireMsg.wire, wireFormat, hT]
    rfl
  have hLen : strlen m.wire 0 = .ok m.subject.length := by
    rw [hWire]
    exact strlen_at (p := []) m.subject_nulFree
  have hType : readByte m.wire (m.subject.length + 1) = .ok 3 := by
    have := readByte_at (p := m.subject ++ [0]) (b := 3) (r := 0 :: m.payload)
    rw [hWire]
    simpa using this
  have hGo : strcpyGo (m.wire.drop 0) impl.mReplyHandle.bytes = .error .writeOutside := by
    rw [hWire]
    exact strcpyGo_too_long m.subject_nulFree (by rw [impl.mReplyHandle.size_eq]; omega)
  have hCopy := strcpy_of_go_error hGo
  have hReq : (3 : Byte) ≠ ZmqMsgType.inboxRequest.code := by decide
  have hResp : (3 : Byte) = ZmqMsgType.inboxResponse.code := rfl
  simp only [MamaMsgImpl.deserialize, hLen, hType, if_neg hReq, if_pos hResp, hCopy, bind,
    Except.bind]

/-- The reply handle a receiver is to see. -/
def WireMsg.handleSeen (m : WireMsg) : List Byte :=
  match m.msgType with
  | .inboxRequest => m.replyHandle
  | .inboxResponse => m.subject
  | _ => []

/-- What `DecodedHandle` says about a message that carries a handle. -/
theorem WireMsg.decodedHandle_cstr {m : WireMsg}
    {old new : CharArray (zmqReplyHandleSize + 1)}
    (h : DecodedHandle m.msgType.code m.subject m.replyHandle old new) :
    new.cstr = if m.msgType = .pubSub then old.cstr else m.handleSeen := by
  have hne := m.msgType_ne
  unfold DecodedHandle at h
  unfold WireMsg.handleSeen
  cases hT : m.msgType with
  | unknown => exact absurd hT hne
  | pubSub =>
    rw [hT] at h
    rw [show new = old from h]
    rfl
  | inboxRequest =>
    rw [hT] at h
    exact CharArray.Holds.cstr_eq h
  | inboxResponse =>
    rw [hT] at h
    exact CharArray.Holds.cstr_eq h

theorem payloadPos_wire (m : WireMsg) :
    m.wire.drop (payloadPos m.msgType.code m.subject m.replyHandle) = m.payload := by
  have hSplit : m.wire = (m.subject ++ [0, m.msgType.code] ++
      replyPart m.msgType.code m.replyHandle ++ [0]) ++ m.payload := by
    simp [WireMsg.wire, wireFormat]
  rw [hSplit, List.drop_append_of_le_length (by simp [payloadPos]; omega),
    List.drop_eq_nil_of_le (by simp [payloadPos]; omega), List.nil_append]

/--
**Wire-format round trip.** A bridge message that carries `m` is written as
exactly `serializedSize` bytes — the result is `zmsg.map some`, so no byte is
left unwritten, and no fault, so none lies outside — and those bytes, decoded
into a freshly initialised bridge message, give back type, payload and reply
handle. Their leading C string is the subject.
-/
theorem serialize_deserialize_roundtrip {m : DataMsg} {impl : ZmqBridgeMsgImpl}
    (hCarries : Carries impl m.toWireMsg) (hSize : m.wire.length < 2 ^ 31)
    (fresh : ZmqBridgeMsgImpl) :
    ∃ zmsg,
      MamaMsgImpl.serialize impl (.ok m.payload) true = .ok (.ok (zmsg.map some)) ∧
      MamaMsgImpl.serializedSize impl m.payload.length = .ok zmsg.length ∧
      cstr zmsg = m.subject ∧
      ∃ impl' buffer,
        MamaMsgImpl.deserialize (MamaMsgImpl.init fresh) zmsg = .ok (impl', .ok buffer) ∧
        impl'.mMsgType = m.msgType.code ∧
        buffer.payloadSize = m.payload.length ∧
        buffer.bytes zmsg = m.payload ∧
        MamaMsg.getReplyHandle impl' = m.handleSeen := by
  refine ⟨m.wire, hCarries.serialize_eq, hCarries.serializedSize_eq,
    cstr_wireFormat m.subject_nulFree, ?_⟩
  obtain ⟨a, hHandle, hDec⟩ := WireMsg.deserialize_eq m.handleFits (MamaMsgImpl.init fresh)
  have hPay : m.payload.length < 2 ^ 31 := by
    have := wireFormat_length m.msgType.code m.subject m.replyHandle m.payload
    unfold WireMsg.wire at hSize
    omega
  obtain ⟨b, hb⟩ := decodedPayload_of_lt
    (payloadPos m.msgType.code m.subject m.replyHandle) m.payload_ne hPay
  rw [hb] at hDec
  refine ⟨_, _, hDec, rfl, rfl, ?_, ?_⟩
  · rw [MsgBuffer.bytes, payloadPos_wire]
    simp
  · have hcs := WireMsg.decodedHandle_cstr hHandle
    rw [MamaMsg.getReplyHandle, hcs]
    split
    · rename_i hT
      rw [WireMsg.handleSeen, hT]
      exact (CharArray.clear_holds fresh.mReplyHandle).cstr_eq
    · rfl

/-- A request for the subject `A` with reply handle `H` and a payload that
starts with a null. -/
def requestA : DataMsg where
  msgType := .inboxRequest
  subject := [0x41]
  replyHandle := [0x48]
  payload := [0, 7]
  msgType_ne := by decide
  subject_nulFree := by decide
  subject_le := by decide
  replyHandle_nulFree := by decide
  replyHandle_le := by decide
  payload_ne := by decide
  handleFits := by decide

theorem roundtrip_requestA :
    requestA.wire.length < 2 ^ 31 ∧
    ∃ zmsg,
      MamaMsgImpl.serialize requestA.bridgeMsg (.ok [0, 7]) true =
        .ok (.ok (zmsg.map some)) ∧
      MamaMsgImpl.serializedSize requestA.bridgeMsg 2 = .ok zmsg.length ∧
      cstr zmsg = [0x41] ∧
      ∃ impl' buffer,
        MamaMsgImpl.deserialize MamaMsgImpl.createMsgOnly zmsg = .ok (impl', .ok buffer) ∧
        impl'.mMsgType = 0x02 ∧ buffer.payloadSize = 2 ∧
        buffer.bytes zmsg = [0, 7] ∧ MamaMsg.getReplyHandle impl' = [0x48] :=
  have hLen : requestA.wire.length < 2 ^ 31 :=
    Nat.lt_of_lt_of_le (by decide : requestA.wire.length < 2 ^ 4) (by norm_num)
  ⟨hLen, serialize_deserialize_roundtrip requestA.bridgeMsg_carries hLen MamaMsgImpl.calloc⟩

/-- A publish for the subject `B`. -/
def publishB : DataMsg where
  msgType := .pubSub
  subject := [0x42]
  replyHandle := []
  payload := [9]
  msgType_ne := by decide
  subject_nulFree := by decide
  subject_le := by decide
  replyHandle_nulFree := by decide
  replyHandle_le := by decide
  payload_ne := by decide
  handleFits := by decide

end ZmqBridge
