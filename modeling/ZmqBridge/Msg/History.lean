import ZmqBridge.Msg.RoundTrip

/-!
# ZmqBridge — decoding into a reused bridge message

The callbacks of a queue decode every message into the one bridge message the
queue keeps, and nobody calls `zmqBridgeMamaMsgImpl_init` in between. A request
or a response overwrites the reply handle; a plain publish leaves it alone. So
what the application sees after a publish depends on what was decoded before it.

* `observedAfter_eq`       — what is observed after any history, in closed form;
* `historyIndependent_iff` — the history is invisible exactly when every handle
  fits and the message carries one itself or the history left none behind;
* `request_then_publish`   — a publish that reports the handle of an earlier
  request.
-/

namespace ZmqBridge

open Lib

/-- What the application can ask a decoded message for. -/
structure Observed where
  mMsgType : Byte
  replyHandle : List Byte
  isFromInbox : Nat
  deriving DecidableEq, Repr

def observe (impl : ZmqBridgeMsgImpl) : Observed where
  mMsgType := impl.mMsgType
  replyHandle := MamaMsg.getReplyHandle impl
  isFromInbox := MamaMsg.isFromInbox impl

/-- Decode the messages one after another into the same bridge message. -/
def decodeAll (impl : ZmqBridgeMsgImpl) : List (List Byte) →
    Except Fault ZmqBridgeMsgImpl
  | [] => pure impl
  | zmsg :: rest => do
    let (impl, _) ← MamaMsgImpl.deserialize impl zmsg
    decodeAll impl rest

/-- Decode a history and then `m` into a bridge message that starts out
freshly initialised. -/
def observedAfter (fresh : ZmqBridgeMsgImpl) (history : List WireMsg) (m : WireMsg) :
    Except Fault Observed := do
  let impl ← decodeAll (MamaMsgImpl.init fresh) ((history ++ [m]).map WireMsg.wire)
  pure (observe impl)

/-- The observation after decoding `m` behind `history` is that of decoding `m`
alone into a freshly initialised message. -/
def HistoryIndependent (history : List WireMsg) (m : WireMsg) : Prop :=
  ∀ fresh fresh', ∃ o,
    observedAfter fresh history m = .ok o ∧ observedAfter fresh' [] m = .ok o

/-- The reply handle a history leaves behind: that of its last request or
response, none if there was no such message. -/
def handleLeft (history : List WireMsg) : List Byte :=
  history.foldl (fun h m => if m.msgType = .pubSub then h else m.handleSeen) []

theorem handleLeft_snoc (history : List WireMsg) (m : WireMsg) :
    handleLeft (history ++ [m]) =
      if m.msgType = .pubSub then handleLeft history else m.handleSeen := by
  rw [handleLeft, List.foldl_append]
  rfl

-- ---------------------------------------------------------------------------
-- What a history leaves behind
-- ---------------------------------------------------------------------------

/-- The first byte of the array decides whether the string in it is empty. -/
theorem head_ne_iff_cstr {n : Nat} (a : CharArray (n + 1)) :
    a.bytes.head? ≠ some 0 ↔ a.cstr ≠ [] := by
  have hLen := a.size_eq
  unfold CharArray.cstr cstr
  match hB : a.bytes with
  | [] => simp [hB] at hLen
  | b :: bs =>
    by_cases hb : b = 0
    · simp [hb]
    · simp [hb]

theorem isFromInbox_eq (impl : ZmqBridgeMsgImpl) :
    MamaMsg.isFromInbox impl =
      if impl.mMsgType = ZmqMsgType.inboxRequest.code ∨ impl.mReplyHandle.cstr ≠ []
      then 1 else 0 := by
  unfold MamaMsg.isFromInbox
  by_cases hReq : impl.mMsgType = ZmqMsgType.inboxRequest.code
  · rw [if_pos hReq, if_pos (Or.inl hReq)]
  · rw [if_neg hReq]
    by_cases hCs : impl.mReplyHandle.cstr = []
    · have hHead := (head_ne_iff_cstr impl.mReplyHandle).not.mpr (not_not.mpr hCs)
      rw [if_neg hHead, if_neg (not_or.mpr ⟨hReq, not_not.mpr hCs⟩)]
    · rw [if_pos ((head_ne_iff_cstr impl.mReplyHandle).mpr hCs), if_pos (Or.inr hCs)]

theorem decodeAll_append (impl : ZmqBridgeMsgImpl) (as bs : List (List Byte)) :
    decodeAll impl (as ++ bs) = (decodeAll impl as).bind fun impl' => decodeAll impl' bs := by
  induction as generalizing impl with
  | nil => rfl
  | cons z as ih =>
    rw [List.cons_append, decodeAll, decodeAll]
    cases MamaMsgImpl.deserialize impl z with
    | error e => rfl
    | ok r => exact ih r.1

/-- Decoding one message: the type is the message's, and the handle is too
unless it is a plain publish. -/
theorem decode_one {m : WireMsg} (hFits : m.HandleFits) (impl : ZmqBridgeMsgImpl) :
    ∃ impl', decodeAll impl [m.wire] = .ok impl' ∧
      impl'.mMsgType = m.msgType.code ∧
      impl'.mReplyHandle.cstr =
        if m.msgType = .pubSub then impl.mReplyHandle.cstr else m.handleSeen := by
  obtain ⟨a, hHandle, hDec⟩ := WireMsg.deserialize_eq hFits impl
  have hOne : decodeAll impl [m.wire] =
      .ok { impl with mMsgType := m.msgType.code, mReplyHandle := a } := by
    rw [decodeAll, hDec]
    rfl
  exact ⟨_, hOne, rfl, WireMsg.decodedHandle_cstr hHandle⟩

/-- **The handle survives.** A history of messages whose handles fit does not
fault, and the bridge message ends up with the handle the history left behind. -/
theorem decodeAll_handle (fresh : ZmqBridgeMsgImpl) (history : List WireMsg)
    (hFits : ∀ r ∈ history, r.HandleFits) :
    ∃ impl, decodeAll (MamaMsgImpl.init fresh) (history.map WireMsg.wire) = .ok impl ∧
      impl.mReplyHandle.cstr = handleLeft history := by
  induction history using List.reverseRecOn with
  | nil => exact ⟨_, rfl, (CharArray.clear_holds fresh.mReplyHandle).cstr_eq⟩
  | append_singleton history m ih =>
    obtain ⟨impl, hDec, hHandle⟩ := ih fun r hr => hFits r (by simp [hr])
    obtain ⟨impl', hOne, -, hHandle'⟩ := decode_one (hFits m (by simp)) impl
    refine ⟨impl', ?_, ?_⟩
    · rw [List.map_append, decodeAll_append, hDec]
      exact hOne
    · rw [hHandle', handleLeft_snoc, hHandle]

/-- One handle that does not fit makes the whole sequence fault. -/
theorem decodeAll_overflow {messages : List WireMsg}
    (hLong : ¬ ∀ r ∈ messages, r.HandleFits) (impl : ZmqBridgeMsgImpl) :
    ∃ e, decodeAll impl (messages.map WireMsg.wire) = .error e := by
  induction messages generalizing impl with
  | nil => exact absurd (fun r hr => absurd hr List.not_mem_nil) hLong
  | cons m rest ih =>
    rw [List.map_cons, decodeAll]
    by_cases hm : m.HandleFits
    · obtain ⟨a, -, hDec⟩ := WireMsg.deserialize_eq hm impl
      rw [hDec]
      refine ih (fun hRest => hLong ?_) _
      rintro r (_ | ⟨_, hr⟩)
      · exact hm
      · exact hRest r hr
    · rw [WireMsg.deserialize_overflow hm impl]
      exact ⟨_, rfl⟩

/-- What is observed after a history, in closed form. -/
theorem observedAfter_eq (fresh : ZmqBridgeMsgImpl) (history : List WireMsg) (m : WireMsg)
    (hFits : ∀ r ∈ history ++ [m], r.HandleFits) :
    observedAfter fresh history m = .ok
      { mMsgType := m.msgType.code
        replyHandle := handleLeft (history ++ [m])
        isFromInbox :=
          if m.msgType = .inboxRequest ∨ handleLeft (history ++ [m]) ≠ [] then 1 else 0 } := by
  obtain ⟨impl, hDec, hHandle⟩ := decodeAll_handle fresh history
    fun r hr => hFits r (List.mem_append_left [m] hr)
  obtain ⟨impl', hOne, hType, hHandle'⟩ := decode_one (hFits m (by simp)) impl
  have hLeft : impl'.mReplyHandle.cstr = handleLeft (history ++ [m]) := by
    rw [hHandle', handleLeft_snoc, hHandle]
  have hAll : decodeAll (MamaMsgImpl.init fresh) ((history ++ [m]).map WireMsg.wire) =
      .ok impl' := by
    rw [List.map_append, decodeAll_append, hDec]
    exact hOne
  rw [observedAfter, hAll]
  show Except.ok (observe impl') = _
  rw [observe, isFromInbox_eq, MamaMsg.getReplyHandle, hType, hLeft]
  simp only [WireMsg.code_eq_request]

theorem observedAfter_overflow (fresh : ZmqBridgeMsgImpl) {history : List WireMsg}
    {m : WireMsg} (hLong : ¬ ∀ r ∈ history ++ [m], r.HandleFits) :
    ∃ e, observedAfter fresh history m = .error e := by
  obtain ⟨e, he⟩ := decodeAll_overflow hLong (MamaMsgImpl.init fresh)
  exact ⟨e, by rw [observedAfter, he]; rfl⟩

-- ---------------------------------------------------------------------------
-- History independence
-- ---------------------------------------------------------------------------

/-- The history is invisible exactly when `m` leaves the same handle behind it
as alone. -/
theorem historyIndependent_iff_handleLeft {history : List WireMsg} {m : WireMsg}
    (hFits : ∀ r ∈ history ++ [m], r.HandleFits) :
    HistoryIndependent history m ↔ handleLeft (history ++ [m]) = handleLeft [m] := by
  have hBehind := fun fresh => observedAfter_eq fresh history m hFits
  have hAlone := fun fresh => observedAfter_eq fresh [] m
    fun r hr => hFits r (List.mem_append_right history hr)
  constructor
  · intro h
    obtain ⟨o, ho, ho'⟩ := h MamaMsgImpl.calloc MamaMsgImpl.calloc
    rw [hBehind] at ho
    rw [hAlone] at ho'
    cases ho
    injection ho' with hEq
    exact (congrArg Observed.replyHandle hEq).symm
  · intro h fresh fresh'
    refine ⟨_, hBehind fresh, ?_⟩
    rw [hAlone, List.nil_append, h]

/--
**When the history is invisible.** The observation after decoding `m` behind a
history is that of decoding it alone exactly when no response has a subject too
long for `mReplyHandle`, and `m` is itself a request or a response or the last
request or response of the history left an empty handle. Under the same length
condition a publish is reported as not coming from an inbox exactly when no
handle was left behind.
-/
theorem historyIndependent_iff (history : List WireMsg) (m : WireMsg) :
    (HistoryIndependent history m ↔
      (∀ r ∈ history ++ [m], r.HandleFits) ∧
        (m.msgType ≠ .pubSub ∨ handleLeft history = [])) ∧
    (m.msgType = .pubSub → ∀ fresh,
      ((∃ o, observedAfter fresh history m = .ok o ∧ o.isFromInbox = 0) ↔
        (∀ r ∈ history ++ [m], r.HandleFits) ∧ handleLeft history = [])) := by
  by_cases hFits : ∀ r ∈ history ++ [m], r.HandleFits
  · refine ⟨?_, ?_⟩
    · rw [historyIndependent_iff_handleLeft hFits, handleLeft_snoc]
      rw [iff_true_intro hFits, true_and]
      by_cases hT : m.msgType = .pubSub
      · -- a publish shows the handle left behind; alone it shows none
        simp [hT, handleLeft]
      · -- a request or a response brings its own handle
        simp [hT, handleLeft]
    · intro hT fresh
      rw [observedAfter_eq fresh history m hFits, handleLeft_snoc, if_pos hT,
        iff_true_intro hFits]
      simp [hT]
  · refine ⟨⟨fun h => ?_, fun h => absurd h.1 hFits⟩,
      fun _ fresh => ⟨?_, fun h => absurd h.1 hFits⟩⟩
    · obtain ⟨o, ho, -⟩ := h MamaMsgImpl.calloc MamaMsgImpl.calloc
      obtain ⟨e, he⟩ := observedAfter_overflow MamaMsgImpl.calloc hFits
      rw [he] at ho
      cases ho
    · rintro ⟨o, ho, -⟩
      obtain ⟨e, he⟩ := observedAfter_overflow fresh hFits
      rw [he] at ho
      cases ho

/-- A request followed by a publish on the same queue: the publish reports the
request's reply handle and claims to come from an inbox. -/
theorem request_then_publish :
    let request := requestA.toWireMsg
    let publish := publishB.toWireMsg
    observedAfter MamaMsgImpl.calloc [request] publish = .ok ⟨0x01, [0x48], 1⟩ ∧
    observedAfter MamaMsgImpl.calloc [] publish = .ok ⟨0x01, [], 0⟩ ∧
    ¬ HistoryIndependent [request] publish := by
  intro request publish
  have hBehind : observedAfter MamaMsgImpl.calloc [request] publish =
      .ok ⟨0x01, [0x48], 1⟩ := observedAfter_eq _ _ _ (by decide)
  have hAlone : observedAfter MamaMsgImpl.calloc [] publish = .ok ⟨0x01, [], 0⟩ :=
    observedAfter_eq _ _ _ (by decide)
  refine ⟨hBehind, hAlone, fun h => ?_⟩
  obtain ⟨o, ho, ho'⟩ := h MamaMsgImpl.calloc MamaMsgImpl.calloc
  rw [hBehind] at ho
  rw [hAlone] at ho'
  cases ho
  cases ho'

end ZmqBridge
