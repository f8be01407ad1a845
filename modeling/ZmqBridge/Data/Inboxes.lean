import ZmqBridge.Msg.Send
import ZmqBridge.Data.Delivery

/-!
# ZmqBridge — replies reach exactly their inbox

Any number of transports side by side. A reply is routed by the serial at a
fixed offset of its subject, so replies for inboxes of other transports can get
as far as an inbox's queue; the comparison of the whole reply handle decides.
Reply handles are never given out twice, neither by one transport over time nor
by two transports.

* `reply_subject`        — the handle of an inbox, carried through a request, its
  decoding and the reply, is the subject of the reply;
* `replyHandle_unique`   — no two inboxes ever had the same handle;
* `inbox_replies_exact`.
-/

namespace ZmqBridge

open Lib

variable {κ ρ : Type}

-- ---------------------------------------------------------------------------
-- The handle's way through request and reply
-- ---------------------------------------------------------------------------

/-- A reply handle as `zmqBridgeMamaInbox_createByIndex` makes it. -/
def IsReplyHandle (handle : List Byte) : Prop :=
  NulFree handle ∧ handle.length = zmqReplyHandleSize

/-- **Request and reply.** Decoding a request that was sent from an inbox and
replying to it gives a message whose subject is the inbox's reply handle. -/
theorem reply_subject {callsReq callsRep : SendCalls} {pubReq pubRep : ZmqPublisherBridge}
    {inbox : ZmqInboxImpl κ} {request reply : List Byte} {impl msg : ZmqBridgeMsgImpl}
    {result : Except MamaStatus MsgBuffer} {status status' : MamaStatus}
    (hHandle : IsReplyHandle inbox.mReplyHandle) (hPay : callsReq.getByteBuffer ≠ .ok [])
    (hRequest : Publisher.sendFromInboxByIndex callsReq pubReq inbox =
      .ok (some (request.map some), status))
    (hDecode : MamaMsgImpl.deserialize impl request = .ok (msg, result))
    (hReply : Publisher.sendReplyToInbox callsRep pubRep msg =
      .ok (some (reply.map some), status')) : cstr reply = inbox.mReplyHandle := by
  -- the request
  have hFits := Nat.le_of_eq hHandle.2
  obtain ⟨a, ha, hSet⟩ := setReplyHandle_holds
    (MamaMsgImpl.setMsgType (MamaMsgImpl.init callsReq.stack) .inboxRequest) hHandle.1 hFits
  rw [Publisher.sendFromInboxByIndex, hSet, ok_bind, sendSubject_eq callsReq pubReq none ha
    (CharArray.clear_holds _) (fun s hs => by cases hs)] at hRequest
  obtain ⟨payload, hBuffer, rfl⟩ := SendCalls.sent_of_outcome (Except.ok.inj hRequest)
  -- its decoding
  obtain ⟨b, hb, hDec⟩ := deserialize_wire (sentSubject_nulFree pubReq.mSubject_nulFree)
    hHandle.1 hFits
    (fun hResp : ZmqMsgType.inboxRequest.code = _ => absurd hResp (by decide))
    (fun hNil => hPay (hNil ▸ hBuffer)) impl
  obtain ⟨rfl, -⟩ := Prod.mk.inj (Except.ok.inj (hDec.symm.trans hDecode))
  have hSeen : b.cstr = inbox.mReplyHandle := by
    rw [DecodedHandle, if_pos rfl] at hb
    exact hb.cstr_eq
  -- the reply
  obtain ⟨a', ha', hSet'⟩ := setReplyHandle_holds
    (MamaMsgImpl.setMsgType (MamaMsgImpl.init callsRep.stack) .inboxResponse) hHandle.1 hFits
  simp only [Publisher.sendReplyToInbox, MamaMsg.getReplyHandle, hSeen] at hReply
  rw [Publisher.sendReplyToInboxHandle, hSet', ok_bind, sendSubject_eq callsRep pubRep
    (some inbox.mReplyHandle) ha' (CharArray.clear_holds _)
    (fun s hs => by cases hs; exact hHandle.1)] at hReply
  obtain ⟨payload', -, rfl⟩ := SendCalls.sent_of_outcome (Except.ok.inj hReply)
  rw [Option.some_or, sentSubject_of_le (by rw [hHandle.2]; decide)]
  exact cstr_wireFormat hHandle.1

-- ---------------------------------------------------------------------------
-- Inboxes of one transport
-- ---------------------------------------------------------------------------

/-- The record with handle `h` is an inbox with this reply handle. -/
def World.IsInbox (w : World κ ρ) (h : Nat) (replyHandle : List Byte) : Prop :=
  ∃ r, w.made[h]? = some r ∧ r.callback = .inbox ∧ r.topic = replyHandle

/-- The run `as` makes the call `c` of an inbox: the message has the inbox's
reply handle as its subject, and the inbox is registered when the message
arrives and when the queue runs the item. -/
def World.MakesInboxCall [DecidableEq κ] (L : Libraries ρ) (w₀ : World κ ρ)
    (as : List (WorldAct κ ρ)) (c : Call) (replyHandle : List Byte) : Prop :=
  ∃ pre m mid q post w₁ w₂ w₂',
    as = pre ++ .arrive m :: mid ++ .runQueue q :: post ∧ m.subject = replyHandle ∧
    run (World.step L) w₀ pre = some w₁ ∧ w₁.arrivals.length = c.arrival ∧
    (∃ i ∈ w₁.impl.inboxes, i.handle = c.target ∧ i.mReplyHandle = replyHandle) ∧
    run (World.step L) w₀ (pre ++ .arrive m :: mid) = some w₂ ∧
    (∃ i ∈ w₂.impl.inboxes, i.handle = c.target) ∧
    World.step L w₂ (.runQueue q) = some w₂' ∧ w₂'.calls = w₂.calls ++ [c] ∧
    (m.wire.length < 2 ^ 31 → c.payload = m.payload)

/-- An inbox only wants messages to its reply handle. -/
theorem Made.topic_of_wants {r : Made κ} {m : DataMsg} (hCb : r.callback = .inbox)
    (hWants : r.wants m = true) : r.topic = m.subject := by
  simp only [Made.wants, hCb, Bool.and_eq_true] at hWants
  simpa using hWants.2

/-- What ends up as an inbox never was a subscription. -/
theorem World.Inv.not_sub {w₁ w : World κ ρ} (hInv : w₁.Inv) (hExt : w₁.Extends w) {h : Nat}
    {replyHandle : List Byte} (hInbox : w.IsInbox h replyHandle) :
    ∀ s ∈ w₁.impl.subs, s.handle ≠ h := by
  rintro s hs rfl
  obtain ⟨r, hr, hCb, -⟩ := hInbox
  have hMade := getElem?_of_prefixed hExt.made (hInv.registry.subs_made s hs)
  rw [hr] at hMade
  cases hMade
  simp only [ZmqSubscription.made, ZmqSubscription.callback] at hCb
  split at hCb <;> cases hCb

section OneTransport

variable [DecidableEq κ] {L : Libraries ρ} {mUuid : Uuid} {queueMsgs : κ → ZmqBridgeMsgImpl}
  {as : List (WorldAct κ ρ)} {w : World κ ρ}

theorem World.step_uuid {a : WorldAct κ ρ} {w' : World κ ρ}
    (h : World.step L w a = some w') : w'.impl.mUuid = w.impl.mUuid := by
  cases a with
  | create | createWildcard | createInbox | shareQueue =>
    cases h
    rfl
  | mute | dispatchControl =>
    simp only [World.step] at h
    split at h <;> cases h
    rfl
  | arrive =>
    simp only [World.step] at h
    split at h
    · split at h <;> cases h <;> rfl
    · cases h
  | runQueue =>
    simp only [World.step] at h
    split at h
    · cases h
    · split at h <;> cases h <;> rfl
  | destroy handle =>
    simp only [World.step] at h
    split at h
    · split at h
      · cases h
        rfl
      · rename_i impl' sent status hDestroy
        cases h
        obtain ⟨-, -, -, hUuid, -⟩ := destroy_ok hDestroy
        exact hUuid
    · cases h
  | destroyInbox handle =>
    simp only [World.step] at h
    split at h
    · split at h
      · cases h
        rfl
      · rename_i impl' hDestroy
        cases h
        rw [Inbox.destroy] at hDestroy
        cases hInbox : w.impl.inbox handle with
        | error e =>
          rw [hInbox] at hDestroy
          cases hDestroy
        | ok inbox =>
          rw [hInbox] at hDestroy
          cases hDestroy
          rfl
    · cases h

variable (hRun : run (World.step L) (World.init mUuid queueMsgs) as = some w)

include hRun

theorem World.uuid_run : w.impl.mUuid = mUuid :=
  run_invariant (J := fun w => w.impl.mUuid = mUuid)
    (fun _ _ _ h ha => (World.step_uuid ha).trans h) rfl hRun

variable (hBound : creations as < 2 ^ 64)

include hBound

/-- The reply handles of a transport carry its uuid. -/
theorem World.isInbox_eq {h : Nat} {replyHandle : List Byte}
    (hInbox : w.IsInbox h replyHandle) :
    ∃ r, w.made[h]? = some r ∧ r.callback = .inbox ∧
      replyHandle = (zmqReplyHandlePrefix ++ dot :: mUuid.bytes) ++ dot :: r.name := by
  obtain ⟨r, hr, hCb, rfl⟩ := hInbox
  refine ⟨r, hr, hCb, ?_⟩
  have hTopic := (World.inv_run hRun hBound).1.registry.topics r (List.mem_of_getElem? hr) hCb
  rw [DataTransport.mInboxSubject, World.uuid_run hRun] at hTopic
  exact hTopic

/-- Reply handles have the form the wire format makes room for. -/
theorem World.isReplyHandle {h : Nat} {replyHandle : List Byte}
    (hInbox : w.IsInbox h replyHandle) : IsReplyHandle replyHandle := by
  obtain ⟨r, hr, -, rfl⟩ := World.isInbox_eq hRun hBound hInbox
  have hNames := (World.inv_run hRun hBound).1.registry.names
  have hName := hNames.name_nulFree (List.mem_of_getElem? hr)
  have hLen := hNames.name_length (List.mem_of_getElem? hr)
  constructor
  · have hPrefix : NulFree zmqReplyHandlePrefix := by decide
    have hDot : dot ≠ 0 := by decide
    simp [hPrefix, hDot, mUuid.nulFree, hName]
  · have hPrefix : zmqReplyHandlePrefix.length = 6 := rfl
    simp only [List.length_append, List.length_cons, hPrefix, mUuid.length_eq, hLen]
    rfl

/-- A call of an inbox goes back to a message with its reply handle. -/
theorem World.inboxCall_origin {c : Call} (hc : c ∈ w.calls) {replyHandle : List Byte}
    (hInbox : w.IsInbox c.target replyHandle) :
    World.MakesInboxCall L (World.init mUuid queueMsgs) as c replyHandle := by
  obtain ⟨o⟩ := World.call_origin hRun hBound hc
  obtain ⟨r, hr, hCb, rfl⟩ := id hInbox
  have hRecord : o.record = r :=
    Option.some.inj ((getElem?_of_prefixed o.extends_arriving.made o.made_eq).symm.trans hr)
  have hSubject : r.topic = o.m.subject := Made.topic_of_wants hCb (hRecord ▸ o.wants)
  refine ⟨o.pre, o.m, o.mid, o.queue, o.post, o.arriving, o.running, o.done, o.acts_eq,
    hSubject.symm, o.run_arriving, o.arrival_eq, ?_, o.run_running, ?_, o.step_eq, o.calls_eq,
    fun hSize => (World.inv_run hRun hBound).1.payload_eq hc o.arrived hSize⟩
  · rcases o.queues with ⟨-, s, hs, hEq, -⟩ | ⟨-, i, hi, hEq, -⟩
    · exact absurd hEq (o.inv_arriving.not_sub o.extends_arriving hInbox s hs)
    · refine ⟨i, hi, hEq, ?_⟩
      rw [← hRecord, o.inv_arriving.registry.made_of_inbox o.made_eq hi hEq]
      rfl
  · rcases DataTransport.mem_live.mp o.live with ⟨s, hs, hEq⟩ | ⟨i, hi, hEq⟩
    · exact absurd hEq (o.inv_running.not_sub o.extends_running hInbox s hs)
    · exact ⟨i, hi, hEq⟩

/-- A message with an inbox subject is only ever handed to an inbox with that
reply handle. -/
theorem World.isInbox_of_call {c : Call} (hc : c ∈ w.calls) {m : DataMsg}
    (hm : w.arrivals[c.arrival]? = some m) (hPrefix : zmqReplyHandlePrefix <+: m.subject) :
    w.IsInbox c.target m.subject := by
  obtain ⟨o⟩ := World.call_origin hRun hBound hc
  obtain rfl : o.m = m := Option.some.inj (o.arrived.symm.trans hm)
  have hMade := getElem?_of_prefixed o.extends_arriving.made o.made_eq
  rcases o.queues with ⟨hSub, -⟩ | ⟨-, i, hi, hEq, -⟩
  · exact absurd hPrefix hSub
  have hRecord := o.inv_arriving.registry.made_of_inbox o.made_eq hi hEq
  have hCb : o.record.callback = .inbox := by
    rw [hRecord]
    rfl
  exact ⟨o.record, hMade, hCb, Made.topic_of_wants hCb o.wants⟩

end OneTransport

-- ---------------------------------------------------------------------------
-- Any number of transports
-- ---------------------------------------------------------------------------

section Transports

variable {ι : Type} [DecidableEq ι] [DecidableEq κ] {U : ι → Uuid} {L : ι → Libraries ρ}
  {queueMsgs : ι → κ → ZmqBridgeMsgImpl} {as : List (ι × WorldAct κ ρ)} {W : ι → World κ ρ}

/-- No two inboxes ever had the same reply handle. -/
theorem replyHandle_unique (hUuids : ∀ i j, (U i).bytes = (U j).bytes → i = j)
    (hRun : run (together fun i => World.step (L i))
      (fun i => World.init (U i) (queueMsgs i)) as = some W)
    (hBound : ∀ i, creations (actionsOf i as) < 2 ^ 64) {i j : ι} {h h' : Nat}
    {replyHandle : List Byte} (hi : (W i).IsInbox h replyHandle)
    (hj : (W j).IsInbox h' replyHandle) : j = i ∧ h' = h := by
  obtain ⟨r, hr, hCb, hEq⟩ := World.isInbox_eq (run_together hRun i) (hBound i) hi
  obtain ⟨r', hr', hCb', hEq'⟩ := World.isInbox_eq (run_together hRun j) (hBound j) hj
  have hLen : (zmqReplyHandlePrefix ++ dot :: (U j).bytes).length =
      (zmqReplyHandlePrefix ++ dot :: (U i).bytes).length := by
    simp [(U i).length_eq, (U j).length_eq]
  obtain ⟨hSubject, hSerial⟩ := List.append_inj (hEq'.symm.trans hEq) hLen
  have hUuid : (U j).bytes = (U i).bytes :=
    (List.cons.inj (List.append_cancel_left hSubject)).2
  obtain rfl := hUuids j i hUuid
  have hKey : r'.key = r.key :=
    Prod.ext (hCb'.trans hCb.symm) (List.cons.inj hSerial).2
  exact ⟨rfl, (World.inv_run (run_together hRun j) (hBound j)).1.registry.names.handle_eq
    hr' hr hKey⟩

/--
**Replies reach exactly their inbox.** For any number of transports with
distinct uuids and fewer than 2^64 creations each, in every interleaving:

* an inbox is called at most once for a message and in arrival order, only for
  messages whose subject is its reply handle, and only while it is registered
  from the message's arrival until the item runs;
* an inbox that is registered as long as the item waits is called exactly once
  — or the item still waits;
* a reply to a request that was sent from an inbox is handed to that inbox or
  to nobody, at any transport.
-/
theorem inbox_replies_exact (hUuids : ∀ i j, (U i).bytes = (U j).bytes → i = j)
    (hRun : run (together fun i => World.step (L i))
      (fun i => World.init (U i) (queueMsgs i)) as = some W)
    (hBound : ∀ i, creations (actionsOf i as) < 2 ^ 64) :
    (∀ i, (W i).faulted = false ∧ (∀ h, ((W i).callsOf h).Pairwise (· < ·)) ∧
      (∀ c ∈ (W i).calls, ∀ replyHandle, (W i).IsInbox c.target replyHandle →
        World.MakesInboxCall (L i) (World.init (U i) (queueMsgs i)) (actionsOf i as) c
          replyHandle) ∧
      (∀ pre m post w₁, actionsOf i as = pre ++ .arrive m :: post →
        run (World.step (L i)) (World.init (U i) (queueMsgs i)) pre = some w₁ →
        m.wire.length < 2 ^ 31 → ∀ inbox ∈ w₁.impl.inboxes, inbox.mReplyHandle = m.subject →
        (∀ mid post' w', post = mid ++ post' →
          run (World.step (L i)) (World.init (U i) (queueMsgs i)) (pre ++ .arrive m :: mid) =
            some w' → w₁.arrivals.length ∈ w'.waiting inbox.handle →
          ∃ inbox' ∈ w'.impl.inboxes, inbox'.handle = inbox.handle) →
        ((W i).callsOf inbox.handle).count w₁.arrivals.length +
          ((W i).waiting inbox.handle).count w₁.arrivals.length = 1)) ∧
    (∀ i h (inbox : ZmqInboxImpl κ), (W i).IsInbox h inbox.mReplyHandle →
      ∀ callsReq callsRep pubReq pubRep request reply impl msg result status status',
      callsReq.getByteBuffer ≠ .ok [] →
      Publisher.sendFromInboxByIndex callsReq pubReq inbox =
        .ok (some (request.map some), status) →
      MamaMsgImpl.deserialize impl request = .ok (msg, result) →
      Publisher.sendReplyToInbox callsRep pubRep msg = .ok (some (reply.map some), status') →
      ∀ j, ∀ c ∈ (W j).calls, ∀ m, (W j).arrivals[c.arrival]? = some m → m.wire = reply →
        j = i ∧ c.target = h) := by
  refine ⟨fun i => ?_, ?_⟩
  · have hRun' := run_together hRun i
    refine ⟨(World.inv_run hRun' (hBound i)).1.notFaulted, fun h => ?_,
      fun c hc replyHandle hInbox => World.inboxCall_origin hRun' (hBound i) hc hInbox, ?_⟩
    · exact (List.pairwise_append.mp (World.calls_ordered hRun' (hBound i) h)).1
    intro pre m post w₁ hActs hPre hSize inbox hMem hSubject hStay
    rw [hActs] at hRun'
    have hBound' : creations (pre ++ .arrive m :: post) < 2 ^ 64 := hActs ▸ hBound i
    have hParts := hBound'
    simp only [creations, List.countP_append, List.countP_cons] at hParts
    have hInv₁ := (World.inv_run hPre (by rw [creations]; omega)).1
    have hMade := hInv₁.registry.inboxes_made inbox hMem
    have hIsInbox : w₁.IsInbox inbox.handle inbox.mReplyHandle := ⟨inbox.made, hMade, rfl, rfl⟩
    obtain ⟨r, hr, -, hForm⟩ := World.isInbox_eq hPre (by rw [creations]; omega) hIsInbox
    have hPrefix : zmqReplyHandlePrefix <+: m.subject := by
      rw [← hSubject]
      exact ⟨_, by rw [hForm, List.append_assoc]⟩
    have hWants : inbox.made.wants m = true := by
      obtain ⟨buffer, hBuffer, -⟩ := DataMsg.buffer_of_lt hSize
      have hTopic : inbox.made.topic = m.subject := hSubject
      simp [Made.wants, hBuffer, hTopic]
    refine World.delivered_once hRun' hBound' hPre (Or.inr ⟨hPrefix, inbox, hMem, rfl, ?_⟩)
      hMade hWants ?_
    · rw [← hSubject]
      rfl
    · intro mid post' w' hEq hMid hWaits
      obtain ⟨inbox', hMem', hHandle⟩ := hStay mid post' w' hEq hMid hWaits
      exact ⟨DataTransport.mem_live.mpr (Or.inr ⟨inbox', hMem', hHandle⟩),
        Or.inr ⟨inbox', hMem', hHandle⟩⟩
  · intro i h inbox hInbox callsReq callsRep pubReq pubRep request reply impl msg result status
      status' hPay hRequest hDecode hReply j c hc m hm hWire
    have hHandle := World.isReplyHandle (run_together hRun i) (hBound i) hInbox
    have hSubject : m.subject = inbox.mReplyHandle := by
      rw [← reply_subject hHandle hPay hRequest hDecode hReply, ← hWire]
      exact (cstr_wireFormat m.subject_nulFree).symm
    obtain ⟨r, -, -, hForm⟩ := World.isInbox_eq (run_together hRun i) (hBound i) hInbox
    have hPrefix : zmqReplyHandlePrefix <+: m.subject := by
      rw [hSubject]
      exact ⟨_, by rw [hForm, List.append_assoc]⟩
    have hTarget := World.isInbox_of_call (run_together hRun j) (hBound j) hc hm hPrefix
    rw [hSubject] at hTarget
    exact replyHandle_unique hUuids hRun hBound hInbox hTarget

end Transports

def uuidB : Uuid where
  bytes := List.replicate uuidStringSize 0x62
  length_eq := by decide
  nulFree := by decide

/-- A reply to the first inbox of the transport with `uuidA`. -/
def replyToA : DataMsg where
  msgType := .inboxResponse
  subject := (zmqReplyHandlePrefix ++ dot :: uuidA.bytes) ++ dot :: serial 1
  replyHandle := []
  payload := [7]
  msgType_ne := by decide
  subject_nulFree := by decide
  subject_le := by decide
  replyHandle_nulFree := publishB.replyHandle_nulFree
  replyHandle_le := publishB.replyHandle_le
  payload_ne := by decide
  handleFits := by decide

/-- Two transports with an inbox each, whose serials are the same; both receive
the reply to the first. -/
def replyAcross : List (Bool × WorldAct Unit Unit) :=
  [(true, .createInbox ()), (false, .createInbox ()), (false, .arrive replyToA),
    (true, .arrive replyToA), (false, .runQueue ()), (true, .runQueue ())]

theorem replies_exact_across :
    ∃ W : Bool → World Unit Unit,
      run (together fun _ => World.step acceptAll)
        (fun i => World.init (if i then uuidA else uuidB) fun _ => MamaMsgImpl.createMsgOnly)
        replyAcross = some W ∧
      (W true).calls = [⟨0, 0, [7]⟩] ∧ (W false).calls = [] ∧
      World.MakesInboxCall acceptAll (World.init uuidA fun _ => MamaMsgImpl.createMsgOnly)
        (actionsOf true replyAcross) ⟨0, 0, [7]⟩ replyToA.subject := by
  have hRun : run (together fun _ => World.step acceptAll)
      (fun i => World.init (if i then uuidA else uuidB) fun _ => MamaMsgImpl.createMsgOnly)
      replyAcross = some _ := rfl
  have hExact := inbox_replies_exact (U := fun i : Bool => if i then uuidA else uuidB)
    (by decide) hRun (by decide)
  obtain ⟨-, -, hOrigin, -⟩ := hExact.1 true
  exact ⟨_, hRun, rfl, rfl,
    hOrigin _ (List.mem_singleton_self _) replyToA.subject ⟨_, rfl, rfl, by decide⟩⟩

end ZmqBridge
