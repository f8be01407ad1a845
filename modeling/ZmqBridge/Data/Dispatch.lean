import ZmqBridge.Data.Registry

/-!
# ZmqBridge — dispatching a message and running its items

The two halves of delivery, each as one equation over a `Registry`: which items
the dispatch thread queues for a message, and which application callback is
called when a queue gets to an item. Neither ever faults on a well-formed
message.

* `Registry.dispatchNormalMsg_spec` — an item for every subscription that
  matches (regular ones only while not muted), or for the inbox that has the
  serial in the subject;
* `Registry.runCallback_spec`       — the record an item was queued for is
  called, if it is still there and not muted, or nobody is.
-/

namespace ZmqBridge

open Lib

variable {κ ρ : Type}

-- ---------------------------------------------------------------------------
-- Messages
-- ---------------------------------------------------------------------------

/-- A data message as it arrives: if its subject is an inbox subject, it is a
reply to a handle of the right length. -/
def DataMsg.Deliverable (m : DataMsg) : Prop :=
  zmqReplyHandlePrefix <+: m.subject →
    m.msgType = .inboxResponse ∧ m.subject.length = zmqReplyHandleSize

instance (m : DataMsg) : Decidable m.Deliverable :=
  inferInstanceAs (Decidable (_ → _))

/-- The buffer decoding hands on, unless it rejects the payload. -/
def DataMsg.buffer (m : DataMsg) : Option MsgBuffer :=
  (decodedPayload (payloadPos m.msgType.code m.subject m.replyHandle) m.payload).toOption

/-- A message whose size fits an `int` is handed on with its payload. -/
theorem DataMsg.buffer_of_lt {m : DataMsg} (hSize : m.wire.length < 2 ^ 31) :
    ∃ buffer, m.buffer = some buffer ∧ buffer.bytes m.wire = m.payload := by
  have hPay : m.payload.length < 2 ^ 31 := by
    have := wireFormat_length m.msgType.code m.subject m.replyHandle m.payload
    unfold WireMsg.wire at hSize
    omega
  obtain ⟨b, hb⟩ := decodedPayload_of_lt
    (payloadPos m.msgType.code m.subject m.replyHandle) m.payload_ne hPay
  refine ⟨_, by rw [DataMsg.buffer, hb]; rfl, ?_⟩
  rw [MsgBuffer.bytes, payloadPos_wire]
  simp

theorem WireMsg.wire_split (m : WireMsg) : ∃ rest, m.wire = m.subject ++ 0 :: rest :=
  ⟨_, rfl⟩

theorem WireMsg.readCstr_wire (m : WireMsg) : readCstr m.wire 0 = .ok m.subject :=
  readCstr_at (p := []) m.subject_nulFree

-- ---------------------------------------------------------------------------
-- Items
-- ---------------------------------------------------------------------------

/-- The item queued for a record that is registered under `name`. -/
def itemFor (callback : Callback) (queue : κ) (target : Nat) (name zmsg : List Byte) :
    Enqueue κ :=
  ⟨queue, target, callback, (strSizeCpy (CharArray.zero _) name).1, zmsg⟩

theorem enqueueMsg_eq {callback : Callback} {queue : κ} {target : Nat}
    {p name r zmsg : List Byte} (hName : NulFree name)
    (hLen : name.length = zmqReplyHandleInboxNameSize) :
    enqueueMsg callback queue target (p ++ (name ++ 0 :: r)) p.length zmsg =
      .ok (itemFor callback queue target name zmsg) := by
  rw [enqueueMsg, strcpy_eq_strSizeCpy hName (by omega)]
  rfl

theorem itemFor_name {callback : Callback} {queue : κ} {target : Nat} {name zmsg : List Byte}
    (hName : NulFree name) (hLen : name.length = zmqReplyHandleInboxNameSize) :
    (itemFor callback queue target name zmsg).tmsg.mEndpointIdentifier.cstr = name :=
  (strSizeCpy_holds hName (by omega)).1.cstr_eq

def ZmqSubscription.item (s : ZmqSubscription κ ρ) (zmsg : List Byte) : Enqueue κ :=
  itemFor s.callback s.mZmqQueue s.handle s.mEndpointIdentifier zmsg

def ZmqInboxImpl.item (i : ZmqInboxImpl κ) (zmsg : List Byte) : Enqueue κ :=
  itemFor .inbox i.mZmqQueue i.handle i.name zmsg

/-- A regular subscription takes the messages whose subject is its key, a
wildcard subscription those that start with its key and that its regex
accepts. -/
def ZmqSubscription.Matches (regexec : ρ → List Byte → Bool) (s : ZmqSubscription κ ρ)
    (subject : List Byte) : Prop :=
  match s.mCompRegex with
  | none => s.mSubjectKey.bytes = subject
  | some regex => s.mSubjectKey.bytes <+: subject ∧ regexec regex subject = true

instance (regexec : ρ → List Byte → Bool) (s : ZmqSubscription κ ρ) (subject : List Byte) :
    Decidable (s.Matches regexec subject) := by
  unfold ZmqSubscription.Matches
  cases s.mCompRegex <;> infer_instance

theorem ZmqSubscription.matches_regular {regexec : ρ → List Byte → Bool}
    {s : ZmqSubscription κ ρ} {subject : List Byte} (h : s.mIsWildcard = false) :
    s.Matches regexec subject ↔ s.mSubjectKey.bytes = subject := by
  have hNone : s.mCompRegex = none := by
    simpa [ZmqSubscription.mIsWildcard] using h
  rw [ZmqSubscription.Matches, hNone]

-- ---------------------------------------------------------------------------
-- Dispatching
-- ---------------------------------------------------------------------------

section Dispatching

variable {impl : DataTransport κ ρ} {made : List (Made κ)} (hReg : Registry impl made)
  (m : DataMsg) (regexec : ρ → List Byte → Bool)

include hReg

/-- Queueing for a live subscription copies its identifier. -/
theorem Registry.enqueueMsg_sub {s : ZmqSubscription κ ρ} (hs : s ∈ impl.subs)
    (zmsg : List Byte) :
    enqueueMsg s.callback s.mZmqQueue s.handle (s.mEndpointIdentifier ++ [0]) 0 zmsg =
      .ok (s.item zmsg) :=
  enqueueMsg_eq (p := []) (r := []) (hReg.names.name_nulFree (hReg.sub_mem_made hs))
    (hReg.names.name_length (hReg.sub_mem_made hs))

theorem Registry.matchWildcards_eq {s : ZmqSubscription κ ρ} (hs : s ∈ impl.subs)
    (hKind : s.mIsWildcard = true) :
    TransportImpl.matchWildcards .untilDifference regexec impl m.wire s.handle =
      .ok (if s.Matches regexec m.subject then some (s.item m.wire) else none) := by
  obtain ⟨regex, hRegex⟩ : ∃ regex, s.mCompRegex = some regex :=
    Option.isSome_iff_exists.mp hKind
  have hEnqueue := hReg.enqueueMsg_sub hs m.wire
  rw [show s.callback = .wildcard from if_pos hKind] at hEnqueue
  have hCmp : memcmpEq .untilDifference m.wire s.mSubjectKey.bytes = _ :=
    memcmpEq_cstr s.mSubjectKey.nulFree
  simp only [TransportImpl.matchWildcards, hReg.sub_eq hs, hCmp, hRegex, m.readCstr_wire,
    hEnqueue, bind, Except.bind, pure, Except.pure, ZmqSubscription.Matches]
  by_cases hPrefix : s.mSubjectKey.bytes <+: m.subject
  · cases hExec : regexec regex m.subject <;> simp [hPrefix]
  · simp [hPrefix]

theorem Registry.queueForSub_eq {s : ZmqSubscription κ ρ} (hs : s ∈ impl.subs)
    (hKind : s.mIsWildcard = false) :
    TransportImpl.queueForSub impl m.wire s.handle =
      .ok (if s.mIsNotMuted = true then some (s.item m.wire) else none) := by
  have hEnqueue := hReg.enqueueMsg_sub hs m.wire
  rw [show s.callback = .sub from if_neg (by simp [hKind])] at hEnqueue
  simp only [TransportImpl.queueForSub, hReg.sub_eq hs, hEnqueue, bind, Except.bind, pure,
    Except.pure]
  cases s.mIsNotMuted <;> rfl

/-- The endpoints the pool has for a subject. -/
theorem Registry.mem_getRegistered {subject : List Byte} {h : Nat} :
    h ∈ endpointPoolGetRegistered impl.mSubEndpoints subject ↔
      ∃ s ∈ impl.subs, s.mIsWildcard = false ∧ s.mSubjectKey.bytes = subject ∧
        s.handle = h := by
  rw [endpointPoolGetRegistered, hReg.mSubEndpoints_eq]
  simp [ZmqSubscription.entry, and_assoc]

theorem Registry.nodup_getRegistered {subject : List Byte} :
    (endpointPoolGetRegistered impl.mSubEndpoints subject).Nodup := by
  have hNodup := (List.nodup_append.mp hReg.nodup).1
  rw [endpointPoolGetRegistered, hReg.mSubEndpoints_eq, List.filter_map, List.map_map]
  exact hNodup.sublist ((List.filter_sublist.trans List.filter_sublist).map _)

/-- The elements of the wildcard list and of the pool are different records. -/
theorem Registry.nodup_endpoints {order : List Nat → List Nat}
    (hOrder : ∀ l, (order l).Perm l) (subject : List Byte) :
    (impl.mWcEndpoints ++
      order (endpointPoolGetRegistered impl.mSubEndpoints subject)).Nodup := by
  have hNodup := (List.nodup_append.mp hReg.nodup).1
  rw [List.nodup_append]
  refine ⟨?_, (hOrder _).nodup_iff.mpr hReg.nodup_getRegistered, ?_⟩
  · rw [hReg.mWcEndpoints_eq]
    exact hNodup.sublist (List.filter_sublist.map _)
  · intro h hWild h' hRegular hEq
    rw [hReg.mWcEndpoints_eq] at hWild
    obtain ⟨s, hs, rfl⟩ := List.mem_map.mp hWild
    obtain ⟨hs, hKind⟩ := List.mem_filter.mp hs
    obtain ⟨t, ht, hKind', -, rfl⟩ := hReg.mem_getRegistered.mp ((hOrder _).mem_iff.mp hRegular)
    rw [hReg.sub_unique hs ht hEq] at hKind
    simp [hKind'] at hKind

/-- What one round of a dispatch loop queues for the record at `h`. -/
def DataTransport.itemIf (impl : DataTransport κ ρ) (p : ZmqSubscription κ ρ → Prop)
    [DecidablePred p] (zmsg : List Byte) (h : Nat) : Option (Enqueue κ) :=
  (impl.subs.find? (·.handle = h)).bind fun s => if p s then some (s.item zmsg) else none

omit hReg in
theorem DataTransport.itemIf_target {p : ZmqSubscription κ ρ → Prop} [DecidablePred p]
    {zmsg : List Byte} (h : Nat) (it : Enqueue κ) (hIt : impl.itemIf p zmsg h = some it) :
    it.target = h := by
  obtain ⟨s, hs, hIf⟩ := Option.bind_eq_some_iff.mp hIt
  split at hIf
  · rw [← Option.some.inj hIf]
    show s.handle = h
    simpa using List.find?_some hs
  · cases hIf

theorem Registry.itemIf_eq {p : ZmqSubscription κ ρ → Prop} [DecidablePred p]
    {zmsg : List Byte} {s : ZmqSubscription κ ρ} (hs : s ∈ impl.subs) :
    impl.itemIf p zmsg s.handle = if p s then some (s.item zmsg) else none := by
  rw [DataTransport.itemIf, find?_of_nodup (List.nodup_append.mp hReg.nodup).1 hs,
    Option.bind_some]

/-- **Dispatching to subscriptions.** -/
theorem Registry.dispatchSubMsg_spec {order : List Nat → List Nat}
    (hOrder : ∀ l, (order l).Perm l) :
    ∃ items status,
      TransportImpl.dispatchSubMsg .untilDifference regexec order impl m.wire =
        .ok (items, status) ∧
      (items.map Enqueue.target).Nodup ∧
      ∀ it, it ∈ items ↔ ∃ s ∈ impl.subs, s.Matches regexec m.subject ∧
        (s.mIsWildcard = true ∨ s.mIsNotMuted = true) ∧ it = s.item m.wire := by
  set found := order (endpointPoolGetRegistered impl.mSubEndpoints m.subject) with hFound
  set wild := impl.itemIf (·.Matches regexec m.subject) m.wire with hWild
  set regular := impl.itemIf (·.mIsNotMuted = true) m.wire with hRegular
  have hWildOk : collect (TransportImpl.matchWildcards .untilDifference regexec impl m.wire)
      impl.mWcEndpoints = .ok (impl.mWcEndpoints.filterMap wild) := by
    refine collect_ok fun h hh => ?_
    rw [hReg.mWcEndpoints_eq] at hh
    obtain ⟨s, hs, rfl⟩ := List.mem_map.mp hh
    obtain ⟨hs, hKind⟩ := List.mem_filter.mp hs
    rw [hReg.matchWildcards_eq m regexec hs hKind, hWild, hReg.itemIf_eq hs]
  have hRegularOk : collect (TransportImpl.queueForSub impl m.wire) found =
      .ok (found.filterMap regular) := by
    refine collect_ok fun h hh => ?_
    obtain ⟨s, hs, hKind, -, rfl⟩ := hReg.mem_getRegistered.mp ((hOrder _).mem_iff.mp hh)
    rw [hReg.queueForSub_eq m hs hKind, hRegular, hReg.itemIf_eq hs]
  refine ⟨impl.mWcEndpoints.filterMap wild ++ found.filterMap regular,
    if found.isEmpty then .notFound else .ok, ?_, ?_, ?_⟩
  · simp only [TransportImpl.dispatchSubMsg, hWildOk, m.readCstr_wire, ← hFound, bind,
      Except.bind, pure, Except.pure]
    split
    · rename_i hEmpty
      rw [List.isEmpty_iff.mp hEmpty]
      simp
    · rw [hRegularOk]
  · rw [List.map_append]
    exact (hReg.nodup_endpoints hOrder m.subject).sublist
      ((filterMap_map_sublist DataTransport.itemIf_target).append
        (filterMap_map_sublist DataTransport.itemIf_target))
  · intro it
    rw [List.mem_append, List.mem_filterMap, List.mem_filterMap]
    constructor
    · rintro (⟨h, hh, hIt⟩ | ⟨h, hh, hIt⟩)
      · rw [hReg.mWcEndpoints_eq] at hh
        obtain ⟨s, hs, rfl⟩ := List.mem_map.mp hh
        obtain ⟨hs, hKind⟩ := List.mem_filter.mp hs
        rw [hWild, hReg.itemIf_eq hs] at hIt
        split at hIt
        · rename_i hMatch
          exact ⟨s, hs, hMatch, Or.inl hKind, (Option.some.inj hIt).symm⟩
        · cases hIt
      · obtain ⟨s, hs, hKind, hKey, rfl⟩ :=
          hReg.mem_getRegistered.mp ((hOrder _).mem_iff.mp hh)
        rw [hRegular, hReg.itemIf_eq hs] at hIt
        split at hIt
        · rename_i hMuted
          exact ⟨s, hs, (ZmqSubscription.matches_regular hKind).mpr hKey, Or.inr hMuted,
            (Option.some.inj hIt).symm⟩
        · cases hIt
    · rintro ⟨s, hs, hMatch, hMuted, rfl⟩
      cases hKind : s.mIsWildcard with
      | true =>
        refine Or.inl ⟨s.handle, ?_, ?_⟩
        · rw [hReg.mWcEndpoints_eq]
          exact List.mem_map.mpr ⟨s, List.mem_filter.mpr ⟨hs, hKind⟩, rfl⟩
        · rw [hWild, hReg.itemIf_eq hs, if_pos hMatch]
      | false =>
        have hKey := (ZmqSubscription.matches_regular hKind).mp hMatch
        refine Or.inr ⟨s.handle, ?_, ?_⟩
        · exact (hOrder _).mem_iff.mpr (hReg.mem_getRegistered.mpr ⟨s, hs, hKind, hKey, rfl⟩)
        · rw [hRegular, hReg.itemIf_eq hs,
            if_pos (hMuted.resolve_left (by simp [hKind]))]

/-- **Dispatching to an inbox.** -/
theorem Registry.dispatchInboxMsg_spec (hLen : m.subject.length = zmqReplyHandleSize) :
    ∃ items status,
      TransportImpl.dispatchInboxMsg impl m.wire = .ok (items, status) ∧
      (items.map Enqueue.target).Nodup ∧
      ∀ it, it ∈ items ↔ ∃ i ∈ impl.inboxes,
        i.name = m.subject.drop zmqReplyHandleInboxNameIndex ∧ it = i.item m.wire := by
  set name := m.subject.drop zmqReplyHandleInboxNameIndex with hName
  have hNul : NulFree name := fun b hb => m.subject_nulFree b (List.mem_of_mem_drop hb)
  have hSize : name.length = zmqReplyHandleInboxNameSize := by
    rw [hName, List.length_drop, hLen]
    rfl
  -- the subject, cut at the fixed offset
  obtain ⟨rest, hrest⟩ := m.wire_split
  have hSplit : m.wire = m.subject.take zmqReplyHandleInboxNameIndex ++ (name ++ 0 :: rest) := by
    rw [hrest, ← List.append_assoc, List.take_append_drop]
  have hIndex : (m.subject.take zmqReplyHandleInboxNameIndex).length =
      zmqReplyHandleInboxNameIndex := by
    rw [List.length_take, hLen]
    rfl
  have hRead : readCstr m.wire zmqReplyHandleInboxNameIndex = .ok name := by
    have := readCstr_at (p := m.subject.take zmqReplyHandleInboxNameIndex) (r := rest) hNul
    rwa [← hSplit, hIndex] at this
  rw [TransportImpl.dispatchInboxMsg, hRead]
  cases hLookup : impl.mInboxes.lookup name with
  | none =>
    refine ⟨[], .notFound, by simp [bind, Except.bind, pure, Except.pure, hLookup],
      List.nodup_nil, fun it => ?_⟩
    refine ⟨fun h => absurd h List.not_mem_nil, ?_⟩
    rintro ⟨i, hi, hEq, -⟩
    have := (hReg.inboxes name i.handle).mpr ⟨i, hi, rfl, hEq⟩
    rw [hLookup] at this
    cases this
  | some h =>
    obtain ⟨i, hi, rfl, hEq⟩ := (hReg.inboxes name h).mp hLookup
    have hEnqueue : enqueueMsg .inbox i.mZmqQueue i.handle m.wire
        zmqReplyHandleInboxNameIndex m.wire = .ok (i.item m.wire) := by
      have : enqueueMsg .inbox i.mZmqQueue i.handle _ _ m.wire = _ :=
        enqueueMsg_eq (p := m.subject.take zmqReplyHandleInboxNameIndex) (r := rest) hNul hSize
      rw [← hSplit, hIndex] at this
      rw [this, ZmqInboxImpl.item, hEq]
    refine ⟨[i.item m.wire], .ok, ?_, List.nodup_singleton _, fun it => ?_⟩
    · simp only [bind, Except.bind, pure, Except.pure, hLookup, hReg.inbox_eq hi, hEnqueue]
    · rw [List.mem_singleton]
      constructor
      · exact fun h => ⟨i, hi, hEq, h⟩
      · rintro ⟨j, hj, hEq', rfl⟩
        have hKey : j.made.key = i.made.key :=
          congrArg (Prod.mk Callback.inbox) (hEq'.trans hEq.symm)
        rw [hReg.inbox_unique hj hi (hReg.names.handle_eq (hReg.inboxes_made j hj)
          (hReg.inboxes_made i hi) hKey)]

omit hReg in
/-- The first bytes of a subject decide who it is for. -/
theorem dispatchNormalMsg_eq (order : List Nat → List Nat) :
    TransportImpl.dispatchNormalMsg .untilDifference regexec order impl m.wire =
      if zmqReplyHandlePrefix <+: m.subject then TransportImpl.dispatchInboxMsg impl m.wire
      else TransportImpl.dispatchSubMsg .untilDifference regexec order impl m.wire := by
  have hCmp : memcmpEq .untilDifference m.wire zmqReplyHandlePrefix = _ :=
    memcmpEq_cstr (by decide : NulFree zmqReplyHandlePrefix)
  by_cases hInbox : zmqReplyHandlePrefix <+: m.subject
  · simp [TransportImpl.dispatchNormalMsg, hCmp, hInbox, bind, Except.bind]
  · simp [TransportImpl.dispatchNormalMsg, hCmp, hInbox, bind, Except.bind]

/-- **What the dispatch thread queues for a message.** -/
theorem Registry.dispatchNormalMsg_spec (hDel : m.Deliverable) {order : List Nat → List Nat}
    (hOrder : ∀ l, (order l).Perm l) :
    ∃ items status,
      TransportImpl.dispatchNormalMsg .untilDifference regexec order impl m.wire =
        .ok (items, status) ∧
      (items.map Enqueue.target).Nodup ∧
      ∀ it, it ∈ items ↔
        (¬ zmqReplyHandlePrefix <+: m.subject ∧ ∃ s ∈ impl.subs,
          s.Matches regexec m.subject ∧ (s.mIsWildcard = true ∨ s.mIsNotMuted = true) ∧
            it = s.item m.wire) ∨
        (zmqReplyHandlePrefix <+: m.subject ∧ ∃ i ∈ impl.inboxes,
          i.name = m.subject.drop zmqReplyHandleInboxNameIndex ∧ it = i.item m.wire) := by
  rw [dispatchNormalMsg_eq m regexec order]
  by_cases hInbox : zmqReplyHandlePrefix <+: m.subject
  · obtain ⟨items, status, hEq, hNodup, hItems⟩ :=
      hReg.dispatchInboxMsg_spec m (hDel hInbox).2
    refine ⟨items, status, by rw [if_pos hInbox, hEq], hNodup, fun it => ?_⟩
    simp [hItems, hInbox]
  · obtain ⟨items, status, hEq, hNodup, hItems⟩ :=
      hReg.dispatchSubMsg_spec m regexec hOrder
    refine ⟨items, status, by rw [if_neg hInbox, hEq], hNodup, fun it => ?_⟩
    simp [hItems, hInbox]

end Dispatching

-- ---------------------------------------------------------------------------
-- Running an item
-- ---------------------------------------------------------------------------

/-- The records that take part in delivery. -/
def DataTransport.live (impl : DataTransport κ ρ) : Set Nat := { h | h ∈ impl.handles }

/-- The records that are not muted; an inbox cannot be. -/
def DataTransport.unmuted (impl : DataTransport κ ρ) : Set Nat :=
  { h | (∃ s ∈ impl.subs, s.handle = h ∧ s.mIsNotMuted = true) ∨
    ∃ i ∈ impl.inboxes, i.handle = h }

theorem DataTransport.mem_live {impl : DataTransport κ ρ} {h : Nat} :
    h ∈ impl.live ↔ (∃ s ∈ impl.subs, s.handle = h) ∨ ∃ i ∈ impl.inboxes, i.handle = h := by
  simp [DataTransport.live, DataTransport.handles]

/-- Whether a record takes a message queued for it: the payload must be
decodable, and an inbox compares the whole reply handle. -/
def Made.wants (r : Made κ) (m : DataMsg) : Bool :=
  m.buffer.isSome && (r.callback ≠ .inbox || r.topic = m.subject)

/-- The item carries `m` and was queued for the record `r`. -/
structure QueuedFor (r : Made κ) (m : DataMsg) (tmsg : ZmqTransportMsg) : Prop where
  callback : tmsg.callback = r.callback
  name : tmsg.mEndpointIdentifier.cstr = r.name
  wire : tmsg.mZmsg = m.wire
  deliverable : m.Deliverable
  sub : r.callback = .sub → r.topic = m.subject
  inbox : r.callback = .inbox ↔ zmqReplyHandlePrefix <+: m.subject

section Running

variable {impl : DataTransport κ ρ} {made : List (Made κ)} (hReg : Registry impl made)
  {target : Nat} {r : Made κ}

include hReg

/-- A live subscription has the parts it was registered with. -/
theorem Registry.made_of_sub (hMade : made[target]? = some r) {s : ZmqSubscription κ ρ}
    (hs : s ∈ impl.subs) (hTarget : s.handle = target) : r = s.made := by
  have := hReg.subs_made s hs
  rw [hTarget, hMade] at this
  exact Option.some.inj this

theorem Registry.made_of_inbox (hMade : made[target]? = some r) {i : ZmqInboxImpl κ}
    (hi : i ∈ impl.inboxes) (hTarget : i.handle = target) : r = i.made := by
  have := hReg.inboxes_made i hi
  rw [hTarget, hMade] at this
  exact Option.some.inj this

/-- A subscription of the kind and with the identifier of `r` is at `target`. -/
theorem Registry.target_of_sub (hMade : made[target]? = some r) {s : ZmqSubscription κ ρ}
    (hs : s ∈ impl.subs) (hKind : s.callback = r.callback)
    (hName : s.mEndpointIdentifier = r.name) : s.handle = target :=
  hReg.names.handle_eq (hReg.subs_made s hs) hMade (Prod.ext hKind hName)

/-- The pool has the subscription an item was queued for, or nothing. -/
theorem Registry.find_sub (hMade : made[target]? = some r) (hCb : r.callback = .sub) :
    (∃ s ∈ impl.subs, s.handle = target ∧
      endpointPoolGetEndpointByIdentifiers impl.mSubEndpoints r.topic r.name =
        some s.handle) ∨
    ((∀ s ∈ impl.subs, s.handle ≠ target) ∧
      endpointPoolGetEndpointByIdentifiers impl.mSubEndpoints r.topic r.name = none) := by
  rw [endpointPoolGetEndpointByIdentifiers, hReg.mSubEndpoints_eq]
  cases hFind : ((impl.subs.filter (·.mIsWildcard = false)).map ZmqSubscription.entry).find?
      (fun e => e.topic = r.topic ∧ e.identifier = r.name) with
  | some e =>
    obtain ⟨s, hs, rfl⟩ := List.mem_map.mp (List.mem_of_find?_eq_some hFind)
    obtain ⟨hs, hKind⟩ := List.mem_filter.mp hs
    have hEq : s.entry.topic = r.topic ∧ s.entry.identifier = r.name := by
      simpa using List.find?_some hFind
    have hKind' : s.callback = r.callback := by
      rw [hCb]
      exact if_neg (by simpa using hKind)
    exact Or.inl ⟨s, hs, hReg.target_of_sub hMade hs hKind' hEq.2, rfl⟩
  | none =>
    refine Or.inr ⟨fun s hs hTarget => ?_, rfl⟩
    have hr := hReg.made_of_sub hMade hs hTarget
    have hKind : s.mIsWildcard = false := by
      rw [hr] at hCb
      simp only [ZmqSubscription.made, ZmqSubscription.callback] at hCb
      split at hCb
      · cases hCb
      · simp_all
    have := List.find?_eq_none.mp hFind s.entry
      (List.mem_map.mpr ⟨s, List.mem_filter.mpr ⟨hs, by simpa using hKind⟩, rfl⟩)
    simp [hr, ZmqSubscription.entry, ZmqSubscription.made] at this

/-- The wildcard list has the subscription an item was queued for, or
nothing. -/
theorem Registry.find_wildcard (hMade : made[target]? = some r)
    (hCb : r.callback = .wildcard) :
    ∃ found, collect (fun handle => do
        let s ← impl.sub handle
        pure (if s.mEndpointIdentifier = r.name then some s else none))
        impl.mWcEndpoints = .ok found ∧
      ((∃ s ∈ impl.subs, s.handle = target ∧ found.getLast? = some s) ∨
        ((∀ s ∈ impl.subs, s.handle ≠ target) ∧ found.getLast? = none)) := by
  set wild := impl.subs.filter (·.mIsWildcard) with hWild
  set found := wild.filterMap fun s =>
    if s.mEndpointIdentifier = r.name then some s else none with hFound
  refine ⟨found, ?_, ?_⟩
  · rw [hReg.mWcEndpoints_eq]
    refine collect_map fun s hs => ?_
    rw [hReg.sub_eq (List.mem_filter.mp hs).1]
    rfl
  have hMem : ∀ s, s ∈ found ↔ s ∈ impl.subs ∧ s.handle = target := by
    intro s
    have hSplit : s ∈ found ↔ s ∈ wild ∧ s.mEndpointIdentifier = r.name := by
      rw [hFound, List.mem_filterMap]
      constructor
      · rintro ⟨t, ht, hIt⟩
        split at hIt
        · rename_i hName
          rw [← Option.some.inj hIt]
          exact ⟨ht, hName⟩
        · cases hIt
      · rintro ⟨hs, hName⟩
        exact ⟨s, hs, if_pos hName⟩
    rw [hSplit]
    constructor
    · rintro ⟨hs, hName⟩
      obtain ⟨hs, hKind⟩ := List.mem_filter.mp hs
      exact ⟨hs, hReg.target_of_sub hMade hs (by rw [hCb]; exact if_pos hKind) hName⟩
    · rintro ⟨hs, hTarget⟩
      have hr := hReg.made_of_sub hMade hs hTarget
      have hKind : s.mIsWildcard = true := by
        rw [hr] at hCb
        simp only [ZmqSubscription.made, ZmqSubscription.callback] at hCb
        split at hCb
        · assumption
        · cases hCb
      exact ⟨List.mem_filter.mpr ⟨hs, hKind⟩, by rw [hr]; rfl⟩
  cases hLast : found.getLast? with
  | none =>
    refine Or.inr ⟨fun s hs hTarget => ?_, rfl⟩
    have hIn := (hMem s).mpr ⟨hs, hTarget⟩
    rw [List.getLast?_eq_none_iff.mp hLast] at hIn
    exact absurd hIn List.not_mem_nil
  | some s =>
    obtain ⟨hs, hTarget⟩ := (hMem s).mp (List.mem_of_getLast? hLast)
    exact Or.inl ⟨s, hs, hTarget, rfl⟩

/-- The inbox table has the inbox an item was queued for, or nothing. -/
theorem Registry.find_inbox (hMade : made[target]? = some r) (hCb : r.callback = .inbox) :
    (∃ i ∈ impl.inboxes, i.handle = target ∧ impl.mInboxes.lookup r.name = some i.handle) ∨
    ((∀ i ∈ impl.inboxes, i.handle ≠ target) ∧ impl.mInboxes.lookup r.name = none) := by
  cases hLookup : impl.mInboxes.lookup r.name with
  | some h =>
    obtain ⟨i, hi, rfl, hName⟩ := (hReg.inboxes r.name h).mp hLookup
    exact Or.inl ⟨i, hi, hReg.names.handle_eq (hReg.inboxes_made i hi) hMade
      (Prod.ext hCb.symm hName), rfl⟩
  | none =>
    refine Or.inr ⟨fun i hi hTarget => ?_, rfl⟩
    have hr := hReg.made_of_inbox hMade hi hTarget
    have := (hReg.inboxes r.name i.handle).mpr ⟨i, hi, rfl, by rw [hr]; rfl⟩
    rw [hLookup] at this
    cases this

end Running

section Callbacks

/-- The common end of the subscription callbacks. -/
theorem processMsg_spec [DecidableEq κ] {tmsg : ZmqTransportMsg} {m : DataMsg}
    (hWire : tmsg.mZmsg = m.wire) (queueMsgs : κ → ZmqBridgeMsgImpl) (s : ZmqSubscription κ ρ) :
    ∃ out, TransportImpl.processMsg tmsg queueMsgs s = .ok out ∧
      out.called = if s.mIsNotMuted = true then m.buffer.map (s.handle, ·) else none := by
  cases hMuted : s.mIsNotMuted with
  | false => exact ⟨⟨queueMsgs, none, none⟩, by simp [TransportImpl.processMsg, hMuted]; rfl, rfl⟩
  | true =>
    obtain ⟨a, -, hDec⟩ := WireMsg.deserialize_eq m.handleFits (queueMsgs s.mZmqQueue)
    rw [if_pos rfl, DataMsg.buffer]
    simp only [TransportImpl.processMsg, hMuted, hWire, hDec, bind, Except.bind, pure,
      Except.pure, Bool.not_true, Bool.false_eq_true, if_false]
    cases decodedPayload (payloadPos m.msgType.code m.subject m.replyHandle) m.payload with
    | error e => exact ⟨_, rfl, rfl⟩
    | ok buffer => exact ⟨_, rfl, rfl⟩

variable {impl : DataTransport κ ρ} {made : List (Made κ)} (hReg : Registry impl made)
  {target : Nat} {r : Made κ} {m : DataMsg} {tmsg : ZmqTransportMsg}

/-- What running an item comes to: its record is called if it is live, not
muted and wants the message, and nobody is called otherwise. -/
def Outcome (impl : DataTransport κ ρ) (target : Nat) (r : Made κ) (m : DataMsg)
    (out : CallbackOutcome κ) : Prop :=
  (target ∈ impl.live → target ∈ impl.unmuted → r.wants m = true →
    ∃ buffer, m.buffer = some buffer ∧ out.called = some (target, buffer)) ∧
  (¬ (target ∈ impl.live ∧ target ∈ impl.unmuted ∧ r.wants m = true) → out.called = none)

/-- Nobody to call. -/
theorem outcome_gone (hGone : target ∉ impl.live) {out : CallbackOutcome κ}
    (h : out.called = none) : Outcome impl target r m out :=
  ⟨fun hLive => absurd hLive hGone, fun _ => h⟩

include hReg

/-- The outcome for a subscription that is still there. -/
theorem Registry.outcome_sub (hMade : made[target]? = some r) {s : ZmqSubscription κ ρ}
    (hs : s ∈ impl.subs) (hTarget : s.handle = target) {out : CallbackOutcome κ}
    (h : out.called = if s.mIsNotMuted = true then m.buffer.map (s.handle, ·) else none) :
    Outcome impl target r m out := by
  have hCb : r.callback ≠ .inbox := by
    rw [hReg.made_of_sub hMade hs hTarget]
    simp only [ZmqSubscription.made, ZmqSubscription.callback]
    split <;> decide
  have hLive : target ∈ impl.live := DataTransport.mem_live.mpr (Or.inl ⟨s, hs, hTarget⟩)
  have hUnmuted : target ∈ impl.unmuted ↔ s.mIsNotMuted = true := by
    constructor
    · rintro (⟨t, ht, hEq, hMuted⟩ | ⟨i, hi, hEq⟩)
      · rw [← hReg.sub_unique ht hs (hEq.trans hTarget.symm)]
        exact hMuted
      · rw [hReg.made_of_inbox hMade hi hEq] at hCb
        exact absurd rfl hCb
    · exact fun hMuted => Or.inl ⟨s, hs, hTarget, hMuted⟩
  have hWants : r.wants m = m.buffer.isSome := by simp [Made.wants, hCb]
  refine ⟨fun _ hu hw => ?_, fun hNot => ?_⟩
  · rw [hWants] at hw
    obtain ⟨buffer, hBuffer⟩ := Option.isSome_iff_exists.mp hw
    refine ⟨buffer, hBuffer, ?_⟩
    rw [h, if_pos (hUnmuted.mp hu), hBuffer, hTarget]
    rfl
  · rw [h]
    split
    · rename_i hMuted
      have hNone : m.buffer = none := by
        by_contra hSome
        exact hNot ⟨hLive, hUnmuted.mpr hMuted, by
          rw [hWants]; exact Option.isSome_iff_ne_none.mpr hSome⟩
      rw [hNone]
      rfl
    · rfl

variable [DecidableEq κ]

theorem Registry.subCallback_spec (hMade : made[target]? = some r)
    (hFor : QueuedFor r m tmsg) (hCb : r.callback = .sub) (queueMsgs : κ → ZmqBridgeMsgImpl) :
    ∃ out, TransportImpl.subCallback impl tmsg queueMsgs = .ok out ∧
      Outcome impl target r m out := by
  simp only [TransportImpl.subCallback, hFor.wire, m.readCstr_wire, bind, Except.bind,
    hFor.name, ← hFor.sub hCb]
  rcases hReg.find_sub hMade hCb with ⟨s, hs, hTarget, hFind⟩ | ⟨hGone, hFind⟩
  · rw [hFind]
    obtain ⟨out, hOut, hCalled⟩ := processMsg_spec hFor.wire queueMsgs s
    exact ⟨out, by simp only [hReg.sub_eq hs, hOut],
      hReg.outcome_sub hMade hs hTarget hCalled⟩
  · rw [hFind]
    refine ⟨⟨queueMsgs, none, none⟩, rfl, outcome_gone ?_ rfl⟩
    intro hLive
    rcases DataTransport.mem_live.mp hLive with ⟨s, hs, hEq⟩ | ⟨i, hi, hEq⟩
    · exact hGone s hs hEq
    · rw [hReg.made_of_inbox hMade hi hEq] at hCb
      cases hCb

theorem Registry.wcCallback_spec (hMade : made[target]? = some r) (hFor : QueuedFor r m tmsg)
    (hCb : r.callback = .wildcard) (queueMsgs : κ → ZmqBridgeMsgImpl) :
    ∃ out, TransportImpl.wcCallback impl tmsg queueMsgs = .ok out ∧
      Outcome impl target r m out := by
  obtain ⟨found, hFound, hLast⟩ := hReg.find_wildcard hMade hCb
  rw [TransportImpl.wcCallback, hFor.name, hFound]
  simp only [bind, Except.bind]
  rcases hLast with ⟨s, hs, hTarget, hLast⟩ | ⟨hGone, hLast⟩
  · rw [hLast]
    obtain ⟨out, hOut, hCalled⟩ := processMsg_spec hFor.wire queueMsgs s
    exact ⟨out, hOut, hReg.outcome_sub hMade hs hTarget hCalled⟩
  · rw [hLast]
    refine ⟨⟨queueMsgs, none, none⟩, rfl, outcome_gone ?_ rfl⟩
    intro hLive
    rcases DataTransport.mem_live.mp hLive with ⟨s, hs, hEq⟩ | ⟨i, hi, hEq⟩
    · exact hGone s hs hEq
    · rw [hReg.made_of_inbox hMade hi hEq] at hCb
      cases hCb

theorem Registry.inboxCallback_spec (hMade : made[target]? = some r)
    (hFor : QueuedFor r m tmsg) (hCb : r.callback = .inbox)
    (queueMsgs : κ → ZmqBridgeMsgImpl) :
    ∃ out, TransportImpl.inboxCallback impl tmsg queueMsgs = .ok out ∧
      Outcome impl target r m out := by
  rw [TransportImpl.inboxCallback, hFor.name]
  rcases hReg.find_inbox hMade hCb with ⟨i, hi, hTarget, hFind⟩ | ⟨hGone, hFind⟩
  · rw [hFind]
    obtain ⟨hType, hSize⟩ := hFor.deliverable (hFor.inbox.mp hCb)
    obtain ⟨a, hHandle, hDec⟩ := WireMsg.deserialize_eq m.handleFits (queueMsgs i.mZmqQueue)
    have hSeen : a.cstr = m.subject := by
      rw [WireMsg.decodedHandle_cstr hHandle, hType, if_neg (by decide), WireMsg.handleSeen,
        hType]
    have hOn : ∀ msg : ZmqBridgeMsgImpl, msg.mReplyHandle = a →
        InboxImpl.onMsg i msg = decide (r.topic = m.subject) := by
      intro msg hMsg
      have hLen : m.subject.length ≠ 0 := by
        rw [hSize]
        decide
      rw [hReg.made_of_inbox hMade hi hTarget]
      simp only [InboxImpl.onMsg, MamaMsg.getReplyHandle, hMsg, hSeen, if_neg hLen,
        ZmqInboxImpl.made]
      by_cases hEq : i.mReplyHandle = m.subject <;> simp [hEq]
    have hLive : target ∈ impl.live := DataTransport.mem_live.mpr (Or.inr ⟨i, hi, hTarget⟩)
    have hUnmuted : target ∈ impl.unmuted := Or.inr ⟨i, hi, hTarget⟩
    have hWants : r.wants m = (m.buffer.isSome && decide (r.topic = m.subject)) := by
      simp [Made.wants, hCb]
    simp only [hReg.inbox_eq hi, hFor.wire, hDec, bind, Except.bind, pure, Except.pure]
    cases hPay : decodedPayload (payloadPos m.msgType.code m.subject m.replyHandle)
        m.payload with
    | error e =>
      have hNone : m.buffer = none := by rw [DataMsg.buffer, hPay]; rfl
      refine ⟨_, rfl, fun _ _ hw => ?_, fun _ => rfl⟩
      rw [hWants, hNone] at hw
      cases hw
    | ok buffer =>
      have hSome : m.buffer = some buffer := by rw [DataMsg.buffer, hPay]; rfl
      rw [hSome, Option.isSome_some, Bool.true_and] at hWants
      refine ⟨_, rfl, fun _ _ hw => ⟨buffer, hSome, ?_⟩, fun hNot => ?_⟩
      · rw [hWants] at hw
        simp only [hOn, hw, if_true, hTarget]
      · have hOff : decide (r.topic = m.subject) = false := by
          rw [← hWants]
          by_contra h
          exact hNot ⟨hLive, hUnmuted, by simpa using h⟩
        simp only [hOn, hOff]
        rfl
  · rw [hFind]
    refine ⟨⟨queueMsgs, none, none⟩, rfl, outcome_gone ?_ rfl⟩
    intro hLive
    rcases DataTransport.mem_live.mp hLive with ⟨s, hs, hEq⟩ | ⟨i, hi, hEq⟩
    · rw [hReg.made_of_sub hMade hs hEq] at hCb
      simp only [ZmqSubscription.made, ZmqSubscription.callback] at hCb
      split at hCb <;> cases hCb
    · exact hGone i hi hEq

/-- **What running an item comes to.** -/
theorem Registry.runCallback_spec (hMade : made[target]? = some r) (hFor : QueuedFor r m tmsg)
    (queueMsgs : κ → ZmqBridgeMsgImpl) :
    ∃ out, TransportImpl.runCallback impl tmsg queueMsgs = .ok out ∧
      Outcome impl target r m out := by
  rw [TransportImpl.runCallback, hFor.callback]
  cases hCb : r.callback with
  | inbox => exact hReg.inboxCallback_spec hMade hFor hCb queueMsgs
  | sub => exact hReg.subCallback_spec hMade hFor hCb queueMsgs
  | wildcard => exact hReg.wcCallback_spec hMade hFor hCb queueMsgs

end Callbacks

end ZmqBridge
