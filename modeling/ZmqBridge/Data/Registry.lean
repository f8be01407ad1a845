import ZmqBridge.Model.Transport
import ZmqBridge.Msg.RoundTrip

/-!
# ZmqBridge — what is registered at a transport

Subscriptions and inboxes are found through three tables, by identifiers that
three counters hand out. `Registry` relates the tables to the records that
exist and to the list of everything ever registered: as long as no counter has
run over, an identifier belongs to one record for good, also when that record
is gone, so a lookup finds the record that was meant or nothing.

* `Registry.create`, `Registry.createWildcard`, `Registry.createInbox`,
  `Registry.mute`, `Registry.destroy`, `Registry.destroyInbox` — every operation
  keeps the relation, and following a pointer in it never fails;
* `Registry.find_sub`, `Registry.find_wildcard`, `Registry.find_inbox` — the
  lookups of the three callbacks.
-/

namespace ZmqBridge

open Lib

variable {κ ρ : Type}

-- ---------------------------------------------------------------------------
-- Serials
-- ---------------------------------------------------------------------------

/-- The text of a serial number. -/
def serial (c : Nat) : List Byte := hexDigits zmqReplyHandleInboxNameSize c

theorem serial_length (c : Nat) : (serial c).length = zmqReplyHandleInboxNameSize :=
  hexDigits_length _ c

theorem serial_nulFree (c : Nat) : NulFree (serial c) := hexDigits_nulFree _ c

theorem serial_injective {c d : Nat} (hc : c < 2 ^ 64) (hd : d < 2 ^ 64)
    (h : serial c = serial d) : c = d :=
  hexDigits_injective (by norm_num [zmqReplyHandleInboxNameSize]; omega)
    (by norm_num [zmqReplyHandleInboxNameSize]; omega) h

theorem generateSerial_of_lt {id : Nat} (h : id + 1 < 2 ^ 64) :
    generateSerial id = (id + 1, serial (id + 1)) := by
  rw [generateSerial, Nat.mod_eq_of_lt h]
  rfl

-- ---------------------------------------------------------------------------
-- Everything ever registered
-- ---------------------------------------------------------------------------

/-- What stays the same about a record from its registration on. The record
registered as number `n` has the handle `n`. -/
structure Made (κ : Type) where
  callback : Callback
  name : List Byte
  queue : κ
  topic : List Byte

/-- What a callback looks a record up by. -/
def Made.key (r : Made κ) : Callback × List Byte := (r.callback, r.name)

def ZmqSubscription.callback (s : ZmqSubscription κ ρ) : Callback :=
  if s.mIsWildcard then .wildcard else .sub

def ZmqSubscription.made (s : ZmqSubscription κ ρ) : Made κ :=
  ⟨s.callback, s.mEndpointIdentifier, s.mZmqQueue, s.mSubjectKey.bytes⟩

/-- The part of the reply handle an inbox is registered under. -/
def ZmqInboxImpl.name (i : ZmqInboxImpl κ) : List Byte :=
  i.mReplyHandle.drop zmqReplyHandleInboxNameIndex

def ZmqInboxImpl.made (i : ZmqInboxImpl κ) : Made κ :=
  ⟨.inbox, i.name, i.mZmqQueue, i.mReplyHandle⟩

/-- The counter behind each kind of record. -/
def DataTransport.uid (impl : DataTransport κ ρ) : Callback → Nat
  | .inbox => impl.mInboxUid
  | .sub => impl.mSubUid
  | .wildcard => impl.mWcsUid

/-- No two records ever registered have the same key. -/
structure Names (uid : Callback → Nat) (made : List (Made κ)) : Prop where
  nodup : (made.map Made.key).Nodup
  issued : ∀ r ∈ made, ∃ c, c ≤ uid r.callback ∧ r.name = serial c
  uid_le : ∀ c, uid c ≤ made.length

theorem Names.name_nulFree {uid : Callback → Nat} {made : List (Made κ)}
    (h : Names uid made) {r : Made κ} (hr : r ∈ made) : NulFree r.name := by
  obtain ⟨c, -, hName⟩ := h.issued r hr
  exact hName ▸ serial_nulFree c

theorem Names.name_length {uid : Callback → Nat} {made : List (Made κ)}
    (h : Names uid made) {r : Made κ} (hr : r ∈ made) :
    r.name.length = zmqReplyHandleInboxNameSize := by
  obtain ⟨c, -, hName⟩ := h.issued r hr
  exact hName ▸ serial_length c

/-- A key determines the handle. -/
theorem Names.handle_eq {uid : Callback → Nat} {made : List (Made κ)}
    (h : Names uid made) {m n : Nat} {r t : Made κ} (hm : made[m]? = some r)
    (hn : made[n]? = some t) (hKey : r.key = t.key) : m = n := by
  have hLt : m < (made.map Made.key).length := by
    simpa using (List.getElem?_eq_some_iff.mp hm).1
  refine (List.getElem?_inj hLt h.nodup).mp ?_
  rw [List.getElem?_map, List.getElem?_map, hm, hn, Option.map_some, Option.map_some, hKey]

/-- Registering one more record under the next serial of its counter. -/
theorem Names.add {uid : Callback → Nat} {made : List (Made κ)} (h : Names uid made)
    (hBound : made.length + 1 < 2 ^ 64) {r : Made κ}
    (hName : r.name = serial (uid r.callback + 1)) :
    Names (Function.update uid r.callback (uid r.callback + 1)) (made ++ [r]) := by
  have hLe := h.uid_le r.callback
  refine ⟨?_, ?_, ?_⟩
  · rw [List.map_append, List.nodup_append]
    refine ⟨h.nodup, List.nodup_singleton _, ?_⟩
    intro k hk l hl hEq
    obtain ⟨t, ht, rfl⟩ := List.mem_map.mp hk
    have hKey : t.key = r.key := hEq.trans (List.mem_singleton.mp hl)
    have hCb : t.callback = r.callback := congrArg Prod.fst hKey
    have hNames : t.name = r.name := congrArg Prod.snd hKey
    obtain ⟨c, hc, hSerial⟩ := h.issued t ht
    rw [hCb] at hc
    have := serial_injective (c := c) (d := uid r.callback + 1) (by omega) (by omega)
      (hSerial.symm.trans (hNames.trans hName))
    omega
  · intro t ht
    rcases List.mem_append.mp ht with ht | ht
    · obtain ⟨c, hc, hSerial⟩ := h.issued t ht
      refine ⟨c, hc.trans ?_, hSerial⟩
      rw [Function.update_apply]
      split
      · rename_i hCb
        rw [hCb]
        omega
      · exact Nat.le_refl _
    · rw [List.mem_singleton.mp ht]
      exact ⟨_, by rw [Function.update_self], hName⟩
  · intro c
    have hc := h.uid_le c
    rw [List.length_append, List.length_singleton, Function.update_apply]
    split <;> omega

-- ---------------------------------------------------------------------------
-- The tables
-- ---------------------------------------------------------------------------

/-- The pool entry of a regular subscription. -/
def ZmqSubscription.entry (s : ZmqSubscription κ ρ) : PoolEntry :=
  ⟨s.mSubjectKey.bytes, s.mEndpointIdentifier, s.handle⟩

/-- The transport with `subs` as its subscriptions, all of them registered. -/
def DataTransport.withSubs (impl : DataTransport κ ρ) (subs : List (ZmqSubscription κ ρ)) :
    DataTransport κ ρ :=
  { impl with
    subs
    mSubEndpoints := (subs.filter (·.mIsWildcard = false)).map ZmqSubscription.entry
    mWcEndpoints := (subs.filter (·.mIsWildcard)).map ZmqSubscription.handle }

/-- All handles that are in use. -/
def DataTransport.handles (impl : DataTransport κ ρ) : List Nat :=
  impl.subs.map ZmqSubscription.handle ++ impl.inboxes.map ZmqInboxImpl.handle

structure Registry (impl : DataTransport κ ρ) (made : List (Made κ)) : Prop where
  names : Names impl.uid made
  nodup : impl.handles.Nodup
  tables : impl = impl.withSubs impl.subs
  subs_made : ∀ s ∈ impl.subs, made[s.handle]? = some s.made
  inboxes_made : ∀ i ∈ impl.inboxes, made[i.handle]? = some i.made
  inboxes : ∀ name h, impl.mInboxes.lookup name = some h ↔
    ∃ i ∈ impl.inboxes, i.handle = h ∧ i.name = name
  topics : ∀ r ∈ made, r.callback = .inbox →
    r.topic = impl.mInboxSubject ++ dot :: r.name

/-- Finding an element by what identifies it. -/
theorem find?_of_nodup {α : Type} {f : α → Nat} {l : List α} (hNodup : (l.map f).Nodup)
    {a : α} (ha : a ∈ l) : l.find? (fun b => f b = f a) = some a := by
  cases hFind : l.find? (fun b => f b = f a) with
  | none =>
    have := List.find?_eq_none.mp hFind a ha
    simp at this
  | some b =>
    have hEq : f b = f a := by simpa using List.find?_some hFind
    rw [List.inj_on_of_nodup_map hNodup (List.mem_of_find?_eq_some hFind) ha hEq]

/-- Removing an element by what identifies it. -/
theorem eraseP_of_nodup {α : Type} {f : α → Nat} {l : List α} (hNodup : (l.map f).Nodup)
    (n : Nat) : l.eraseP (fun b => f b = n) = l.filter (fun b => f b ≠ n) := by
  induction l with
  | nil => rfl
  | cons a l ih =>
    rw [List.map_cons, List.nodup_cons] at hNodup
    by_cases ha : f a = n
    · -- nothing behind `a` has its number
      have hRest : l.filter (fun b => f b ≠ n) = l := by
        rw [List.filter_eq_self]
        intro b hb
        have hne : f b ≠ n := fun h => hNodup.1 (List.mem_map.mpr ⟨b, hb, h.trans ha.symm⟩)
        simpa using hne
      rw [List.eraseP_cons_of_pos (by simpa using ha),
        List.filter_cons_of_neg (by simpa using ha), hRest]
    · rw [List.eraseP_cons_of_neg (by simpa using ha),
        List.filter_cons_of_pos (by simpa using ha), ih hNodup.2]

section Pointers

variable {impl : DataTransport κ ρ} {made : List (Made κ)} (hReg : Registry impl made)

include hReg

theorem Registry.sub_unique {s t : ZmqSubscription κ ρ} (hs : s ∈ impl.subs)
    (ht : t ∈ impl.subs) (h : s.handle = t.handle) : s = t :=
  List.inj_on_of_nodup_map (List.nodup_append.mp hReg.nodup).1 hs ht h

theorem Registry.inbox_unique {i j : ZmqInboxImpl κ} (hi : i ∈ impl.inboxes)
    (hj : j ∈ impl.inboxes) (h : i.handle = j.handle) : i = j :=
  List.inj_on_of_nodup_map (List.nodup_append.mp hReg.nodup).2.1 hi hj h

/-- Two subscriptions of a kind with the same identifier are the same. -/
theorem Registry.sub_of_name {s t : ZmqSubscription κ ρ} (hs : s ∈ impl.subs)
    (ht : t ∈ impl.subs) (hKind : s.mIsWildcard = t.mIsWildcard)
    (hName : s.mEndpointIdentifier = t.mEndpointIdentifier) : s = t := by
  have hKey : s.made.key = t.made.key := by
    simp [Made.key, ZmqSubscription.made, ZmqSubscription.callback, hKind, hName]
  exact hReg.sub_unique hs ht
    (hReg.names.handle_eq (hReg.subs_made s hs) (hReg.subs_made t ht) hKey)

/-- Following a pointer to a live subscription. -/
theorem Registry.sub_eq {s : ZmqSubscription κ ρ} (hs : s ∈ impl.subs) :
    impl.sub s.handle = .ok s := by
  rw [DataTransport.sub, find?_of_nodup (List.nodup_append.mp hReg.nodup).1 hs]

theorem Registry.inbox_eq {i : ZmqInboxImpl κ} (hi : i ∈ impl.inboxes) :
    impl.inbox i.handle = .ok i := by
  rw [DataTransport.inbox, find?_of_nodup (List.nodup_append.mp hReg.nodup).2.1 hi]

theorem Registry.sub_mem_made {s : ZmqSubscription κ ρ} (hs : s ∈ impl.subs) :
    s.made ∈ made :=
  List.mem_of_getElem? (hReg.subs_made s hs)

theorem Registry.inbox_mem_made {i : ZmqInboxImpl κ} (hi : i ∈ impl.inboxes) :
    i.made ∈ made :=
  List.mem_of_getElem? (hReg.inboxes_made i hi)

theorem Registry.handle_lt {h : Nat} (hh : h ∈ impl.handles) : h < made.length := by
  rcases List.mem_append.mp hh with hh | hh
  · obtain ⟨s, hs, rfl⟩ := List.mem_map.mp hh
    exact (List.getElem?_eq_some_iff.mp (hReg.subs_made s hs)).1
  · obtain ⟨i, hi, rfl⟩ := List.mem_map.mp hh
    exact (List.getElem?_eq_some_iff.mp (hReg.inboxes_made i hi)).1

theorem Registry.mSubEndpoints_eq : impl.mSubEndpoints =
    (impl.subs.filter (·.mIsWildcard = false)).map ZmqSubscription.entry :=
  congrArg DataTransport.mSubEndpoints hReg.tables

theorem Registry.mWcEndpoints_eq : impl.mWcEndpoints =
    (impl.subs.filter (·.mIsWildcard)).map ZmqSubscription.handle :=
  congrArg DataTransport.mWcEndpoints hReg.tables

end Pointers

-- ---------------------------------------------------------------------------
-- Subscriptions come and go
-- ---------------------------------------------------------------------------

/-- What destroying a subscription does, whatever the tables contain: the record
that is freed is the one whose topic is unsubscribed. -/
theorem destroy_ok {impl impl' : DataTransport κ ρ} {handle : Nat} {sendOk : Bool}
    {sent : List ZmqControlMsg} {status : MamaStatus}
    (h : Subscription.destroy impl handle sendOk = .ok (impl', sent, status)) :
    ∃ s, impl.subs.find? (·.handle = handle) = some s ∧
      impl'.subs = impl.subs.eraseP (·.handle = handle) ∧ impl'.mUuid = impl.mUuid ∧
      sent = (SubscriptionImpl.unsubscribe s.mSubjectKey.bytes sendOk).1 := by
  rw [Subscription.destroy, DataTransport.sub] at h
  cases hFind : impl.subs.find? (·.handle = handle) with
  | none =>
    rw [hFind] at h
    cases h
  | some s =>
    rw [hFind] at h
    simp only [bind, Except.bind, pure, Except.pure] at h
    cases hKind : s.mIsWildcard with
    | false =>
      simp only [hKind, if_true] at h
      obtain ⟨rfl, hSent⟩ := Prod.mk.inj (Except.ok.inj h)
      exact ⟨s, rfl, rfl, rfl, congrArg Prod.fst hSent.symm⟩
    | true =>
      simp only [hKind, Bool.true_eq_false, if_false] at h
      cases hList : TransportImpl.unregisterWildcard impl s.mEndpointIdentifier with
      | error e =>
        rw [hList] at h
        cases h
      | ok mWcEndpoints =>
        rw [hList] at h
        obtain ⟨rfl, hSent⟩ := Prod.mk.inj (Except.ok.inj h)
        exact ⟨s, rfl, rfl, rfl, congrArg Prod.fst hSent.symm⟩

section Subscriptions

variable {impl : DataTransport κ ρ} {made : List (Made κ)} (hReg : Registry impl made)

include hReg

/-- A list of subscriptions with the handles and fixed parts of live ones. -/
theorem Registry.withSubs {subs : List (ZmqSubscription κ ρ)}
    (hSub : (subs.map ZmqSubscription.handle).Sublist
      (impl.subs.map ZmqSubscription.handle))
    (hMade : ∀ s ∈ subs, ∃ t ∈ impl.subs, t.handle = s.handle ∧ t.made = s.made) :
    Registry (impl.withSubs subs) made :=
  { hReg with
    nodup := hReg.nodup.sublist (hSub.append (List.Sublist.refl _))
    tables := rfl
    subs_made := by
      intro s hs
      obtain ⟨t, ht, hHandle, hEq⟩ := hMade s hs
      rw [← hHandle, ← hEq]
      exact hReg.subs_made t ht }

/-- One more subscription, under the next serial of its counter. -/
theorem Registry.addSub {record : ZmqSubscription κ ρ} {impl' : DataTransport κ ρ}
    (hBound : made.length + 1 < 2 ^ 64) (hHandle : record.handle = made.length)
    (hName : record.mEndpointIdentifier = serial (impl.uid record.callback + 1))
    (hUid : impl'.uid =
      Function.update impl.uid record.callback (impl.uid record.callback + 1))
    (hSubs : impl'.subs = impl.subs ++ [record]) (hTables : impl' = impl'.withSubs impl'.subs)
    (hUuid : impl'.mUuid = impl.mUuid) (hTable : impl'.mInboxes = impl.mInboxes)
    (hInboxes : impl'.inboxes = impl.inboxes) : Registry impl' (made ++ [record.made]) := by
  have hFresh : made.length ∉ impl.handles := fun h => Nat.lt_irrefl _ (hReg.handle_lt h)
  have hOld : ∀ {n : Nat} {r : Made κ}, made[n]? = some r →
      (made ++ [record.made])[n]? = some r := fun h =>
    (List.getElem?_append_left (List.getElem?_eq_some_iff.mp h).1).trans h
  refine ⟨?_, ?_, hTables, ?_, ?_, ?_, ?_⟩
  · rw [hUid]
    exact hReg.names.add hBound (r := record.made) hName
  · have hPerm : impl'.handles.Perm (made.length :: impl.handles) := by
      rw [DataTransport.handles, DataTransport.handles, hSubs, hInboxes, List.map_append,
        List.map_singleton, hHandle, List.append_assoc]
      exact List.perm_middle
    exact hPerm.nodup_iff.mpr (List.nodup_cons.mpr ⟨hFresh, hReg.nodup⟩)
  · intro s hs
    rw [hSubs] at hs
    rcases List.mem_append.mp hs with hs | hs
    · exact hOld (hReg.subs_made s hs)
    · rw [List.mem_singleton.mp hs, hHandle, List.getElem?_concat_length]
  · intro i hi
    rw [hInboxes] at hi
    exact hOld (hReg.inboxes_made i hi)
  · rw [hTable, hInboxes]
    exact hReg.inboxes
  · intro r hr hInbox
    have hSubject : impl'.mInboxSubject = impl.mInboxSubject := by
      rw [DataTransport.mInboxSubject, hUuid, DataTransport.mInboxSubject]
    rw [hSubject]
    rcases List.mem_append.mp hr with hr | hr
    · exact hReg.topics r hr hInbox
    · rw [List.mem_singleton.mp hr] at hInbox
      simp only [ZmqSubscription.made, ZmqSubscription.callback] at hInbox
      split at hInbox <;> cases hInbox

theorem Registry.create (hBound : made.length + 1 < 2 ^ 64) (key : SubjectKey) (queue : κ)
    (sendOk : Bool) :
    ∃ record : ZmqSubscription κ ρ,
      record.handle = made.length ∧ record.mSubjectKey = key ∧ record.mZmqQueue = queue ∧
      record.mIsNotMuted = true ∧ record.mCompRegex = none ∧
      (SubscriptionImpl.create impl made.length key queue sendOk).1.subs =
        impl.subs ++ [record] ∧
      Registry (SubscriptionImpl.create impl made.length key queue sendOk).1
        (made ++ [record.made]) := by
  have hSerial : generateSerial impl.mSubUid = _ :=
    generateSerial_of_lt (Nat.lt_of_le_of_lt (Nat.succ_le_succ (hReg.names.uid_le .sub)) hBound)
  refine ⟨⟨made.length, key, serial (impl.mSubUid + 1), queue, true, none⟩, rfl, rfl, rfl, rfl,
    rfl, by simp only [SubscriptionImpl.create, hSerial], ?_⟩
  refine hReg.addSub hBound rfl rfl ?_ ?_ ?_ rfl rfl rfl
  · funext c
    simp only [SubscriptionImpl.create, hSerial]
    cases c <;> rfl
  · simp only [SubscriptionImpl.create, hSerial]
  · simp only [SubscriptionImpl.create, hSerial]
    rw [DataTransport.withSubs]
    congr 1
    · rw [hReg.mSubEndpoints_eq, List.filter_append, List.map_append]
      rfl
    · rw [hReg.mWcEndpoints_eq, List.filter_append, List.map_append]
      exact (List.append_nil _).symm

theorem Registry.createWildcard (hBound : made.length + 1 < 2 ^ 64) (key : SubjectKey)
    (regex : ρ) (queue : κ) (sendOk : Bool) :
    ∃ record : ZmqSubscription κ ρ,
      record.handle = made.length ∧ record.mSubjectKey = key ∧ record.mZmqQueue = queue ∧
      record.mIsNotMuted = true ∧ record.mCompRegex = some regex ∧
      (SubscriptionImpl.createWildcard impl made.length key regex queue sendOk).1.subs =
        impl.subs ++ [record] ∧
      Registry (SubscriptionImpl.createWildcard impl made.length key regex queue sendOk).1
        (made ++ [record.made]) := by
  have hSerial : generateSerial impl.mWcsUid = _ :=
    generateSerial_of_lt
      (Nat.lt_of_le_of_lt (Nat.succ_le_succ (hReg.names.uid_le .wildcard)) hBound)
  refine ⟨⟨made.length, key, serial (impl.mWcsUid + 1), queue, true, some regex⟩, rfl, rfl, rfl,
    rfl, rfl, by simp only [SubscriptionImpl.createWildcard, hSerial], ?_⟩
  refine hReg.addSub hBound rfl rfl ?_ ?_ ?_ rfl rfl rfl
  · funext c
    simp only [SubscriptionImpl.createWildcard, hSerial]
    cases c <;> rfl
  · simp only [SubscriptionImpl.createWildcard, hSerial]
  · simp only [SubscriptionImpl.createWildcard, hSerial]
    rw [DataTransport.withSubs]
    congr 1
    · rw [hReg.mSubEndpoints_eq, List.filter_append, List.map_append]
      exact (List.append_nil _).symm
    · rw [hReg.mWcEndpoints_eq, List.filter_append, List.map_append]
      rfl

/-- Muting leaves every table alone. -/
theorem Registry.mute (handle : Nat) : Registry (Subscription.mute impl handle) made := by
  set f : ZmqSubscription κ ρ → ZmqSubscription κ ρ := fun s =>
    if s.handle = handle then { s with mIsNotMuted := false } else s with hf
  have hHandle : ∀ s, (f s).handle = s.handle := fun s => by
    simp only [hf]
    split <;> rfl
  have hMade : ∀ s, (f s).made = s.made := fun s => by
    simp only [hf]
    split <;> rfl
  have hKind : ∀ s, (f s).mIsWildcard = s.mIsWildcard := fun s => by
    simp only [hf]
    split <;> rfl
  have hEntry : ∀ s, (f s).entry = s.entry := fun s => by
    simp only [hf]
    split <;> rfl
  have hEq : Subscription.mute impl handle = impl.withSubs (impl.subs.map f) := by
    rw [Subscription.mute, DataTransport.withSubs]
    congr 1
    · rw [hReg.mSubEndpoints_eq, List.filter_map, List.map_map]
      simp only [Function.comp_def, hKind, hEntry]
    · rw [hReg.mWcEndpoints_eq, List.filter_map, List.map_map]
      simp only [Function.comp_def, hKind, hHandle]
  rw [hEq]
  refine hReg.withSubs ?_ ?_
  · rw [List.map_map, Function.comp_def]
    simp only [hHandle]
    exact List.Sublist.refl _
  · intro s hs
    obtain ⟨t, ht, rfl⟩ := List.mem_map.mp hs
    exact ⟨t, ht, (hHandle t).symm, (hMade t).symm⟩

/-- The wildcard list after one subscription is taken out. -/
theorem Registry.unregisterWildcard_eq {s : ZmqSubscription κ ρ} (hs : s ∈ impl.subs)
    (hKind : s.mIsWildcard = true) :
    TransportImpl.unregisterWildcard impl s.mEndpointIdentifier =
      .ok (((impl.subs.filter (·.handle ≠ s.handle)).filter (·.mIsWildcard)).map
        ZmqSubscription.handle) := by
  rw [TransportImpl.unregisterWildcard, hReg.mWcEndpoints_eq,
    collect_map (g := fun t : ZmqSubscription κ ρ =>
      if t.mEndpointIdentifier = s.mEndpointIdentifier then none else some t.handle)]
  · rw [List.filter_filter, filterMap_if]
    congr 2
    rw [List.filter_filter]
    refine List.filter_congr fun t ht => ?_
    cases hWild : t.mIsWildcard with
    | false => simp
    | true =>
      have hIff : t.mEndpointIdentifier = s.mEndpointIdentifier ↔ t.handle = s.handle :=
        ⟨fun h => by rw [hReg.sub_of_name ht hs (hWild.trans hKind.symm) h],
          fun h => by rw [hReg.sub_unique ht hs h]⟩
      simp [hIff]
  · intro t ht
    rw [hReg.sub_eq (List.mem_filter.mp ht).1]
    rfl

/-- The pool after one subscription is taken out. -/
theorem Registry.endpointPoolUnregister_eq {s : ZmqSubscription κ ρ} (hs : s ∈ impl.subs)
    (hKind : s.mIsWildcard = false) :
    endpointPoolUnregister impl.mSubEndpoints s.mSubjectKey.bytes s.mEndpointIdentifier =
      ((impl.subs.filter (·.handle ≠ s.handle)).filter (·.mIsWildcard = false)).map
        ZmqSubscription.entry := by
  rw [endpointPoolUnregister, hReg.mSubEndpoints_eq, List.filter_map, List.filter_filter,
    List.filter_filter]
  congr 1
  refine List.filter_congr fun t ht => ?_
  cases hWild : t.mIsWildcard with
  | true => simp
  | false =>
    have hIff : (t.mSubjectKey.bytes = s.mSubjectKey.bytes ∧
        t.mEndpointIdentifier = s.mEndpointIdentifier) ↔ t.handle = s.handle :=
      ⟨fun h => by rw [hReg.sub_of_name ht hs (hWild.trans hKind.symm) h.2],
        fun h => by rw [hReg.sub_unique ht hs h]; exact ⟨rfl, rfl⟩⟩
    simp only [Function.comp_apply, ZmqSubscription.entry, hIff]
    simp

/-- A wildcard subscription leaves no trace in the pool, a regular one none in
the list. -/
theorem Registry.filter_other {s : ZmqSubscription κ ρ} (hs : s ∈ impl.subs)
    {p : ZmqSubscription κ ρ → Bool} (hp : p s = false) :
    (impl.subs.filter (·.handle ≠ s.handle)).filter p = impl.subs.filter p := by
  rw [List.filter_filter]
  refine List.filter_congr fun t ht => ?_
  by_cases h : t.handle = s.handle
  · rw [hReg.sub_unique ht hs h, hp]
    rfl
  · simp [h]

/-- **Destroying a subscription** takes it out of its table and out of memory,
and never follows a dangling pointer. -/
theorem Registry.destroy_eq {s : ZmqSubscription κ ρ} (hs : s ∈ impl.subs) (sendOk : Bool) :
    Subscription.destroy impl s.handle sendOk =
      .ok (impl.withSubs (impl.subs.filter (·.handle ≠ s.handle)),
        SubscriptionImpl.unsubscribe s.mSubjectKey.bytes sendOk) := by
  have hErase := eraseP_of_nodup (List.nodup_append.mp hReg.nodup).1 s.handle
  rw [Subscription.destroy, hReg.sub_eq hs]
  cases hKind : s.mIsWildcard with
  | false =>
    simp only [bind, Except.bind, pure, Except.pure, hKind, if_true, hErase,
      hReg.endpointPoolUnregister_eq hs hKind]
    rw [DataTransport.withSubs, hReg.filter_other hs hKind, ← hReg.mWcEndpoints_eq]
  | true =>
    simp only [bind, Except.bind, pure, Except.pure, hKind, hErase,
      hReg.unregisterWildcard_eq hs hKind, Bool.true_eq_false, if_false]
    rw [DataTransport.withSubs, hReg.filter_other hs (p := (·.mIsWildcard = false))
      (by simp [hKind]), ← hReg.mSubEndpoints_eq]

theorem Registry.destroy (handle : Nat) :
    Registry (impl.withSubs (impl.subs.filter (·.handle ≠ handle))) made :=
  hReg.withSubs (List.filter_sublist.map _)
    fun s hs => ⟨s, (List.mem_filter.mp hs).1, rfl, rfl⟩

end Subscriptions

-- ---------------------------------------------------------------------------
-- Inboxes come and go
-- ---------------------------------------------------------------------------

theorem DataTransport.mInboxSubject_length (impl : DataTransport κ ρ) :
    impl.mInboxSubject.length = zmqInboxSubjectSize := by
  simp [DataTransport.mInboxSubject, zmqReplyHandlePrefix, impl.mUuid.length_eq,
    zmqInboxSubjectSize, uuidStringSize]

/-- The serial sits at its fixed offset in every reply handle. -/
theorem DataTransport.drop_replyHandle (impl : DataTransport κ ρ) (name : List Byte) :
    (impl.mInboxSubject ++ dot :: name).drop zmqReplyHandleInboxNameIndex = name := by
  have hLen : (impl.mInboxSubject ++ [dot]).length = zmqReplyHandleInboxNameIndex := by
    rw [List.length_append, impl.mInboxSubject_length]
    rfl
  rw [← List.singleton_append, ← List.append_assoc, ← hLen, List.drop_left]

section Inboxes

variable {impl : DataTransport κ ρ} {made : List (Made κ)} (hReg : Registry impl made)

include hReg

theorem Registry.createInbox (hBound : made.length + 1 < 2 ^ 64) (queue : κ) :
    ∃ record : ZmqInboxImpl κ,
      record.handle = made.length ∧ record.mZmqQueue = queue ∧
      (Inbox.createByIndex impl made.length queue).inboxes = impl.inboxes ++ [record] ∧
      Registry (Inbox.createByIndex impl made.length queue) (made ++ [record.made]) := by
  have hSerial : generateSerial impl.mInboxUid = _ :=
    generateSerial_of_lt
      (Nat.lt_of_le_of_lt (Nat.succ_le_succ (hReg.names.uid_le .inbox)) hBound)
  set record : ZmqInboxImpl κ :=
    ⟨made.length, impl.mInboxSubject ++ dot :: serial (impl.mInboxUid + 1), queue⟩ with hRecord
  have hName : record.name = serial (impl.mInboxUid + 1) := impl.drop_replyHandle _
  have hEq : Inbox.createByIndex impl made.length queue = { impl with
      mInboxUid := impl.mInboxUid + 1
      mInboxes := impl.mInboxes.insert record.name made.length
      inboxes := impl.inboxes ++ [record] } := by
    simp only [Inbox.createByIndex, hSerial]
    rfl
  have hFresh : made.length ∉ impl.handles := fun h => Nat.lt_irrefl _ (hReg.handle_lt h)
  have hOld : ∀ {n : Nat} {r : Made κ}, made[n]? = some r →
      (made ++ [record.made])[n]? = some r := fun h =>
    (List.getElem?_append_left (List.getElem?_eq_some_iff.mp h).1).trans h
  have hNames := hReg.names.add hBound (r := record.made) hName
  -- the new name is nobody else's
  have hNew : ∀ i ∈ impl.inboxes, i.name ≠ record.name := by
    intro i hi hEq
    have hKey : i.made.key = record.made.key := congrArg (Prod.mk Callback.inbox) hEq
    have := hNames.handle_eq (hOld (hReg.inboxes_made i hi)) List.getElem?_concat_length hKey
    have hLt := (List.getElem?_eq_some_iff.mp (hReg.inboxes_made i hi)).1
    omega
  refine ⟨record, rfl, rfl, by rw [hEq], ?_⟩
  rw [hEq]
  refine ⟨?_, ?_, ?_, ?_, ?_, ?_, ?_⟩
  · refine cast (congrArg (Names · _) ?_) hNames
    funext c
    cases c <;> rfl
  · have hPerm : (impl.subs.map ZmqSubscription.handle ++
        (impl.inboxes ++ [record]).map ZmqInboxImpl.handle).Perm
          (made.length :: impl.handles) := by
      rw [List.map_append, ← List.append_assoc]
      exact List.perm_append_singleton _ _
    exact hPerm.nodup_iff.mpr (List.nodup_cons.mpr ⟨hFresh, hReg.nodup⟩)
  · rw [DataTransport.withSubs]
    congr 1
    · exact hReg.mSubEndpoints_eq
    · exact hReg.mWcEndpoints_eq
  · exact fun s hs => hOld (hReg.subs_made s hs)
  · intro i hi
    rcases List.mem_append.mp hi with hi | hi
    · exact hOld (hReg.inboxes_made i hi)
    · rw [List.mem_singleton.mp hi]
      exact List.getElem?_concat_length
  · intro name h
    show (impl.mInboxes.insert record.name made.length).lookup name = some h ↔ _
    simp only [List.mem_append, List.mem_singleton]
    by_cases hn : name = record.name
    · subst hn
      rw [AList.lookup_insert]
      constructor
      · intro hh
        exact ⟨record, Or.inr rfl, Option.some.inj hh, rfl⟩
      · rintro ⟨i, hi | rfl, hHandle, hEqName⟩
        · exact absurd hEqName (hNew i hi)
        · exact congrArg some hHandle
    · rw [AList.lookup_insert_ne hn, hReg.inboxes]
      constructor
      · rintro ⟨i, hi, hRest⟩
        exact ⟨i, Or.inl hi, hRest⟩
      · rintro ⟨i, hi | rfl, hHandle, hEqName⟩
        · exact ⟨i, hi, hHandle, hEqName⟩
        · exact absurd hEqName.symm hn
  · intro r hr hInbox
    rcases List.mem_append.mp hr with hr | hr
    · exact hReg.topics r hr hInbox
    · rw [List.mem_singleton.mp hr]
      show record.mReplyHandle = impl.mInboxSubject ++ dot :: record.name
      rw [hName]

/-- **Destroying an inbox** takes it out of the table and out of memory. -/
theorem Registry.destroyInbox {i : ZmqInboxImpl κ} (hi : i ∈ impl.inboxes) :
    ∃ impl', Inbox.destroy impl i.handle = .ok impl' ∧ impl'.subs = impl.subs ∧
      impl'.mUuid = impl.mUuid ∧
      impl'.inboxes = impl.inboxes.filter (·.handle ≠ i.handle) ∧ Registry impl' made := by
  have hErase := eraseP_of_nodup (List.nodup_append.mp hReg.nodup).2.1 i.handle
  refine ⟨{ impl with
    mInboxes := impl.mInboxes.erase i.name
    inboxes := impl.inboxes.filter (·.handle ≠ i.handle) }, ?_, rfl, rfl, rfl, ?_⟩
  · rw [Inbox.destroy, hReg.inbox_eq hi]
    simp only [bind, Except.bind, pure, Except.pure, hErase]
    rfl
  refine { hReg with
    names := cast (congrArg (Names · _) ?_) hReg.names
    nodup := hReg.nodup.sublist ((List.Sublist.refl _).append (List.filter_sublist.map _))
    tables := ?_
    inboxes_made := fun j hj => hReg.inboxes_made j (List.mem_filter.mp hj).1
    inboxes := ?_ }
  · funext c
    cases c <;> rfl
  · rw [DataTransport.withSubs]
    congr 1
    · exact hReg.mSubEndpoints_eq
    · exact hReg.mWcEndpoints_eq
  · intro name h
    show (impl.mInboxes.erase i.name).lookup name = some h ↔ _
    simp only [List.mem_filter, decide_eq_true_eq]
    by_cases hn : name = i.name
    · subst hn
      rw [AList.lookup_erase]
      constructor
      · intro hh
        cases hh
      · -- an inbox with the same name is the one destroyed
        rintro ⟨j, ⟨hj, hne⟩, -, hEqName⟩
        have hKey : j.made.key = i.made.key := congrArg (Prod.mk Callback.inbox) hEqName
        exact absurd (hReg.names.handle_eq (hReg.inboxes_made j hj) (hReg.inboxes_made i hi)
          hKey) hne
    · rw [AList.lookup_erase_ne hn, hReg.inboxes]
      constructor
      · rintro ⟨j, hj, hHandle, hEqName⟩
        refine ⟨j, ⟨hj, fun h => hn ?_⟩, hHandle, hEqName⟩
        rw [← hEqName, hReg.inbox_unique hj hi h]
      · rintro ⟨j, ⟨hj, -⟩, hRest⟩
        exact ⟨j, hj, hRest⟩

end Inboxes

end ZmqBridge
