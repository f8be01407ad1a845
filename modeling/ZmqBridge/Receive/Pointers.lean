import ZmqBridge.Data.Registry

/-!
# ZmqBridge — the tables point to live records

A weaker invariant than `Registry`, for any number of creations: serials may
have wrapped around, two records may share an identifier, but whatever a table
points to is a record that has not been freed, and every identifier has the
size the copies of it are made for.
-/

namespace ZmqBridge

open Lib

variable {κ ρ : Type}

structure Pointers (impl : DataTransport κ ρ) (next : Nat) : Prop where
  handles_lt : ∀ h ∈ impl.handles, h < next
  nodup : impl.handles.Nodup
  regular : ∀ e ∈ impl.mSubEndpoints, ∃ s ∈ impl.subs, s.mIsWildcard = false ∧ s.entry = e
  wildcard : ∀ h ∈ impl.mWcEndpoints, ∃ s ∈ impl.subs, s.mIsWildcard = true ∧ s.handle = h
  inbox : ∀ name h, impl.mInboxes.lookup name = some h →
    ∃ i ∈ impl.inboxes, i.handle = h ∧ i.name = name
  identifiers : ∀ s ∈ impl.subs, NulFree s.mEndpointIdentifier ∧
    s.mEndpointIdentifier.length = zmqReplyHandleInboxNameSize
  names : ∀ i ∈ impl.inboxes, i.name.length = zmqReplyHandleInboxNameSize

theorem generateSerial_nulFree (id : Nat) : NulFree (generateSerial id).2 :=
  hexDigits_nulFree _ _

theorem generateSerial_length (id : Nat) :
    (generateSerial id).2.length = zmqReplyHandleInboxNameSize :=
  hexDigits_length _ _

section Follow

variable {impl : DataTransport κ ρ} {next : Nat} (hPtr : Pointers impl next)

include hPtr

theorem Pointers.sub_unique {s t : ZmqSubscription κ ρ} (hs : s ∈ impl.subs)
    (ht : t ∈ impl.subs) (h : s.handle = t.handle) : s = t :=
  List.inj_on_of_nodup_map (List.nodup_append.mp hPtr.nodup).1 hs ht h

theorem Pointers.sub_eq {s : ZmqSubscription κ ρ} (hs : s ∈ impl.subs) :
    impl.sub s.handle = .ok s := by
  rw [DataTransport.sub, find?_of_nodup (List.nodup_append.mp hPtr.nodup).1 hs]

theorem Pointers.inbox_eq {i : ZmqInboxImpl κ} (hi : i ∈ impl.inboxes) :
    impl.inbox i.handle = .ok i := by
  rw [DataTransport.inbox, find?_of_nodup (List.nodup_append.mp hPtr.nodup).2.1 hi]

end Follow

-- ---------------------------------------------------------------------------
-- Every call keeps it
-- ---------------------------------------------------------------------------

section Calls

variable {impl : DataTransport κ ρ} {next : Nat} (hPtr : Pointers impl next)

include hPtr

/-- One more subscription at a fresh address. -/
theorem Pointers.addSub (record : ZmqSubscription κ ρ) {impl' : DataTransport κ ρ}
    (hHandle : record.handle = next)
    (hName : NulFree record.mEndpointIdentifier ∧
      record.mEndpointIdentifier.length = zmqReplyHandleInboxNameSize)
    (hSubs : impl'.subs = impl.subs ++ [record])
    (hRegular : ∀ e ∈ impl'.mSubEndpoints,
      e ∈ impl.mSubEndpoints ∨ record.mIsWildcard = false ∧ record.entry = e)
    (hWildcard : ∀ h ∈ impl'.mWcEndpoints,
      h ∈ impl.mWcEndpoints ∨ record.mIsWildcard = true ∧ record.handle = h)
    (hTable : impl'.mInboxes = impl.mInboxes) (hInboxes : impl'.inboxes = impl.inboxes) :
    Pointers impl' (next + 1) := by
  have hPerm : impl'.handles.Perm (next :: impl.handles) := by
    rw [DataTransport.handles, DataTransport.handles, hSubs, hInboxes, List.map_append,
      List.map_singleton, hHandle, List.append_assoc]
    exact List.perm_middle
  have hFresh : next ∉ impl.handles := fun h => Nat.lt_irrefl _ (hPtr.handles_lt _ h)
  have hNew : record ∈ impl'.subs := by
    rw [hSubs]
    exact List.mem_append_right _ (List.mem_singleton_self _)
  have hOld : ∀ s ∈ impl.subs, s ∈ impl'.subs := fun s hs => by
    rw [hSubs]
    exact List.mem_append_left _ hs
  refine ⟨?_, hPerm.nodup_iff.mpr (List.nodup_cons.mpr ⟨hFresh, hPtr.nodup⟩), ?_, ?_, ?_, ?_,
    ?_⟩
  · intro h hh
    rcases List.mem_cons.mp (hPerm.mem_iff.mp hh) with rfl | hh
    · omega
    · exact (hPtr.handles_lt h hh).trans (Nat.lt_succ_self _)
  · intro e he
    rcases hRegular e he with he | ⟨hKind, rfl⟩
    · obtain ⟨s, hs, hRest⟩ := hPtr.regular e he
      exact ⟨s, hOld s hs, hRest⟩
    · exact ⟨record, hNew, hKind, rfl⟩
  · intro h hh
    rcases hWildcard h hh with hh | ⟨hKind, rfl⟩
    · obtain ⟨s, hs, hRest⟩ := hPtr.wildcard h hh
      exact ⟨s, hOld s hs, hRest⟩
    · exact ⟨record, hNew, hKind, rfl⟩
  · rw [hTable, hInboxes]
    exact hPtr.inbox
  · intro s hs
    rw [hSubs] at hs
    rcases List.mem_append.mp hs with hs | hs
    · exact hPtr.identifiers s hs
    · rw [List.mem_singleton.mp hs]
      exact hName
  · rw [hInboxes]
    exact hPtr.names

theorem Pointers.create (key : SubjectKey) (queue : κ) (sendOk : Bool) :
    Pointers (SubscriptionImpl.create impl next key queue sendOk).1 (next + 1) := by
  refine hPtr.addSub
    ⟨next, key, (generateSerial impl.mSubUid).2, queue, true, none⟩ rfl
    ⟨generateSerial_nulFree _, generateSerial_length _⟩ rfl ?_ (fun h hh => Or.inl hh) rfl rfl
  intro e he
  rcases List.mem_append.mp he with he | he
  · exact Or.inl he
  · exact Or.inr ⟨rfl, (List.mem_singleton.mp he).symm⟩

theorem Pointers.createWildcard (key : SubjectKey) (regex : ρ) (queue : κ) (sendOk : Bool) :
    Pointers (SubscriptionImpl.createWildcard impl next key regex queue sendOk).1
      (next + 1) := by
  refine hPtr.addSub
    ⟨next, key, (generateSerial impl.mWcsUid).2, queue, true, some regex⟩ rfl
    ⟨generateSerial_nulFree _, generateSerial_length _⟩ rfl (fun e he => Or.inl he) ?_ rfl rfl
  intro h hh
  rcases List.mem_append.mp hh with hh | hh
  · exact Or.inl hh
  · exact Or.inr ⟨rfl, (List.mem_singleton.mp hh).symm⟩

theorem Pointers.mute (handle : Nat) : Pointers (Subscription.mute impl handle) next := by
  set f : ZmqSubscription κ ρ → ZmqSubscription κ ρ := fun s =>
    if s.handle = handle then { s with mIsNotMuted := false } else s with hf
  have hHandle : ∀ s, (f s).handle = s.handle := fun s => by
    simp only [hf]
    split <;> rfl
  have hEntry : ∀ s, (f s).entry = s.entry := fun s => by
    simp only [hf]
    split <;> rfl
  have hKind : ∀ s, (f s).mIsWildcard = s.mIsWildcard := fun s => by
    simp only [hf]
    split <;> rfl
  have hSubs : (Subscription.mute impl handle).subs = impl.subs.map f := rfl
  have hHandles : (Subscription.mute impl handle).handles = impl.handles := by
    rw [DataTransport.handles, hSubs, List.map_map, Function.comp_def]
    simp only [hHandle]
    rfl
  refine ⟨by rw [hHandles]; exact hPtr.handles_lt, by rw [hHandles]; exact hPtr.nodup, ?_, ?_,
    hPtr.inbox, ?_, hPtr.names⟩
  · intro e he
    obtain ⟨s, hs, hReg, hEq⟩ := hPtr.regular e he
    exact ⟨f s, List.mem_map_of_mem hs, (hKind s).trans hReg, (hEntry s).trans hEq⟩
  · intro h hh
    obtain ⟨s, hs, hWild, hEq⟩ := hPtr.wildcard h hh
    exact ⟨f s, List.mem_map_of_mem hs, (hKind s).trans hWild, (hHandle s).trans hEq⟩
  · intro s hs
    rw [hSubs] at hs
    obtain ⟨t, ht, rfl⟩ := List.mem_map.mp hs
    have hSame : (f t).mEndpointIdentifier = t.mEndpointIdentifier :=
      congrArg PoolEntry.identifier (hEntry t)
    rw [hSame]
    exact hPtr.identifiers t ht

/-- Freeing a subscription that no table points to any more. -/
theorem Pointers.dropSub {impl' : DataTransport κ ρ} (handle : Nat)
    (hSubs : impl'.subs = impl.subs.eraseP (·.handle = handle))
    (hRegular : ∀ e ∈ impl'.mSubEndpoints, e ∈ impl.mSubEndpoints ∧ e.endpoint ≠ handle)
    (hWildcard : ∀ h ∈ impl'.mWcEndpoints, h ∈ impl.mWcEndpoints ∧ h ≠ handle)
    (hTable : impl'.mInboxes = impl.mInboxes) (hInboxes : impl'.inboxes = impl.inboxes) :
    Pointers impl' next := by
  have hSublist : impl'.handles.Sublist impl.handles := by
    rw [DataTransport.handles, hSubs, hInboxes]
    exact (List.eraseP_sublist.map _).append (List.Sublist.refl _)
  have hStays : ∀ s ∈ impl.subs, s.handle ≠ handle → s ∈ impl'.subs := fun s hs hne => by
    rw [hSubs]
    exact (List.mem_eraseP_of_neg (by simpa using hne)).mpr hs
  refine ⟨fun h hh => hPtr.handles_lt h (hSublist.subset hh), hPtr.nodup.sublist hSublist, ?_,
    ?_, ?_, ?_, ?_⟩
  · intro e he
    obtain ⟨he, hne⟩ := hRegular e he
    obtain ⟨s, hs, hKind, rfl⟩ := hPtr.regular e he
    exact ⟨s, hStays s hs hne, hKind, rfl⟩
  · intro h hh
    obtain ⟨hh, hne⟩ := hWildcard h hh
    obtain ⟨s, hs, hKind, rfl⟩ := hPtr.wildcard h hh
    exact ⟨s, hStays s hs hne, hKind, rfl⟩
  · rw [hTable, hInboxes]
    exact hPtr.inbox
  · intro s hs
    rw [hSubs] at hs
    exact hPtr.identifiers s (List.mem_of_mem_eraseP hs)
  · rw [hInboxes]
    exact hPtr.names

/-- Destroying a live subscription: its topic and identifier take its entry out
of the pool, its identifier takes it out of the list. -/
theorem Pointers.destroy {s : ZmqSubscription κ ρ} (hs : s ∈ impl.subs) (sendOk : Bool) :
    ∃ impl' sent, Subscription.destroy impl s.handle sendOk = .ok (impl', sent) ∧
      Pointers impl' next := by
  rw [Subscription.destroy, hPtr.sub_eq hs]
  cases hKind : s.mIsWildcard with
  | false =>
    simp only [bind, Except.bind, pure, Except.pure, hKind, if_true]
    refine ⟨_, _, rfl, hPtr.dropSub s.handle rfl ?_ ?_ rfl rfl⟩
    · intro e he
      obtain ⟨he, hNot⟩ := List.mem_filter.mp he
      refine ⟨he, fun hEq => ?_⟩
      obtain ⟨t, ht, -, rfl⟩ := hPtr.regular e he
      obtain rfl := hPtr.sub_unique ht hs hEq
      simp [ZmqSubscription.entry] at hNot
    · intro h hh
      refine ⟨hh, fun hEq => ?_⟩
      obtain ⟨t, ht, hWild, hSame⟩ := hPtr.wildcard h hh
      rw [hPtr.sub_unique ht hs (hSame.trans hEq), hKind] at hWild
      cases hWild
  | true =>
    -- the list is walked, and every element is live
    have hWalk : Inside (TransportImpl.unregisterWildcard impl s.mEndpointIdentifier) := by
      refine inside_collect.mpr fun h hh => ?_
      obtain ⟨t, ht, -, rfl⟩ := hPtr.wildcard h hh
      exact inside_bind.mpr ⟨t, hPtr.sub_eq ht, inside_pure _⟩
    obtain ⟨rest, hRest⟩ := hWalk
    simp only [bind, Except.bind, pure, Except.pure, hKind, Bool.true_eq_false, if_false, hRest]
    refine ⟨_, _, rfl, hPtr.dropSub s.handle rfl ?_ ?_ rfl rfl⟩
    · intro e he
      refine ⟨he, fun hEq => ?_⟩
      obtain ⟨t, ht, hReg, rfl⟩ := hPtr.regular e he
      rw [hPtr.sub_unique ht hs hEq, hKind] at hReg
      cases hReg
    · intro h hh
      obtain ⟨h', hh', hKept⟩ := mem_collect hRest hh
      obtain ⟨t, ht, -, rfl⟩ := hPtr.wildcard h' hh'
      rw [hPtr.sub_eq ht] at hKept
      simp only [bind, Except.bind, pure, Except.pure, Except.ok.injEq,
        Option.ite_none_left_eq_some, Option.some.injEq] at hKept
      obtain ⟨hne, rfl⟩ := hKept
      exact ⟨hh', fun hEq => hne (by rw [hPtr.sub_unique ht hs hEq])⟩

theorem Pointers.createInbox (queue : κ) :
    Pointers (Inbox.createByIndex impl next queue) (next + 1) := by
  set name := (generateSerial impl.mInboxUid).2 with hName
  set record : ZmqInboxImpl κ := ⟨next, impl.mInboxSubject ++ dot :: name, queue⟩ with hRecord
  have hRecordName : record.name = name := impl.drop_replyHandle _
  have hInboxes : (Inbox.createByIndex impl next queue).inboxes = impl.inboxes ++ [record] := rfl
  have hTable : (Inbox.createByIndex impl next queue).mInboxes =
      impl.mInboxes.insert record.name next := rfl
  have hHandles : (Inbox.createByIndex impl next queue).handles = impl.handles ++ [next] := by
    rw [DataTransport.handles, hInboxes, List.map_append, ← List.append_assoc]
    rfl
  have hFresh : next ∉ impl.handles := fun h => Nat.lt_irrefl _ (hPtr.handles_lt _ h)
  refine ⟨?_, ?_, hPtr.regular, hPtr.wildcard, ?_, hPtr.identifiers, ?_⟩
  · intro h hh
    rw [hHandles] at hh
    rcases List.mem_append.mp hh with hh | hh
    · exact (hPtr.handles_lt h hh).trans (Nat.lt_succ_self _)
    · rw [List.mem_singleton.mp hh]
      exact Nat.lt_succ_self _
  · rw [hHandles]
    exact (List.perm_append_singleton _ _).nodup_iff.mpr
      (List.nodup_cons.mpr ⟨hFresh, hPtr.nodup⟩)
  · intro n h hLookup
    rw [hTable] at hLookup
    rw [hInboxes]
    by_cases hn : n = record.name
    · subst hn
      rw [AList.lookup_insert] at hLookup
      exact ⟨record, List.mem_append_right _ (List.mem_singleton_self _),
        Option.some.inj hLookup, rfl⟩
    · rw [AList.lookup_insert_ne hn] at hLookup
      obtain ⟨i, hi, hRest⟩ := hPtr.inbox n h hLookup
      exact ⟨i, List.mem_append_left _ hi, hRest⟩
  · intro i hi
    rw [hInboxes] at hi
    rcases List.mem_append.mp hi with hi | hi
    · exact hPtr.names i hi
    · rw [List.mem_singleton.mp hi, hRecordName]
      exact generateSerial_length _

/-- Destroying a live inbox: the table loses what is registered under its name,
whichever inbox that is. -/
theorem Pointers.destroyInbox {i : ZmqInboxImpl κ} (hi : i ∈ impl.inboxes) :
    ∃ impl', Inbox.destroy impl i.handle = .ok impl' ∧ Pointers impl' next := by
  rw [Inbox.destroy, hPtr.inbox_eq hi]
  refine ⟨_, rfl, ?_⟩
  have hSublist : (impl.subs.map ZmqSubscription.handle ++
      (impl.inboxes.eraseP (·.handle = i.handle)).map ZmqInboxImpl.handle).Sublist
        impl.handles :=
    (List.Sublist.refl _).append (List.eraseP_sublist.map _)
  refine ⟨fun h hh => hPtr.handles_lt h (hSublist.subset hh), hPtr.nodup.sublist hSublist,
    hPtr.regular, hPtr.wildcard, ?_, hPtr.identifiers,
    fun j hj => hPtr.names j (List.mem_of_mem_eraseP hj)⟩
  intro name h hLookup
  have hne : name ≠ i.name := by
    rintro rfl
    rw [ZmqInboxImpl.name, AList.lookup_erase] at hLookup
    cases hLookup
  rw [ZmqInboxImpl.name] at hne
  rw [AList.lookup_erase_ne hne] at hLookup
  obtain ⟨j, hj, hHandle, hName⟩ := hPtr.inbox name h hLookup
  refine ⟨j, (List.mem_eraseP_of_neg ?_).mpr hj, hHandle, hName⟩
  have hOther : j.handle ≠ i.handle := fun hEq => hne (by
    rw [← hName, List.inj_on_of_nodup_map (List.nodup_append.mp hPtr.nodup).2.1 hj hi hEq]
    rfl)
  simpa using hOther

end Calls

end ZmqBridge
