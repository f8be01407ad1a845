import ZmqBridge.Lib.Streams
import ZmqBridge.Model.Naming

/-!
# ZmqBridge — redundant proxies

Any number of transports announce themselves any number of times and may leave
at the end. Every proxy forwards all of it, in an order of its own that keeps the
order of each sender, and a transport handles one interleaving of what the proxies
forward. A 'C' that one proxy brings after the 'D' another has brought connects to
the sender again; but that proxy's own 'D' is still to come. ZeroMQ calls succeed;
each time a new peer is to be recorded, there may be no memory for it.

* `redundant_proxies_iff` — in the end the transport is connected to exactly the
  senders that announced themselves and did not leave, and it has recorded exactly
  these if for each of them there was memory at least once;
* `peer_unrecorded`       — one for which there was none.
-/

namespace ZmqBridge

open Lib

-- ---------------------------------------------------------------------------
-- Senders, proxies and the receiver
-- ---------------------------------------------------------------------------

/-- What a transport sends: announcements, and at the end perhaps a 'D'. -/
structure Sender where
  uuid : List Byte
  endpoint : List Byte
  announcements : List Byte
  leaves : Bool
  announcing : ∀ t ∈ announcements, t = typeConnect ∨ t = typeBeacon

def Sender.msg (sender : Sender) (mType : Byte) : NamingMsg :=
  ⟨mType, sender.uuid, sender.endpoint⟩

def Sender.msgs (sender : Sender) : List NamingMsg :=
  sender.announcements.map sender.msg ++
    if sender.leaves then [sender.msg typeDisconnect] else []

/-- The sender is there in the end. -/
def Sender.Present (sender : Sender) : Prop :=
  sender.announcements ≠ [] ∧ sender.leaves = false

instance (sender : Sender) : Decidable sender.Present :=
  inferInstanceAs (Decidable (_ ∧ _))

/-- A proxy forwards what the senders send and nothing else, each sender's messages
in the order they were sent. -/
structure Forwards {ι : Type*} (senders : ι → Sender) (stream : List NamingMsg) : Prop where
  sent : ∀ m ∈ stream, ∃ i, m ∈ (senders i).msgs
  order : ∀ i, stream.filter (fun m => m.mUuid = (senders i).uuid) = (senders i).msgs

/-- A message as a transport handles it: the proxy that brought it, and whether there
is memory for a record of its sender. -/
structure Handled (k : Nat) where
  memory : Bool
  proxy : Fin k
  msg : NamingMsg
  deriving DecidableEq

/-- The message as it arrived. -/
def Handled.arrival {k : Nat} (h : Handled k) : Fin k × NamingMsg := (h.proxy, h.msg)

/-- A transport handles one message, with all ZeroMQ calls succeeding. -/
def NamingTransport.handle {k : Nat} (impl : NamingTransport) (h : Handled k) :
    NamingTransport :=
  (TransportImpl.dispatchNamingMsg { NamingCalls.allOk with malloc := h.memory } impl h.msg).impl

def NamingTransport.handleAll {k : Nat} (impl : NamingTransport) (hs : List (Handled k)) :
    NamingTransport :=
  hs.foldl NamingTransport.handle impl

-- ---------------------------------------------------------------------------
-- What is known of one sender
-- ---------------------------------------------------------------------------

section Senders

variable {sender : Sender} {m : NamingMsg}

theorem Sender.mem_msgs (h : m ∈ sender.msgs) :
    m.mUuid = sender.uuid ∧ m.mEndPointAddr = sender.endpoint ∧
      (m.announces = true ∨ m.mType = typeDisconnect) := by
  rcases List.mem_append.mp h with h | h
  · obtain ⟨t, ht, rfl⟩ := List.mem_map.mp h
    refine ⟨rfl, rfl, Or.inl ?_⟩
    rcases sender.announcing t ht with rfl | rfl <;> rfl
  · split at h
    · rw [List.mem_singleton.mp h]
      exact ⟨rfl, rfl, Or.inr rfl⟩
    · cases h

/-- A sender that does not leave only announces itself. -/
theorem Sender.announces_of_stays (hStays : sender.leaves = false) (h : m ∈ sender.msgs) :
    m.announces = true := by
  rw [Sender.msgs, hStays, if_neg Bool.false_ne_true, List.append_nil] at h
  obtain ⟨t, ht, rfl⟩ := List.mem_map.mp h
  rcases sender.announcing t ht with rfl | rfl <;> rfl

theorem Sender.getLast?_of_leaves (hLeaves : sender.leaves = true) :
    sender.msgs.getLast? = some (sender.msg typeDisconnect) := by
  rw [Sender.msgs, hLeaves, if_pos rfl, List.getLast?_concat]

end Senders

/-- What the receiver knows about a sender: the recorded message, and whether it is
connected. -/
def NamingTransport.seen (impl : NamingTransport) (sender : Sender) : Option NamingMsg × Bool :=
  (impl.mPeers.lookup sender.uuid, decide (sender.endpoint ∈ impl.mZmqDataSub))

/-- How a message of the sender changes that. -/
def notice {k : Nat} (seen : Option NamingMsg × Bool) (h : Handled k) :
    Option NamingMsg × Bool :=
  if h.msg.announces then
    match seen.1 with
    | none => (if h.memory then some h.msg else none, true)
    | some _ => seen
  else (none, false)

section Handle

variable {k : Nat} {impl : NamingTransport} {h : Handled k} {sender : Sender}

theorem handle_mPeers (hA : h.msg.announces = true) :
    (impl.handle h).mPeers =
      if impl.mPeers.lookup h.msg.mUuid = none ∧ h.memory = true
      then impl.mPeers.insert h.msg.mUuid h.msg else impl.mPeers := by
  rw [NamingTransport.handle, dispatchNamingMsg_mPeers hA rfl]
  simp only [NamingCalls.allOk, true_and]

theorem handle_mZmqDataSub (hA : h.msg.announces = true) :
    (impl.handle h).mZmqDataSub =
      if impl.mPeers.lookup h.msg.mUuid = none
      then insert h.msg.mEndPointAddr impl.mZmqDataSub else impl.mZmqDataSub := by
  rw [NamingTransport.handle, dispatchNamingMsg_mZmqDataSub hA rfl]

theorem handle_disconnect (hD : h.msg.mType = typeDisconnect) :
    impl.handle h = { impl with
      mPeers := impl.mPeers.erase h.msg.mUuid
      mZmqDataSub := impl.mZmqDataSub.erase h.msg.mEndPointAddr } := by
  rw [NamingTransport.handle, dispatchNamingMsg_disconnect hD rfl]

/-- A message of the sender itself. -/
theorem seen_handle_own (hMem : h.msg ∈ sender.msgs) :
    (impl.handle h).seen sender = notice (impl.seen sender) h := by
  obtain ⟨hUuid, hEndpoint, hKind⟩ := Sender.mem_msgs hMem
  by_cases hA : h.msg.announces = true
  · rw [notice, if_pos hA, NamingTransport.seen, handle_mPeers hA, handle_mZmqDataSub hA,
      NamingTransport.seen]
    rw [hUuid, hEndpoint]
    cases hL : impl.mPeers.lookup sender.uuid with
    | none => cases h.memory <;> simp [hL]
    | some r => simp [hL]
  · have hD := hKind.resolve_left hA
    rw [handle_disconnect hD, notice, if_neg hA]
    simp [NamingTransport.seen, hUuid, hEndpoint]

/-- A message of a sender with another uuid and endpoint. -/
theorem seen_handle_other {other : Sender} (hMem : h.msg ∈ other.msgs)
    (hUuid : other.uuid ≠ sender.uuid) (hEndpoint : other.endpoint ≠ sender.endpoint) :
    (impl.handle h).seen sender = impl.seen sender := by
  obtain ⟨hmUuid, hmEndpoint, hKind⟩ := Sender.mem_msgs hMem
  by_cases hA : h.msg.announces = true
  · have hPeers : (impl.handle h).mPeers.lookup sender.uuid =
        impl.mPeers.lookup sender.uuid := by
      rw [handle_mPeers hA, hmUuid]
      split
      · exact AList.lookup_insert_ne (Ne.symm hUuid)
      · rfl
    have hSub : sender.endpoint ∈ (impl.handle h).mZmqDataSub ↔
        sender.endpoint ∈ impl.mZmqDataSub := by
      rw [handle_mZmqDataSub hA, hmEndpoint]
      split
      · simp [Ne.symm hEndpoint]
      · rfl
    rw [NamingTransport.seen, NamingTransport.seen, hPeers, decide_eq_decide.mpr hSub]
  · have hD := hKind.resolve_left hA
    rw [handle_disconnect hD]
    simp [NamingTransport.seen, hmUuid, hmEndpoint, AList.lookup_erase_ne (Ne.symm hUuid),
      Ne.symm hEndpoint]

end Handle

-- ---------------------------------------------------------------------------
-- One sender's messages as they arrive
-- ---------------------------------------------------------------------------

section Arrived

variable {k : Nat} {sender : Sender} {arrived : List (Handled k)}

/-- Of a sender that only announces itself, the first message there is memory for is
recorded and stays. -/
theorem foldl_notice_announced (h : ∀ r ∈ arrived, r.msg.announces = true)
    (recorded : Option NamingMsg) :
    arrived.foldl notice (recorded, true) =
      (recorded.or ((arrived.find? Handled.memory).map Handled.msg), true) := by
  induction arrived generalizing recorded with
  | nil => simp
  | cons r rest ih =>
    have hRest : ∀ q ∈ rest, q.msg.announces = true := fun q hq =>
      h q (List.mem_cons_of_mem r hq)
    have hFirst : notice (recorded, true) r =
        (recorded.or (if r.memory then some r.msg else none), true) := by
      rw [notice, if_pos (h r List.mem_cons_self)]
      cases recorded <;> rfl
    rw [List.foldl_cons, hFirst, ih hRest]
    cases hMemory : r.memory with
    | true => simp [List.find?_cons_of_pos hMemory]
    | false =>
      rw [List.find?_cons_of_neg (Bool.eq_false_iff.mp hMemory), if_neg Bool.false_ne_true,
        Option.or_none]

/-- **What is left of a sender** whose messages arrived in any order that begins and
ends as it did. -/
theorem foldl_notice (hMem : ∀ r ∈ arrived, r.msg ∈ sender.msgs)
    (hHead : (arrived.map Handled.msg).head? = sender.msgs.head?)
    (hLast : (arrived.map Handled.msg).getLast? = sender.msgs.getLast?) :
    arrived.foldl notice (none, false) =
      if sender.leaves then (none, false)
      else ((arrived.find? Handled.memory).map Handled.msg,
        decide (sender.announcements ≠ [])) := by
  cases hLeaves : sender.leaves with
  | true =>
    rw [Sender.getLast?_of_leaves hLeaves, List.getLast?_map, Option.map_eq_some_iff] at hLast
    obtain ⟨r, hr, hMsg⟩ := hLast
    obtain ⟨before, rfl⟩ := List.getLast?_eq_some_iff.mp hr
    rw [List.foldl_append, if_pos rfl, List.foldl_cons, List.foldl_nil, notice, hMsg]
    rfl
  | false =>
    rw [if_neg Bool.false_ne_true]
    have hMsgs : sender.msgs = sender.announcements.map sender.msg := by
      rw [Sender.msgs, hLeaves, if_neg Bool.false_ne_true, List.append_nil]
    have hAnnounce : ∀ r ∈ arrived, r.msg.announces = true := fun r hr =>
      Sender.announces_of_stays hLeaves (hMem r hr)
    cases arrived with
    | nil =>
      have hNil : sender.announcements = [] := by
        rw [hMsgs, List.map_nil, List.head?_nil, eq_comm, List.head?_eq_none_iff,
          List.map_eq_nil_iff] at hHead
        exact hHead
      rw [hNil]
      rfl
    | cons r rest =>
      have hSome : sender.announcements ≠ [] := by
        intro hNil
        rw [hMsgs, hNil] at hHead
        cases hHead
      -- from the first message on the sender is connected
      have hFirst : notice (none, false) r = notice (none, true) r := by
        rw [notice, notice, if_pos (hAnnounce r List.mem_cons_self)]
      rw [List.foldl_cons, hFirst, ← List.foldl_cons, foldl_notice_announced hAnnounce,
        decide_eq_true hSome, Option.none_or]

end Arrived

-- ---------------------------------------------------------------------------
-- All senders, all proxies
-- ---------------------------------------------------------------------------

section Proxies

variable {ι : Type*} {senders : ι → Sender} {k : Nat} {handled : List (Handled k)}

theorem mem_handled
    (hForward : ∀ p, Forwards senders (actionsOf p (handled.map Handled.arrival)))
    {h : Handled k} (hh : h ∈ handled) : ∃ i, h.msg ∈ (senders i).msgs :=
  (hForward h.proxy).sent h.msg (mem_actionsOf.mpr (List.mem_map.mpr ⟨h, hh, rfl⟩))

/-- The messages of one sender, as they arrived. -/
def arrivedFrom (handled : List (Handled k)) (sender : Sender) : List (Handled k) :=
  handled.filter fun h => h.msg.mUuid = sender.uuid

theorem arrivedFrom_msg (handled : List (Handled k)) (sender : Sender) :
    (arrivedFrom handled sender).map Handled.msg =
      ((handled.map Handled.arrival).map Prod.snd).filter fun m => m.mUuid = sender.uuid := by
  rw [arrivedFrom, List.map_map, List.filter_map]
  rfl

/-- **What the receiver knows about a sender in the end.** -/
theorem seen_handleAll (hUuid : Function.Injective fun i => (senders i).uuid)
    (hEndpoint : Function.Injective fun i => (senders i).endpoint) (hk : 0 < k)
    (hForward : ∀ p, Forwards senders (actionsOf p (handled.map Handled.arrival)))
    {impl : NamingTransport} (hPeers : impl.mPeers = ∅) (hSub : impl.mZmqDataSub = ∅) (i : ι) :
    (impl.handleAll handled).seen (senders i) =
      if (senders i).leaves then (none, false)
      else (((arrivedFrom handled (senders i)).find? Handled.memory).map Handled.msg,
        decide ((senders i).announcements ≠ [])) := by
  have : Nonempty (Fin k) := ⟨⟨0, hk⟩⟩
  have hCopies : Copies (fun m => m.mUuid = (senders i).uuid) (senders i).msgs
      (handled.map Handled.arrival) := fun p => (hForward p).order i
  -- the messages of `i` are those with its uuid
  have hView : (impl.handleAll handled).seen (senders i) =
      (arrivedFrom handled (senders i)).foldl notice (impl.seen (senders i)) := by
    refine foldl_view (v := fun impl => NamingTransport.seen impl (senders i)) ?_ ?_ impl
    · intro s h hh hP
      obtain ⟨j, hj⟩ := mem_handled hForward hh
      have hij : j = i := hUuid ((Sender.mem_msgs hj).1.symm.trans (of_decide_eq_true hP))
      exact seen_handle_own (hij ▸ hj)
    · intro s h hh hP
      obtain ⟨j, hj⟩ := mem_handled hForward hh
      have hij : j ≠ i := by
        rintro rfl
        exact of_decide_eq_false hP (Sender.mem_msgs hj).1
      exact seen_handle_other hj (fun h => hij (hUuid h)) (fun h => hij (hEndpoint h))
  have hStart : impl.seen (senders i) = (none, false) := by
    rw [NamingTransport.seen, hPeers, hSub, AList.lookup_empty]
    rfl
  rw [hView, hStart]
  refine foldl_notice (fun r hr => ?_) ?_ ?_
  · rw [← hCopies.mem_iff, ← arrivedFrom_msg]
    exact List.mem_map_of_mem hr
  · rw [arrivedFrom_msg]
    exact hCopies.head?_eq
  · rw [arrivedFrom_msg]
    exact hCopies.getLast?_eq

/-- What no message of a sender changes stays as it is. -/
theorem handleAll_frame {τ : Type*} {v : NamingTransport → τ}
    (hForward : ∀ p, Forwards senders (actionsOf p (handled.map Handled.arrival)))
    (hFrame : ∀ s i, ∀ h : Handled k, h.msg ∈ (senders i).msgs →
      v (NamingTransport.handle s h) = v s)
    (impl : NamingTransport) : v (impl.handleAll handled) = v impl := by
  have hView := foldl_view (f := NamingTransport.handle) (v := v) (P := fun _ => false)
    (g := fun seen _ => seen) (l := handled)
    (fun _ _ _ h => absurd h Bool.false_ne_true)
    (fun s h hh _ => by
      obtain ⟨i, hi⟩ := mem_handled hForward hh
      exact hFrame s i h hi) impl
  rw [List.filter_false, List.foldl_nil] at hView
  exact hView

/-- Nobody else is recorded. -/
theorem lookup_handleAll
    (hForward : ∀ p, Forwards senders (actionsOf p (handled.map Handled.arrival)))
    {impl : NamingTransport} (hPeers : impl.mPeers = ∅) {uuid : List Byte}
    (hNone : ¬ ∃ i, (senders i).uuid = uuid) :
    (impl.handleAll handled).mPeers.lookup uuid = none := by
  rw [handleAll_frame (v := fun impl => impl.mPeers.lookup uuid) hForward ?_ impl, hPeers,
    AList.lookup_empty]
  intro s i h hh
  obtain ⟨hmUuid, -, hKind⟩ := Sender.mem_msgs hh
  have hne : uuid ≠ h.msg.mUuid := fun hEq => hNone ⟨i, by rw [hEq, hmUuid]⟩
  by_cases hA : h.msg.announces = true
  · rw [handle_mPeers hA]
    split
    · exact AList.lookup_insert_ne hne
    · rfl
  · rw [handle_disconnect (hKind.resolve_left hA)]
    exact AList.lookup_erase_ne hne

/-- Nobody else is connected. -/
theorem notMem_handleAll
    (hForward : ∀ p, Forwards senders (actionsOf p (handled.map Handled.arrival)))
    {impl : NamingTransport} (hSub : impl.mZmqDataSub = ∅) {endpoint : List Byte}
    (hNone : ¬ ∃ i, (senders i).endpoint = endpoint) :
    endpoint ∉ (impl.handleAll handled).mZmqDataSub := by
  rw [handleAll_frame (v := fun impl => endpoint ∉ impl.mZmqDataSub) hForward ?_ impl, hSub]
  · exact Finset.notMem_empty endpoint
  · intro s i h hh
    obtain ⟨-, hmEndpoint, hKind⟩ := Sender.mem_msgs hh
    have hne : endpoint ≠ h.msg.mEndPointAddr := fun hEq => hNone ⟨i, by rw [hEq, hmEndpoint]⟩
    by_cases hA : h.msg.announces = true
    · rw [handle_mZmqDataSub hA]
      split
      · simp [hne]
      · rfl
    · rw [handle_disconnect (hKind.resolve_left hA)]
      simp [hne]

section Outcome

variable (hUuid : Function.Injective fun i => (senders i).uuid)
  (hEndpoint : Function.Injective fun i => (senders i).endpoint) (hk : 0 < k)
  (hForward : ∀ p, Forwards senders (actionsOf p (handled.map Handled.arrival)))
  {impl : NamingTransport} (hPeers : impl.mPeers = ∅) (hSub : impl.mZmqDataSub = ∅)

include hUuid hEndpoint hk hForward hPeers hSub

/-- The sockets are connected to those who are there, whatever is recorded. -/
theorem mem_handleAll (endpoint : List Byte) :
    endpoint ∈ (impl.handleAll handled).mZmqDataSub ↔
      ∃ i, (senders i).Present ∧ (senders i).endpoint = endpoint := by
  by_cases hSome : ∃ i, (senders i).endpoint = endpoint
  · obtain ⟨i, rfl⟩ := hSome
    have hConnected := congrArg Prod.snd
      (seen_handleAll hUuid hEndpoint hk hForward hPeers hSub i)
    constructor
    · intro h
      rw [NamingTransport.seen, decide_eq_true h] at hConnected
      split at hConnected
      · cases hConnected
      · rename_i hStays
        exact ⟨i, ⟨of_decide_eq_true hConnected.symm, Bool.eq_false_iff.mpr hStays⟩, rfl⟩
    · rintro ⟨j, ⟨hNe, hStays⟩, hj⟩
      obtain rfl := hEndpoint hj
      rw [if_neg (by rw [hStays]; exact Bool.false_ne_true), decide_eq_true hNe] at hConnected
      exact of_decide_eq_true hConnected
  · refine iff_of_false (notMem_handleAll hForward hSub hSome) ?_
    rintro ⟨i, -, hi⟩
    exact hSome ⟨i, hi⟩

/-- Of a sender that is there, the first message there was memory for is recorded. -/
theorem lookup_handleAll_eq (uuid : List Byte) (m : NamingMsg) :
    (impl.handleAll handled).mPeers.lookup uuid = some m ↔
      ∃ i, (senders i).Present ∧ (senders i).uuid = uuid ∧
        ((arrivedFrom handled (senders i)).find? Handled.memory).map Handled.msg = some m := by
  by_cases hSome : ∃ i, (senders i).uuid = uuid
  · obtain ⟨i, rfl⟩ := hSome
    have hLookup := congrArg Prod.fst
      (seen_handleAll hUuid hEndpoint hk hForward hPeers hSub i)
    constructor
    · intro h
      rw [NamingTransport.seen, h] at hLookup
      split at hLookup
      · cases hLookup
      · rename_i hStays
        have hStays' := Bool.eq_false_iff.mpr hStays
        refine ⟨i, ⟨fun hNil => ?_, hStays'⟩, rfl, hLookup.symm⟩
        -- somebody who sent nothing is not recorded
        obtain ⟨r, hFind, -⟩ := Option.map_eq_some_iff.mp hLookup.symm
        obtain ⟨hMem, hOwn⟩ := List.mem_filter.mp (List.mem_of_find?_eq_some hFind)
        obtain ⟨j, hj⟩ := mem_handled hForward hMem
        obtain rfl : j = i := hUuid ((Sender.mem_msgs hj).1.symm.trans (of_decide_eq_true hOwn))
        rw [Sender.msgs, hNil, hStays', if_neg Bool.false_ne_true] at hj
        exact absurd hj List.not_mem_nil
    · rintro ⟨j, ⟨-, hStays⟩, hj, hFirst⟩
      obtain rfl := hUuid hj
      rw [if_neg (by rw [hStays]; exact Bool.false_ne_true)] at hLookup
      exact hLookup.trans hFirst
  · refine iff_of_false ?_ ?_
    · rw [lookup_handleAll hForward hPeers hSome]
      exact (Option.some_ne_none m).symm
    · rintro ⟨i, -, hi, -⟩
      exact hSome ⟨i, hi⟩

/--
**Redundant proxies do not change the outcome**, as far as there is memory. Whatever
number of proxies forwards the messages of the senders, and in whatever order what they
forward arrives at a new transport: in the end the data socket is connected to the
endpoints of the senders that announced themselves and did not leave, and to no other. The
table holds exactly these senders if and only if for each of them there was memory when
one of its messages was handled; if there always was, it holds the first message of each.
-/
theorem redundant_proxies_iff :
    (∀ endpoint, endpoint ∈ (impl.handleAll handled).mZmqDataSub ↔
      ∃ i, (senders i).Present ∧ (senders i).endpoint = endpoint) ∧
    ((∀ uuid, (impl.handleAll handled).mPeers.lookup uuid ≠ none ↔
        ∃ i, (senders i).Present ∧ (senders i).uuid = uuid) ↔
      ∀ i, (senders i).Present →
        ∃ h ∈ handled, h.msg.mUuid = (senders i).uuid ∧ h.memory = true) ∧
    ((∀ h ∈ handled, h.memory = true) →
      ∀ uuid m, (impl.handleAll handled).mPeers.lookup uuid = some m ↔
        ∃ i, (senders i).Present ∧ (senders i).uuid = uuid ∧
          (senders i).msgs.head? = some m) := by
  have hTable := lookup_handleAll_eq hUuid hEndpoint hk hForward hPeers hSub
  refine ⟨mem_handleAll hUuid hEndpoint hk hForward hPeers hSub, ⟨fun h i hPresent => ?_,
    fun h uuid => ?_⟩, fun hMemory uuid m => (hTable uuid m).trans ?_⟩
  · obtain ⟨m, hm⟩ := Option.ne_none_iff_exists'.mp ((h _).mpr ⟨i, hPresent, rfl⟩)
    obtain ⟨j, -, hj, hFirst⟩ := (hTable _ m).mp hm
    obtain rfl := hUuid hj
    obtain ⟨r, hFind, -⟩ := Option.map_eq_some_iff.mp hFirst
    obtain ⟨hMem, hOwn⟩ := List.mem_filter.mp (List.mem_of_find?_eq_some hFind)
    exact ⟨r, hMem, of_decide_eq_true hOwn, List.find?_some hFind⟩
  · rw [Option.ne_none_iff_exists']
    constructor
    · rintro ⟨m, hm⟩
      obtain ⟨i, hPresent, hi, -⟩ := (hTable uuid m).mp hm
      exact ⟨i, hPresent, hi⟩
    · rintro ⟨i, hPresent, rfl⟩
      obtain ⟨r, hMem, hOwn, hMemory⟩ := h i hPresent
      have hSome : ((arrivedFrom handled (senders i)).find? Handled.memory).isSome :=
        List.find?_isSome.mpr
          ⟨r, List.mem_filter.mpr ⟨hMem, decide_eq_true hOwn⟩, hMemory⟩
      obtain ⟨q, hq⟩ := Option.isSome_iff_exists.mp hSome
      exact ⟨q.msg, (hTable _ _).mpr ⟨i, hPresent, rfl, by rw [hq]; rfl⟩⟩
  · -- with memory for all of them, the first one counts
    have : Nonempty (Fin k) := ⟨⟨0, hk⟩⟩
    refine exists_congr fun i => and_congr_right fun _ => and_congr_right fun _ => ?_
    have hCopies : Copies (fun m => m.mUuid = (senders i).uuid) (senders i).msgs
        (handled.map Handled.arrival) := fun p => (hForward p).order i
    have hFirst : (arrivedFrom handled (senders i)).find? Handled.memory =
        (arrivedFrom handled (senders i)).head? := by
      cases hArrived : arrivedFrom handled (senders i) with
      | nil => rfl
      | cons r rest =>
        have hr : r ∈ arrivedFrom handled (senders i) := hArrived ▸ List.mem_cons_self
        rw [List.find?_cons_of_pos (hMemory r (List.mem_filter.mp hr).1), List.head?_cons]
    rw [hFirst, ← List.head?_map, arrivedFrom_msg, hCopies.head?_eq]

end Outcome

end Proxies

/-- A transport that comes and goes, and one that stays. -/
def comingAndGoing : Bool → Sender
  | true => ⟨[1], [11], [typeConnect, typeBeacon], true, by simp⟩
  | false => ⟨[2], [12], [typeBeacon, typeConnect], false, by simp⟩

/-- A transport that has not met anybody. -/
def newcomer : NamingTransport where
  mUuid := [3]
  mPubEndpoint := [13]
  mNamingConnectRetries := 3
  mPeers := ∅
  mNamingConnected := false
  mIsDispatching := true
  mZmqDataSub := ∅
  mZmqNamingPub := ∅

/-- Two proxies; the second brings the announcements of the first sender after the
first has brought its 'D'. At first there is no memory for the second sender. -/
def lateCopies : List (Handled 2) :=
  [⟨true, 0, ⟨typeConnect, [1], [11]⟩⟩, ⟨true, 0, ⟨typeBeacon, [1], [11]⟩⟩,
    ⟨true, 0, ⟨typeDisconnect, [1], [11]⟩⟩, ⟨false, 1, ⟨typeBeacon, [2], [12]⟩⟩,
    ⟨true, 1, ⟨typeConnect, [1], [11]⟩⟩, ⟨true, 0, ⟨typeBeacon, [2], [12]⟩⟩,
    ⟨true, 1, ⟨typeBeacon, [1], [11]⟩⟩, ⟨true, 1, ⟨typeConnect, [2], [12]⟩⟩,
    ⟨true, 1, ⟨typeDisconnect, [1], [11]⟩⟩, ⟨true, 0, ⟨typeConnect, [2], [12]⟩⟩]

theorem redundant_proxies_lateCopies :
    (newcomer.handleAll lateCopies).mPeers.lookup [1] = none ∧
      (newcomer.handleAll lateCopies).mPeers.lookup [2] ≠ none ∧
      [11] ∉ (newcomer.handleAll lateCopies).mZmqDataSub ∧
      [12] ∈ (newcomer.handleAll lateCopies).mZmqDataSub := by
  have hForward : ∀ p, Forwards comingAndGoing (actionsOf p (lateCopies.map Handled.arrival)) :=
    fun p => ⟨by revert p; decide, by revert p; decide⟩
  obtain ⟨hSocket, hTable, -⟩ := redundant_proxies_iff (by decide) (by decide) (by decide)
    hForward (show newcomer.mPeers = ∅ from rfl) rfl
  have hExact := hTable.mpr (by decide)
  refine ⟨?_, (hExact _).mpr ⟨false, by decide, rfl⟩, fun h => ?_,
    (hSocket _).mpr ⟨false, by decide, rfl⟩⟩
  · by_contra hSome
    obtain ⟨i, hPresent, hi⟩ := (hExact _).mp hSome
    revert hPresent hi
    cases i <;> decide
  · obtain ⟨i, hPresent, hi⟩ := (hSocket _).mp h
    revert hPresent hi
    cases i <;> decide

/-- **A peer that is not recorded.** One sender, one proxy and one message; without memory
the transport is connected to the sender and does not have it in its table. -/
theorem peer_unrecorded :
    let senders : Unit → Sender := fun _ => ⟨[1], [11], [typeConnect], false, by simp⟩
    let handled : List (Handled 1) := [⟨false, 0, ⟨typeConnect, [1], [11]⟩⟩]
    (∀ p, Forwards senders (actionsOf p (handled.map Handled.arrival))) ∧
      (senders ()).Present ∧ [11] ∈ (newcomer.handleAll handled).mZmqDataSub ∧
      (newcomer.handleAll handled).mPeers.lookup [1] = none :=
  ⟨fun p => ⟨by revert p; decide, by revert p; decide⟩, by decide, by decide, by decide⟩

end ZmqBridge
