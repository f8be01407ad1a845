import ZmqBridge.Naming.Mesh

/-!
# ZmqBridge — how often transports reply

A transport that hears of a peer for the first time announces itself again. Each
announcement goes to every transport, so one message can lead to many. This
module counts the replies of the transports of a mesh and shows that they stop,
provided that each peer that is answered is also remembered. The allocation of
the record may fail, after the reply is sent.

* `no_discovery_storm` — replies and peers are the same number exactly as long as
  every record is allocated; then deliveries take from a measure;
* `replies_repeated`   — what happens without memory.
-/

namespace ZmqBridge

open Lib

variable {ι : Type*}

-- ---------------------------------------------------------------------------
-- A mesh with counters
-- ---------------------------------------------------------------------------

/-- `replies i` is the number of messages sent by `dispatchNamingMsg` of transport
`i`. -/
structure CountedMesh (ι : Type*) where
  mesh : Mesh ι
  replies : ι → Nat

def CountedMesh.init (C : Cluster ι) : CountedMesh ι := ⟨Mesh.init C, fun _ => 0⟩

/-- One step. The ZeroMQ calls of `dispatchNamingMsg` succeed; whether there is memory
for a new peer, and whether a thread can be created, is left open. -/
def CountedMesh.step [DecidableEq ι] (C : Cluster ι) (s : CountedMesh ι) :
    MeshAct ι → Option (CountedMesh ι)
  | .dispatch i m calls keep =>
    if m ∈ (s.mesh i).inQ ∧ calls.connect = true ∧ calls.send = true then
      some
        { mesh := Function.update s.mesh i ((s.mesh i).dispatch m calls keep)
          replies := Function.update s.replies i (s.replies i +
            (TransportImpl.dispatchNamingMsg calls (s.mesh i).impl m).sent.length) }
    else none
  | .join i => (Mesh.step C s.mesh (.join i)).map fun mesh => { s with mesh }
  | .pubUp i => (Mesh.step C s.mesh (.pubUp i)).map fun mesh => { s with mesh }
  | .publish i thread ok keep =>
    (Mesh.step C s.mesh (.publish i thread ok keep)).map fun mesh => { s with mesh }
  | .forward i m => (Mesh.step C s.mesh (.forward i m)).map fun mesh => { s with mesh }

/-- The size of a transport's table. -/
def MeshNode.peers (n : MeshNode) : Nat := n.impl.mPeers.keys.length

/-- Every transport has replied once for each peer in its table. -/
def CountedMesh.Counted (s : CountedMesh ι) : Prop := ∀ i, s.replies i = (s.mesh i).peers

/-- A peer that is answered is remembered: there is memory for its record. -/
def CountedMesh.Remembers (s : CountedMesh ι) : MeshAct ι → Prop
  | .dispatch i m calls _ =>
    m.announces = true → (s.mesh i).impl.mPeers.lookup m.mUuid = none → calls.malloc = true
  | _ => True

/-- The proxy or a transport takes a message off its queue. -/
def MeshAct.delivers : MeshAct ι → Bool
  | .dispatch _ _ _ _ => true
  | .forward _ _ => true
  | _ => false

/-- All `publishEndpoints` threads have ended, and no welcome that would start
another is under way. -/
def CountedMesh.Settled (C : Cluster ι) (s : CountedMesh ι) : Prop :=
  ∀ i, C.welcome ∉ (s.mesh i).inQ ∧ ∀ pc ∈ (s.mesh i).threads, pc = .done

-- ---------------------------------------------------------------------------
-- What each transport knows
-- ---------------------------------------------------------------------------

/-- A transport only handles messages of the cluster, and only has its
transports in its table. -/
structure MeshNode.Named (C : Cluster ι) (i : ι) (n : MeshNode) : Prop where
  uuid : n.impl.mUuid = C.uuid i
  endpoint : n.impl.mPubEndpoint = C.endpoint i
  outQ : ∀ m ∈ n.outQ, m = C.announcement i
  inQ : ∀ m ∈ n.inQ, m = C.welcome ∨ ∃ j, m = C.announcement j
  keys : ∀ u ∈ n.impl.mPeers.keys, ∃ j, u = C.uuid j

section Node

variable {C : Cluster ι} {i : ι} {n : MeshNode} {calls : NamingCalls} {keep : Bool}

/-- A table has no more entries than there are transports. -/
theorem MeshNode.Named.peers_le [Fintype ι] (h : n.Named C i) :
    n.peers ≤ Fintype.card ι := by
  have hSub : n.impl.mPeers.keys.toFinset ⊆ Finset.univ.image C.uuid := by
    intro u hu
    obtain ⟨j, rfl⟩ := h.keys u (List.mem_toFinset.mp hu)
    exact Finset.mem_image_of_mem _ (Finset.mem_univ j)
  calc n.peers
    _ = n.impl.mPeers.keys.toFinset.card :=
      (List.toFinset_card_of_nodup n.impl.mPeers.keys_nodup).symm
    _ ≤ (Finset.univ.image C.uuid).card := Finset.card_le_card hSub
    _ ≤ Fintype.card ι := Finset.card_image_le

theorem MeshNode.Named.endpointsMsg (h : n.Named C i) :
    n.impl.endpointsMsg typeConnect = C.announcement i := by
  rw [NamingTransport.endpointsMsg, h.uuid, h.endpoint]
  rfl

/-- Posting announcements of one's own. -/
theorem MeshNode.Named.post (h : n.Named C i) {sent : List NamingMsg}
    (hSent : ∀ m ∈ sent, m = C.announcement i) : (n.post sent keep).Named C i where
  uuid := by rw [post_impl]; exact h.uuid
  endpoint := by rw [post_impl]; exact h.endpoint
  outQ m hm := by
    rcases mem_post_outQ hm with hOld | hNew
    · exact h.outQ m hOld
    · exact hSent m hNew
  inQ := by rw [post_inQ]; exact h.inQ
  keys := by rw [post_impl]; exact h.keys

/-- What handling a message does to the table. -/
theorem dispatch_keys {impl : NamingTransport} {m : NamingMsg} (hConnect : calls.connect = true)
    (hSend : calls.send = true) (hMsg : m = C.welcome ∨ ∃ j, m = C.announcement j) :
    (TransportImpl.dispatchNamingMsg calls impl m).impl.mPeers.keys =
      if m.announces = true ∧ impl.mPeers.lookup m.mUuid = none ∧ calls.malloc = true
      then m.mUuid :: impl.mPeers.keys else impl.mPeers.keys := by
  rcases hMsg with rfl | ⟨j, rfl⟩
  · rw [dispatchNamingMsg_welcome rfl hConnect]
    exact (if_neg fun h => Bool.false_ne_true h.1).symm
  · rw [dispatchNamingMsg_mPeers rfl hConnect]
    by_cases hNew : impl.mPeers.lookup (C.announcement j).mUuid = none ∧ calls.malloc = true
    · rw [if_pos ⟨hNew.1, hSend, hNew.2⟩, if_pos ⟨rfl, hNew⟩, AList.keys,
        AList.entries_insert_of_notMem (AList.lookup_eq_none.mp hNew.1)]
      rfl
    · rw [if_neg fun h => hNew ⟨h.1, h.2.2⟩, if_neg fun h => hNew h.2]

/-- A transport handles a message. -/
theorem MeshNode.Named.dispatch (h : n.Named C i) (keep : Bool) {m : NamingMsg} (hIn : m ∈ n.inQ)
    (hConnect : calls.connect = true) (hSend : calls.send = true) :
    (n.dispatch m calls keep).Named C i := by
  obtain ⟨hUuid, hEndpoint, -⟩ := dispatchNamingMsg_frame calls n.impl m
  have hKeys : ∀ u ∈ (TransportImpl.dispatchNamingMsg calls n.impl m).impl.mPeers.keys,
      ∃ j, u = C.uuid j := by
    intro u hu
    rw [dispatch_keys hConnect hSend (h.inQ m hIn)] at hu
    split at hu
    · rename_i hNew
      rcases List.mem_cons.mp hu with rfl | hOld
      · rcases h.inQ m hIn with rfl | ⟨j, rfl⟩
        · cases hNew.1
        · exact ⟨j, rfl⟩
      · exact h.keys u hOld
    · exact h.keys u hu
  rw [MeshNode.dispatch]
  refine MeshNode.Named.post ?_ ?_
  · exact
      { uuid := hUuid.trans h.uuid
        endpoint := hEndpoint.trans h.endpoint
        outQ := h.outQ
        inQ := fun m' hm' => h.inQ m' (List.mem_of_mem_erase hm')
        keys := hKeys }
  · intro m' hm'
    rw [dispatchNamingMsg_sent] at hm'
    split at hm'
    · rw [List.mem_singleton.mp hm', h.endpointsMsg]
    · cases hm'

/-- A step of a `publishEndpoints` thread. -/
theorem MeshNode.Named.publish (h : n.Named C i) (k : Nat) (pc : PublishPc) (ok : Bool) :
    (n.publish k pc ok keep).Named C i := by
  obtain ⟨b, hImpl, -⟩ := publishEndpoints_impl n.impl pc
  refine MeshNode.Named.post ?_ ?_
  · rw [hImpl]
    exact ⟨h.uuid, h.endpoint, h.outQ, h.inQ, h.keys⟩
  · intro m hm
    rw [mem_publish_sent hm, h.endpointsMsg]

theorem publish_keys (k : Nat) (pc : PublishPc) (ok : Bool) :
    (n.publish k pc ok keep).impl.mPeers = n.impl.mPeers := by
  obtain ⟨b, hImpl, -⟩ := publishEndpoints_impl n.impl pc
  rw [MeshNode.publish, post_impl]
  show (TransportImpl.publishEndpoints n.impl pc).impl.mPeers = _
  rw [hImpl]

/-- Handling a message: the reply, and the table afterwards. -/
theorem MeshNode.Named.dispatch_counts (hNamed : n.Named C i) (keep : Bool)
    {m : NamingMsg} (hIn : m ∈ n.inQ) (hConnect : calls.connect = true)
    (hSend : calls.send = true) :
    (TransportImpl.dispatchNamingMsg calls n.impl m).sent.length =
      (if m.announces = true ∧ n.impl.mPeers.lookup m.mUuid = none then 1 else 0) ∧
    (n.dispatch m calls keep).peers = n.peers +
      if m.announces = true ∧ n.impl.mPeers.lookup m.mUuid = none ∧ calls.malloc = true
      then 1 else 0 := by
  constructor
  · rw [dispatchNamingMsg_sent, hConnect, hSend]
    simp only [and_true]
    split <;> rfl
  · rw [MeshNode.peers, MeshNode.dispatch, post_impl]
    show (TransportImpl.dispatchNamingMsg calls n.impl m).impl.mPeers.keys.length = _
    rw [dispatch_keys hConnect hSend (hNamed.inQ m hIn)]
    split <;> rfl

end Node

-- ---------------------------------------------------------------------------
-- Steps
-- ---------------------------------------------------------------------------

/-- Every transport is named. -/
def CountedMesh.Named (C : Cluster ι) (s : CountedMesh ι) : Prop := ∀ i, (s.mesh i).Named C i

theorem CountedMesh.named_init {C : Cluster ι} : (CountedMesh.init C).Named C := fun _ =>
  { uuid := rfl
    endpoint := rfl
    outQ := fun _ hm => absurd hm List.not_mem_nil
    inQ := fun _ hm => absurd hm List.not_mem_nil
    keys := fun _ hu => absurd hu List.not_mem_nil }

section Steps

variable [DecidableEq ι] {C : Cluster ι} {s s' : CountedMesh ι} {a : MeshAct ι}

/-- The proxy forwards an announcement. -/
theorem MeshNode.Named.forward {s : Mesh ι} {i j : ι} (h : (s j).Named C j) {m : NamingMsg}
    (hMsg : m = C.announcement i) : (s.forward i m j).Named C j := by
  have hOut : ∀ m' ∈ (if j = i then (s j).outQ.erase m else (s j).outQ),
      m' = C.announcement j := by
    intro m' hm'
    split at hm'
    · exact h.outQ m' (List.mem_of_mem_erase hm')
    · exact h.outQ m' hm'
  have hIn : ∀ m' ∈ (s j).inQ ++ [m], m' = C.welcome ∨ ∃ k, m' = C.announcement k := by
    intro m' hm'
    rcases List.mem_append.mp hm' with hOld | hNew
    · exact h.inQ m' hOld
    · exact Or.inr ⟨i, (List.mem_singleton.mp hNew).trans hMsg⟩
  simp only [Mesh.forward]
  split
  · rename_i hj
    rw [if_pos hj] at hOut
    split
    · exact ⟨h.uuid, h.endpoint, hOut, hIn, h.keys⟩
    · exact ⟨h.uuid, h.endpoint, hOut, h.inQ, h.keys⟩
  · rename_i hj
    split
    · exact ⟨h.uuid, h.endpoint, h.outQ, hIn, h.keys⟩
    · exact h

/-- One node of the mesh changes. -/
theorem CountedMesh.Named.update (hNamed : s.Named C) {i : ι} {n : MeshNode}
    (hn : n.Named C i) (j : ι) : (Function.update s.mesh i n j).Named C j := by
  by_cases hj : j = i
  · subst hj
    rw [Function.update_self]
    exact hn
  · rw [Function.update_of_ne hj]
    exact hNamed j

theorem CountedMesh.Named.step (hNamed : s.Named C) (h : s.step C a = some s') :
    s'.Named C := by
  cases a with
  | dispatch i m calls keep =>
    simp only [CountedMesh.step] at h
    split at h
    · rename_i hGuard
      cases h
      exact hNamed.update ((hNamed i).dispatch keep hGuard.1 hGuard.2.1 hGuard.2.2)
    · cases h
  | join i =>
    obtain ⟨mesh, hMesh, rfl⟩ := Option.map_eq_some_iff.mp h
    simp only [Mesh.step] at hMesh
    split at hMesh
    · cases hMesh
      refine hNamed.update ⟨(hNamed i).uuid, (hNamed i).endpoint, (hNamed i).outQ, ?_,
        (hNamed i).keys⟩
      intro m hm
      rcases List.mem_append.mp hm with hOld | hNew
      · exact (hNamed i).inQ m hOld
      · exact Or.inl (List.mem_singleton.mp hNew)
    · cases hMesh
  | pubUp i =>
    obtain ⟨mesh, hMesh, rfl⟩ := Option.map_eq_some_iff.mp h
    simp only [Mesh.step] at hMesh
    split at hMesh
    · cases hMesh
      exact hNamed.update ⟨(hNamed i).uuid, (hNamed i).endpoint, (hNamed i).outQ,
        (hNamed i).inQ, (hNamed i).keys⟩
    · cases hMesh
  | publish i k ok keep =>
    obtain ⟨mesh, hMesh, rfl⟩ := Option.map_eq_some_iff.mp h
    simp only [Mesh.step] at hMesh
    split at hMesh
    · cases hMesh
      exact hNamed.update ((hNamed i).publish k _ ok)
    · cases hMesh
  | forward i m =>
    obtain ⟨mesh, hMesh, rfl⟩ := Option.map_eq_some_iff.mp h
    simp only [Mesh.step] at hMesh
    split at hMesh
    · rename_i hGuard
      cases hMesh
      exact fun j => (hNamed j).forward ((hNamed i).outQ m hGuard.2)
    · cases hMesh

/-- Only handling a message adds to a table. -/
theorem step_peers {mesh : Mesh ι} (hOther : ∀ i m calls keep, a ≠ .dispatch i m calls keep)
    (h : Mesh.step C s.mesh a = some mesh) (j : ι) : (mesh j).peers = (s.mesh j).peers := by
  have hUpdate : ∀ {i : ι} {n : MeshNode}, n.impl.mPeers = (s.mesh i).impl.mPeers →
      (Function.update s.mesh i n j).peers = (s.mesh j).peers := by
    intro i n hn
    by_cases hj : j = i
    · subst hj
      rw [Function.update_self, MeshNode.peers, hn]
      rfl
    · rw [Function.update_of_ne hj]
  cases a with
  | dispatch i m calls keep => exact absurd rfl (hOther i m calls keep)
  | join i =>
    simp only [Mesh.step] at h
    split at h
    · cases h
      exact hUpdate rfl
    · cases h
  | pubUp i =>
    simp only [Mesh.step] at h
    split at h
    · cases h
      exact hUpdate rfl
    · cases h
  | publish i k ok keep =>
    simp only [Mesh.step] at h
    split at h
    · cases h
      exact hUpdate (publish_keys k _ ok)
    · cases h
  | forward i m =>
    simp only [Mesh.step] at h
    split at h
    · cases h
      exact congrArg (fun impl : NamingTransport => impl.mPeers.keys.length) forward_impl
    · cases h

/-- A transport that handles a message stays counted exactly when it remembers
whom it answers. -/
theorem CountedMesh.Counted.dispatch (hCounted : s.Counted) (hNamed : s.Named C) {i : ι}
    {m : NamingMsg} {calls : NamingCalls} {keep : Bool}
    (h : s.step C (.dispatch i m calls keep) = some s') :
    s'.Counted ↔ s.Remembers (.dispatch i m calls keep) := by
  simp only [CountedMesh.step] at h
  split at h
  · rename_i hGuard
    obtain ⟨hIn, hConnect, hSend⟩ := hGuard
    cases h
    obtain ⟨hReplies, hPeers⟩ :=
      (hNamed i).dispatch_counts keep hIn hConnect hSend
    have hOld : s.replies i = (s.mesh i).peers := hCounted i
    -- only the counters of `i` move
    have hSelf : CountedMesh.Counted
        { mesh := Function.update s.mesh i ((s.mesh i).dispatch m calls keep)
          replies := Function.update s.replies i (s.replies i +
            (TransportImpl.dispatchNamingMsg calls (s.mesh i).impl m).sent.length) } ↔
        s.replies i + (TransportImpl.dispatchNamingMsg calls (s.mesh i).impl m).sent.length =
          ((s.mesh i).dispatch m calls keep).peers := by
      constructor
      · intro hNew
        have hi := hNew i
        simp only [Function.update_self] at hi
        exact hi
      · intro hi j
        by_cases hj : j = i
        · subst hj
          simp only [Function.update_self]
          exact hi
        · simp only [Function.update_of_ne hj]
          exact hCounted j
    rw [hSelf, hReplies, hPeers, hOld, CountedMesh.Remembers]
    by_cases hNew : m.announces = true ∧ (s.mesh i).impl.mPeers.lookup m.mUuid = none
    · rw [if_pos hNew]
      cases hMalloc : calls.malloc with
      | true => exact iff_of_true (by rw [if_pos ⟨hNew.1, hNew.2, rfl⟩]) fun _ _ => rfl
      | false =>
        refine iff_of_false ?_ fun hAll => Bool.false_ne_true (hAll hNew.1 hNew.2)
        rw [if_neg fun hAll => Bool.false_ne_true hAll.2.2]
        omega
    · rw [if_neg hNew, if_neg fun hAll => hNew ⟨hAll.1, hAll.2.1⟩]
      exact iff_of_true rfl fun hA hL => absurd ⟨hA, hL⟩ hNew
  · cases h

/-- **One step** keeps the counts exactly when it remembers whom it answers. -/
theorem CountedMesh.Counted.step (hCounted : s.Counted) (hNamed : s.Named C)
    (h : s.step C a = some s') : s'.Counted ↔ s.Remembers a := by
  -- every other step leaves tables and counters alone
  have hSame : ∀ {mesh : Mesh ι}, (∀ i m calls keep, a ≠ .dispatch i m calls keep) →
      Mesh.step C s.mesh a = some mesh → CountedMesh.Counted { s with mesh } := by
    intro mesh hOther hMesh j
    show s.replies j = (mesh j).peers
    rw [step_peers hOther hMesh j]
    exact hCounted j
  cases a with
  | dispatch i m calls keep => exact hCounted.dispatch hNamed h
  | join i =>
    obtain ⟨mesh, hMesh, rfl⟩ := Option.map_eq_some_iff.mp h
    exact iff_of_true (hSame (fun _ _ _ _ h => by cases h) hMesh) trivial
  | pubUp i =>
    obtain ⟨mesh, hMesh, rfl⟩ := Option.map_eq_some_iff.mp h
    exact iff_of_true (hSame (fun _ _ _ _ h => by cases h) hMesh) trivial
  | publish i k ok keep =>
    obtain ⟨mesh, hMesh, rfl⟩ := Option.map_eq_some_iff.mp h
    exact iff_of_true (hSame (fun _ _ _ _ h => by cases h) hMesh) trivial
  | forward i m =>
    obtain ⟨mesh, hMesh, rfl⟩ := Option.map_eq_some_iff.mp h
    exact iff_of_true (hSame (fun _ _ _ _ h => by cases h) hMesh) trivial

end Steps

-- ---------------------------------------------------------------------------
-- The measure
-- ---------------------------------------------------------------------------

/-- What a transport can still cause among `n`: each peer it does not know will
make it send a message, each message it has sent will be handed to `n` transports,
and each message it was handed will be handled. -/
def MeshNode.weight (n : Nat) (x : MeshNode) : Nat :=
  (n + 1) * ((n - x.peers) + x.outQ.length) + x.inQ.length

/-- What is still to happen. -/
def CountedMesh.pending [Fintype ι] (s : CountedMesh ι) : Nat :=
  ∑ i, (s.mesh i).weight (Fintype.card ι)

theorem post_outQ_length (x : MeshNode) (sent : List NamingMsg) (keep : Bool) :
    (x.post sent keep).outQ.length ≤ x.outQ.length + sent.length := by
  rw [MeshNode.post]
  split
  · rw [List.length_append]
  · omega

theorem post_threads (x : MeshNode) (sent : List NamingMsg) (keep : Bool) :
    (x.post sent keep).threads = x.threads := by
  rw [MeshNode.post]
  split <;> rfl

/-- Handling an announcement takes from the weight: a new peer costs one message
to send, and that is what it stood for. -/
theorem MeshNode.Named.weight_dispatch [Fintype ι] {C : Cluster ι} {i : ι} {x : MeshNode}
    {m : NamingMsg} {calls : NamingCalls} {keep : Bool} (hNamed : x.Named C i)
    (hIn : m ∈ x.inQ) (hConnect : calls.connect = true) (hSend : calls.send = true)
    (hRemembers : m.announces = true → x.impl.mPeers.lookup m.mUuid = none →
      calls.malloc = true) :
    (x.dispatch m calls keep).weight (Fintype.card ι) < x.weight (Fintype.card ι) := by
  obtain ⟨hReplies, hPeers⟩ := hNamed.dispatch_counts keep hIn hConnect hSend
  have hBound := (hNamed.dispatch keep hIn hConnect hSend).peers_le
  have hInQ : (x.dispatch m calls keep).inQ.length + 1 = x.inQ.length := by
    rw [MeshNode.dispatch, post_inQ, List.length_erase_of_mem hIn]
    have := List.length_pos_of_mem hIn
    omega
  have hOutQ : (x.dispatch m calls keep).outQ.length ≤
      x.outQ.length + (TransportImpl.dispatchNamingMsg calls x.impl m).sent.length :=
    post_outQ_length _ _ _
  have hLess : (Fintype.card ι - (x.dispatch m calls keep).peers) +
        (x.dispatch m calls keep).outQ.length ≤
      (Fintype.card ι - x.peers) + x.outQ.length := by
    rw [hReplies] at hOutQ
    by_cases hNew : m.announces = true ∧ x.impl.mPeers.lookup m.mUuid = none
    · rw [if_pos ⟨hNew.1, hNew.2, hRemembers hNew.1 hNew.2⟩] at hPeers
      rw [if_pos hNew] at hOutQ
      omega
    · rw [if_neg fun hAll => hNew ⟨hAll.1, hAll.2.1⟩] at hPeers
      rw [if_neg hNew] at hOutQ
      omega
  have hMul := Nat.mul_le_mul_left (Fintype.card ι + 1) hLess
  rw [MeshNode.weight, MeshNode.weight]
  omega

section Measure

variable [DecidableEq ι] {C : Cluster ι} {s s' : CountedMesh ι} {a : MeshAct ι} {i : ι}
  {m : NamingMsg}

theorem forward_threads (mesh : Mesh ι) (i : ι) (m : NamingMsg) (j : ι) :
    (mesh.forward i m j).threads = (mesh j).threads := by
  simp only [Mesh.forward]
  split <;> split <;> rfl

/-- Forwarding hands one message to everybody and takes one from its sender. -/
theorem weight_forward (mesh : Mesh ι) (hIn : m ∈ (mesh i).outQ) (n : Nat) (j : ι) :
    (mesh.forward i m j).weight n + (if j = i then n + 1 else 0) ≤ (mesh j).weight n + 1 := by
  have hPeers : (mesh.forward i m j).peers = (mesh j).peers :=
    congrArg (fun impl : NamingTransport => impl.mPeers.keys.length) forward_impl
  have hInQ : (mesh.forward i m j).inQ.length ≤ (mesh j).inQ.length + 1 := by
    simp only [Mesh.forward]
    split <;> split <;> simp
  have hOutQ : (mesh.forward i m j).outQ.length + (if j = i then 1 else 0) =
      (mesh j).outQ.length := by
    by_cases hj : j = i
    · subst hj
      have hPos := List.length_pos_of_mem hIn
      have hOut : (mesh.forward j m j).outQ = (mesh j).outQ.erase m := by
        simp only [Mesh.forward, if_true]
        split <;> rfl
      rw [hOut, if_pos rfl, List.length_erase_of_mem hIn]
      omega
    · rw [if_neg hj, forward_outQ hj]
      rfl
  rw [MeshNode.weight, MeshNode.weight, hPeers, ← hOutQ]
  split
  · rw [← Nat.add_assoc (n - (mesh j).peers), Nat.mul_add (n + 1) _ 1]
    omega
  · simp only [Nat.add_zero]
    omega

/-- Forwarding takes from the measure. -/
theorem pending_forward [Fintype ι] (hIn : m ∈ (s.mesh i).outQ) :
    CountedMesh.pending { s with mesh := s.mesh.forward i m } < s.pending := by
  have hSum : ∑ j, ((s.mesh.forward i m j).weight (Fintype.card ι) +
        if j = i then Fintype.card ι + 1 else 0) ≤
      ∑ j, ((s.mesh j).weight (Fintype.card ι) + 1) :=
    Finset.sum_le_sum fun j _ => weight_forward s.mesh hIn _ j
  rw [Finset.sum_add_distrib, Finset.sum_add_distrib, Finset.sum_ite_eq',
    if_pos (Finset.mem_univ i), Finset.sum_const, Finset.card_univ, smul_eq_mul] at hSum
  rw [CountedMesh.pending, CountedMesh.pending]
  show ∑ j, (s.mesh.forward i m j).weight (Fintype.card ι) < _
  omega

/-- One transport changes. -/
theorem pending_update [Fintype ι] {x : MeshNode}
    (hLess : x.weight (Fintype.card ι) < (s.mesh i).weight (Fintype.card ι)) :
    ∑ j, (Function.update s.mesh i x j).weight (Fintype.card ι) < s.pending := by
  refine Finset.sum_lt_sum ?_ ⟨i, Finset.mem_univ i, ?_⟩
  · intro j _
    by_cases hj : j = i
    · subst hj
      rw [Function.update_self]
      exact hLess.le
    · rw [Function.update_of_ne hj]
  · rw [Function.update_self]
    exact hLess

/-- **Every delivery takes from the measure**, once everything has settled. -/
theorem CountedMesh.Settled.deliver [Fintype ι] (hSettled : s.Settled C) (hNamed : s.Named C)
    (hDelivers : a.delivers = true) (hRemembers : s.Remembers a) (h : s.step C a = some s') :
    s'.Settled C ∧ s'.pending < s.pending := by
  cases a with
  | dispatch i m calls keep =>
    simp only [CountedMesh.step] at h
    split at h
    · rename_i hGuard
      obtain ⟨hIn, hConnect, hSend⟩ := hGuard
      cases h
      refine ⟨?_, pending_update ((hNamed i).weight_dispatch hIn hConnect hSend hRemembers)⟩
      intro j
      by_cases hj : j = i
      · subst hj
        simp only [Function.update_self]
        have hNone : (TransportImpl.dispatchNamingMsg calls (s.mesh j).impl m).thread ≠
            some true := by
          intro hThread
          have hType := (dispatchNamingMsg_thread hThread).1
          rcases (hNamed j).inQ m hIn with rfl | ⟨k, rfl⟩
          · exact (hSettled j).1 hIn
          · exact absurd hType (by decide : typeConnect ≠ typeWelcome)
        rw [MeshNode.dispatch, post_inQ, post_threads, if_neg hNone]
        exact ⟨fun hMem => (hSettled j).1 (List.mem_of_mem_erase hMem), (hSettled j).2⟩
      · simp only [Function.update_of_ne hj]
        exact hSettled j
    · cases h
  | forward i m =>
    obtain ⟨mesh, hMesh, rfl⟩ := Option.map_eq_some_iff.mp h
    simp only [Mesh.step] at hMesh
    split at hMesh
    · rename_i hGuard
      cases hMesh
      constructor
      · intro j
        rw [forward_threads]
        refine ⟨?_, (hSettled j).2⟩
        intro hMem
        rcases mem_forward_inQ.mp hMem with hOld | ⟨hNew, -⟩
        · exact (hSettled j).1 hOld
        · rw [(hNamed i).outQ m hGuard.2] at hNew
          exact C.announcement_ne_welcome hNew.symm
      · exact pending_forward hGuard.2
    · cases hMesh
  | join i => cases hDelivers
  | pubUp i => cases hDelivers
  | publish i k ok keep => cases hDelivers

end Measure

-- ---------------------------------------------------------------------------
-- Runs
-- ---------------------------------------------------------------------------

/--
**No discovery storm.** Any finite number of transports around a proxy, ZeroMQ
calls succeeding, nobody disconnecting and no beacons. For every run:

* the number of replies of every transport is the size of its table, in every
  state of the run, if and only if there is memory for the record of every peer
  that is answered;
* no table has more entries than there are transports, so then no transport
  replies more often than that;
* once everything has settled, every delivery keeps it so and takes from
  `pending`, as long as there is memory, so that no more than `pending` messages
  can be delivered.
-/
theorem no_discovery_storm [DecidableEq ι] [Fintype ι] {C : Cluster ι}
    {as : List (MeshAct ι)} {s : CountedMesh ι}
    (hRun : run (CountedMesh.step C) (CountedMesh.init C) as = some s) :
    (Along (CountedMesh.step C) CountedMesh.Counted (CountedMesh.init C) as ↔
      StepsMeet (CountedMesh.step C) CountedMesh.Remembers (CountedMesh.init C) as) ∧
    (∀ i, (s.mesh i).peers ≤ Fintype.card ι) ∧
    (StepsMeet (CountedMesh.step C) CountedMesh.Remembers (CountedMesh.init C) as →
      ∀ i, s.replies i ≤ Fintype.card ι) ∧
    (s.Settled C →
      (∀ a s', a.delivers = true → s.Remembers a → s.step C a = some s' →
        s'.Settled C ∧ s'.pending < s.pending) ∧
      ∀ ds t, (∀ a ∈ ds, a.delivers = true) → run (CountedMesh.step C) s ds = some t →
        StepsMeet (CountedMesh.step C) CountedMesh.Remembers s ds → ds.length ≤ s.pending) := by
  have hNamed : s.Named C := run_invariant (J := CountedMesh.Named C)
    (fun s a s' hs h => hs.step h) CountedMesh.named_init hRun
  have hIff : Along (CountedMesh.step C) CountedMesh.Counted (CountedMesh.init C) as ↔
      StepsMeet (CountedMesh.step C) CountedMesh.Remembers (CountedMesh.init C) as := by
    refine along_iff_stepsMeet (J := fun s => s.Named C ∧ s.Counted)
      ⟨CountedMesh.named_init, fun i => rfl⟩ (fun s hJ => hJ.2) ?_ ?_ hRun
    · intro s a s' hJ hOk h
      exact ⟨hJ.1.step h, (hJ.2.step hJ.1 h).mpr hOk⟩
    · intro s a s' hJ h hCounted
      exact (hJ.2.step hJ.1 h).mp hCounted
  refine ⟨hIff, fun i => (hNamed i).peers_le, ?_, ?_⟩
  · intro hMeet i
    have hCounted := hIff.mpr hMeet as [] s (List.append_nil as).symm hRun
    rw [hCounted i]
    exact (hNamed i).peers_le
  · intro hSettled
    refine ⟨fun a s' hDelivers hRemembers h =>
      hSettled.deliver hNamed hDelivers hRemembers h, ?_⟩
    intro ds t hDelivers hRunDs hMeet
    have hBoth : StepsMeet (CountedMesh.step C) (fun s a => a.delivers = true ∧ s.Remembers a)
        s ds := by
      intro pre a post u hEq hPre
      exact ⟨hDelivers a (by rw [hEq]; simp), hMeet pre a post u hEq hPre⟩
    have hLength : ds.length + t.pending ≤ s.pending := by
      refine run_length_le (J := fun s => s.Named C ∧ s.Settled C) ?_ ⟨hNamed, hSettled⟩ hRunDs
        hBoth
      rintro u a u' ⟨hu, hs⟩ ⟨hd, hr⟩ h
      obtain ⟨hs', hLess⟩ := hs.deliver hu hd hr h
      exact ⟨⟨hu.step h, hs'⟩, hLess⟩
    omega

theorem no_discovery_storm_pair :
    ∃ s, run (CountedMesh.step pairCluster) (CountedMesh.init pairCluster) pairRun = some s ∧
      (s.replies false = 2 ∧ s.replies true = 2) ∧
      (Along (CountedMesh.step pairCluster) CountedMesh.Counted (CountedMesh.init pairCluster)
          pairRun ↔
        StepsMeet (CountedMesh.step pairCluster) CountedMesh.Remembers
          (CountedMesh.init pairCluster) pairRun) ∧
      ∀ i, (s.mesh i).peers ≤ Fintype.card Bool := by
  obtain ⟨s, hRun, hReplies⟩ :
      ∃ s, run (CountedMesh.step pairCluster) (CountedMesh.init pairCluster) pairRun = some s ∧
        (s.replies false = 2 ∧ s.replies true = 2) := exists_run (by decide +kernel)
  obtain ⟨hIff, hPeers, -⟩ := no_discovery_storm hRun
  exact ⟨s, hRun, hReplies, hIff, hPeers⟩

/-- A transport without memory for its peers answers its own announcement, and
then its own answers. -/
def noMemoryRun : List (MeshAct Bool) :=
  let own := pairCluster.announcement false
  let noMemory := { NamingCalls.allOk with malloc := false }
  let answer := [.forward false own, MeshAct.dispatch false own noMemory false]
  [.join false, .dispatch false pairCluster.welcome .allOk false, .pubUp false,
    .publish false 0 true false, .publish false 0 true false, .publish false 0 true false] ++
    answer ++ answer ++ answer

/-- **A transport that does not remember whom it answers** replies more often
than there are transports, and its table stays empty. -/
theorem replies_repeated :
    ∃ s, run (CountedMesh.step pairCluster) (CountedMesh.init pairCluster) noMemoryRun = some s ∧
      s.replies false = 3 ∧ (s.mesh false).peers = 0 ∧ Fintype.card Bool < s.replies false := by
  exact exists_run (by decide +kernel)

end ZmqBridge
