import ZmqBridge.Lib.Discovery
import ZmqBridge.Lib.Run
import ZmqBridge.Model.Naming

/-!
# ZmqBridge — discovery through one proxy

Any number of naming transports around one proxy. Joining subscribes a
transport at the proxy, which welcomes it; handling the welcome connects
`namingPub` and starts a `publishEndpoints` thread; the proxy forwards what
reaches it to every transport that has joined by then, the sender included.
Messages are handled, threads step and the proxy forwards in any order. What a
transport sends before its `namingPub` is up may be lost. Sockets can be connected;
a send may fail, and so may the allocation of the record of a new peer.

As long as each new peer is answered and recorded, the mesh refines
`Lib.Discovery`: every step is a step of the abstract protocol or none at all, so
its pair invariant carries over.

* `mesh_refines`         — the refinement, step by step;
* `mesh_reachable`       — over whole runs;
* `discovery_full_mesh`  — when nothing is in flight, any two transports that
  have seen their own announcement are connected both ways;
* `discovery_incomplete` — not so if a new peer cannot be answered or recorded.
-/

namespace ZmqBridge

open Lib

variable {ι : Type*}

/-! ## The system -/

/-- Who the transports are. -/
structure Cluster (ι : Type*) where
  uuid : ι → List Byte
  endpoint : ι → List Byte
  retries : ι → Int
  proxyEndpoint : List Byte
  uuid_injective : Function.Injective uuid

/-- The 'C' message of transport `i`. -/
def Cluster.announcement (C : Cluster ι) (i : ι) : NamingMsg :=
  ⟨typeConnect, C.uuid i, C.endpoint i⟩

/-- What the proxy sends to a new subscriber. -/
def Cluster.welcome (C : Cluster ι) : NamingMsg := ⟨typeWelcome, [], C.proxyEndpoint⟩

/-- A transport with its connection to the proxy: `inQ` is on its way from the
proxy, `outQ` on its way to it. `heard` records that the proxy has forwarded
something from it. -/
structure MeshNode where
  impl : NamingTransport
  joined : Bool
  pubUp : Bool
  heard : Bool
  inQ : List NamingMsg
  outQ : List NamingMsg
  threads : List PublishPc

abbrev Mesh (ι : Type*) := ι → MeshNode

def Mesh.init (C : Cluster ι) : Mesh ι := fun i =>
  { impl :=
      { mUuid := C.uuid i
        mPubEndpoint := C.endpoint i
        mNamingConnectRetries := C.retries i
        mPeers := ∅
        mNamingConnected := false
        mIsDispatching := true
        mZmqDataSub := ∅
        mZmqNamingPub := ∅ }
    joined := false
    pubUp := false
    heard := false
    inQ := []
    outQ := []
    threads := [] }

/-- Sending on `namingPub`. Without a connection the socket may keep the
message or drop it. -/
def MeshNode.post (n : MeshNode) (sent : List NamingMsg) (keep : Bool) : MeshNode :=
  if n.pubUp ∨ keep then { n with outQ := n.outQ ++ sent } else n

inductive MeshAct (ι : Type*) where
  | join (i : ι)
  | pubUp (i : ι)
  | dispatch (i : ι) (m : NamingMsg) (calls : NamingCalls) (keep : Bool)
  | publish (i : ι) (thread : Nat) (ok keep : Bool)
  | forward (i : ι) (m : NamingMsg)

/-- The dispatch thread of a transport handles `m`. -/
def MeshNode.dispatch (n : MeshNode) (m : NamingMsg) (calls : NamingCalls) (keep : Bool) :
    MeshNode :=
  let outcome := TransportImpl.dispatchNamingMsg calls n.impl m
  MeshNode.post
    { n with
      impl := outcome.impl
      inQ := n.inQ.erase m
      threads := if outcome.thread = some true then n.threads ++ [.reset] else n.threads }
    outcome.sent keep

/-- Thread number `k` of a transport takes a step from `pc`; `ok` tells whether a send
succeeds. -/
def MeshNode.publish (n : MeshNode) (k : Nat) (pc : PublishPc) (ok keep : Bool) : MeshNode :=
  let outcome := TransportImpl.publishEndpoints n.impl pc
  MeshNode.post { n with impl := outcome.impl, threads := n.threads.set k outcome.pc }
    (outcome.command.toList.flatMap fun command =>
      (TransportImpl.sendEndpointsMsg n.impl command ok).1) keep

/-- The proxy forwards `m` from `i` to everybody who has joined. -/
def Mesh.forward [DecidableEq ι] (s : Mesh ι) (i : ι) (m : NamingMsg) : Mesh ι := fun j =>
  let n := if j = i then { s j with outQ := (s j).outQ.erase m, heard := true } else s j
  if n.joined then { n with inQ := n.inQ ++ [m] } else n

/-- One step of the system. Sockets can be connected; whether a send succeeds, whether
there is memory for a new peer and whether a thread can be created is left open. -/
def Mesh.step [DecidableEq ι] (C : Cluster ι) (s : Mesh ι) : MeshAct ι → Option (Mesh ι)
  | .join i =>
    if (s i).joined = false then
      some (Function.update s i
        { s i with joined := true, inQ := (s i).inQ ++ [C.welcome] })
    else none
  | .pubUp i =>
    if C.proxyEndpoint ∈ (s i).impl.mZmqNamingPub then
      some (Function.update s i { s i with pubUp := true })
    else none
  | .dispatch i m calls keep =>
    if m ∈ (s i).inQ ∧ calls.connect = true then
      some (Function.update s i ((s i).dispatch m calls keep))
    else none
  | .publish i k ok keep =>
    match (s i).threads[k]? with
    | some pc => some (Function.update s i ((s i).publish k pc ok keep))
    | none => none
  | .forward i m =>
    if (s i).pubUp = true ∧ m ∈ (s i).outQ then some (s.forward i m) else none

/-- A new peer is answered and recorded. -/
def Mesh.Completes (s : Mesh ι) : MeshAct ι → Prop
  | .dispatch i m calls _ =>
    m.announces = true → (s i).impl.mPeers.lookup m.mUuid = none →
      calls.send = true ∧ calls.malloc = true
  | _ => True

instance (s : Mesh ι) (a : MeshAct ι) : Decidable (s.Completes a) :=
  match a with
  | .dispatch _ _ _ _ => inferInstanceAs (Decidable (_ → _ → _ ∧ _))
  | .join _ => isTrue trivial
  | .pubUp _ => isTrue trivial
  | .publish _ _ _ _ => isTrue trivial
  | .forward _ _ => isTrue trivial

/-! ## Small facts about the parts -/

section Parts

variable {C : Cluster ι} {i j : ι} {n : MeshNode} {calls : NamingCalls} {keep : Bool}

theorem Cluster.announcement_inj (h : C.announcement i = C.announcement j) : i = j :=
  C.uuid_injective (congrArg NamingMsg.mUuid h)

theorem Cluster.announcement_ne_welcome : C.announcement i ≠ C.welcome :=
  fun h => absurd (congrArg NamingMsg.mType h) (by decide : typeConnect ≠ typeWelcome)


@[simp] theorem post_impl (sent : List NamingMsg) : (n.post sent keep).impl = n.impl := by
  unfold MeshNode.post
  split <;> rfl

@[simp] theorem post_joined (sent : List NamingMsg) : (n.post sent keep).joined = n.joined := by
  unfold MeshNode.post
  split <;> rfl

@[simp] theorem post_pubUp (sent : List NamingMsg) : (n.post sent keep).pubUp = n.pubUp := by
  unfold MeshNode.post
  split <;> rfl

@[simp] theorem post_heard (sent : List NamingMsg) : (n.post sent keep).heard = n.heard := by
  unfold MeshNode.post
  split <;> rfl

@[simp] theorem post_inQ (sent : List NamingMsg) : (n.post sent keep).inQ = n.inQ := by
  unfold MeshNode.post
  split <;> rfl

theorem mem_post_outQ {sent : List NamingMsg} {m : NamingMsg}
    (h : m ∈ (n.post sent keep).outQ) : m ∈ n.outQ ∨ m ∈ sent := by
  unfold MeshNode.post at h
  split at h
  · exact List.mem_append.mp h
  · exact Or.inl h

theorem mem_post_outQ_of_mem {sent : List NamingMsg} {m : NamingMsg} (h : m ∈ n.outQ) :
    m ∈ (n.post sent keep).outQ := by
  unfold MeshNode.post
  split
  · exact List.mem_append_left _ h
  · exact h

theorem mem_post_outQ_of_sent {sent : List NamingMsg} {m : NamingMsg} (hUp : n.pubUp = true)
    (h : m ∈ sent) : m ∈ (n.post sent keep).outQ := by
  rw [MeshNode.post, if_pos (Or.inl hUp)]
  exact List.mem_append_right _ h

/-- The thread only ever resets `mNamingConnected`, and what it sends is the
transport's announcement. -/
theorem publishEndpoints_impl (impl : NamingTransport) (pc : PublishPc) :
    ∃ b, (TransportImpl.publishEndpoints impl pc).impl = { impl with mNamingConnected := b } ∧
      (b = true → impl.mNamingConnected = true) := by
  cases pc with
  | reset => exact ⟨false, rfl, fun h => absurd h Bool.false_ne_true⟩
  | loop retries =>
    rw [TransportImpl.publishEndpoints]
    split <;> exact ⟨impl.mNamingConnected, rfl, id⟩
  | send retries => exact ⟨impl.mNamingConnected, rfl, id⟩
  | check retries => exact ⟨impl.mNamingConnected, rfl, id⟩
  | done => exact ⟨impl.mNamingConnected, rfl, id⟩

theorem publishEndpoints_command {impl : NamingTransport} {pc : PublishPc} {command : Byte}
    (h : (TransportImpl.publishEndpoints impl pc).command = some command) :
    command = typeConnect := by
  cases pc with
  | send retries => exact (Option.some.inj h).symm
  | loop retries =>
    rw [TransportImpl.publishEndpoints] at h
    split at h <;> cases h
  | reset => cases h
  | check retries => cases h
  | done => cases h

/-- What a thread sends is the transport's announcement. -/
theorem mem_publish_sent {impl : NamingTransport} {pc : PublishPc} {ok : Bool} {m : NamingMsg}
    (h : m ∈ (TransportImpl.publishEndpoints impl pc).command.toList.flatMap fun command =>
      (TransportImpl.sendEndpointsMsg impl command ok).1) : m = impl.endpointsMsg typeConnect := by
  obtain ⟨command, hCommand, hm⟩ := List.mem_flatMap.mp h
  rw [publishEndpoints_command (Option.mem_toList.mp hCommand)] at hm
  unfold TransportImpl.sendEndpointsMsg at hm
  split at hm
  · exact List.mem_singleton.mp hm
  · exact absurd hm List.not_mem_nil

end Parts

/-! ## The invariant of a node -/

/-- What holds of each transport on its own. -/
structure NodeInv (C : Cluster ι) (i : ι) (n : MeshNode) : Prop where
  uuid : n.impl.mUuid = C.uuid i
  endpoint : n.impl.mPubEndpoint = C.endpoint i
  outQ : ∀ m ∈ n.outQ, m = C.announcement i
  inQ : ∀ m ∈ n.inQ, n.joined = true ∧ (m = C.welcome ∨ ∃ j, m = C.announcement j)
  welcomed : n.impl.mZmqNamingPub.Nonempty → n.joined = true
  pubUp : n.pubUp = true → n.joined = true
  heard : n.heard = true → n.pubUp = true
  connected : n.impl.mNamingConnected = true → n.heard = true
  peers : ∀ j, n.impl.mPeers.lookup (C.uuid j) ≠ none → C.endpoint j ∈ n.impl.mZmqDataSub

section Node

variable {C : Cluster ι} {i j : ι} {n : MeshNode} {calls : NamingCalls} {keep : Bool}

theorem nodeInv_init : NodeInv C i (Mesh.init C i) where
  uuid := rfl
  endpoint := rfl
  outQ _ hm := absurd hm List.not_mem_nil
  inQ _ hm := absurd hm List.not_mem_nil
  welcomed h := absurd h Finset.not_nonempty_empty
  pubUp h := absurd h Bool.false_ne_true
  heard h := absurd h Bool.false_ne_true
  connected h := absurd h Bool.false_ne_true
  peers j h := absurd (AList.lookup_empty (C.uuid j)) h

theorem NodeInv.endpointsMsg (hInv : NodeInv C i n) :
    n.impl.endpointsMsg typeConnect = C.announcement i := by
  rw [NamingTransport.endpointsMsg, hInv.uuid, hInv.endpoint]
  rfl

/-- Posting announcements of one's own keeps the invariant. -/
theorem NodeInv.post (hInv : NodeInv C i n) {sent : List NamingMsg}
    (hSent : ∀ m ∈ sent, m = C.announcement i) : NodeInv C i (n.post sent keep) where
  uuid := by rw [post_impl]; exact hInv.uuid
  endpoint := by rw [post_impl]; exact hInv.endpoint
  outQ m hm := by
    rcases mem_post_outQ hm with h | h
    · exact hInv.outQ m h
    · exact hSent m h
  inQ := by rw [post_inQ, post_joined]; exact hInv.inQ
  welcomed := by rw [post_impl, post_joined]; exact hInv.welcomed
  pubUp := by rw [post_pubUp, post_joined]; exact hInv.pubUp
  heard := by rw [post_heard, post_pubUp]; exact hInv.heard
  connected := by rw [post_impl, post_heard]; exact hInv.connected
  peers := by rw [post_impl]; exact hInv.peers

/-- Handling the welcome. -/
theorem NodeInv.dispatchWelcome (hInv : NodeInv C i n) (hIn : C.welcome ∈ n.inQ)
    (hConnect : calls.connect = true) : NodeInv C i (n.dispatch C.welcome calls keep) := by
  have hJoined := (hInv.inQ _ hIn).1
  unfold MeshNode.dispatch
  rw [dispatchNamingMsg_welcome rfl hConnect]
  refine NodeInv.post ?_ (fun m hm => absurd hm List.not_mem_nil)
  exact
    { uuid := hInv.uuid
      endpoint := hInv.endpoint
      outQ := hInv.outQ
      inQ := fun m hm => hInv.inQ m (List.mem_of_mem_erase hm)
      welcomed := fun _ => hJoined
      pubUp := hInv.pubUp
      heard := hInv.heard
      connected := hInv.connected
      peers := hInv.peers }

/-- Handling an announcement, once the proxy has heard of its sender. -/
theorem NodeInv.dispatchAnnouncement (hInv : NodeInv C i n)
    (hHeard : i = j → n.heard = true) (hConnect : calls.connect = true)
    (hNew : n.impl.mPeers.lookup (C.announcement j).mUuid = none →
      calls.send = true ∧ calls.malloc = true) :
    NodeInv C i (n.dispatch (C.announcement j) calls keep) := by
  unfold MeshNode.dispatch
  rw [dispatchNamingMsg_announce rfl hConnect hNew]
  refine NodeInv.post ?_ ?_
  · exact
      { uuid := by simpa using hInv.uuid
        endpoint := by simpa using hInv.endpoint
        outQ := hInv.outQ
        inQ := fun m hm => hInv.inQ m (List.mem_of_mem_erase hm)
        welcomed := by simpa using hInv.welcomed
        pubUp := hInv.pubUp
        heard := hInv.heard
        connected := fun h => by
          rcases noteOwnMsg_connected h with h | h
          · exact hInv.connected (by simpa using h)
          · rw [record_mUuid, hInv.uuid] at h
            exact hHeard (C.uuid_injective h.symm)
        peers := fun k hk => by
          rw [noteOwnMsg_mPeers, record_lookup_ne_none] at hk
          rw [noteOwnMsg_mZmqDataSub]
          by_cases hOld : n.impl.mPeers.lookup (C.uuid k) = none
          · have hkj : C.uuid k = C.uuid j := hk.resolve_left (not_not.mpr hOld)
            obtain rfl : k = j := C.uuid_injective hkj
            unfold NamingTransport.record
            rw [if_pos (show n.impl.mPeers.lookup (C.announcement k).mUuid = none from hOld)]
            exact Finset.mem_insert_self _ _
          · exact mem_record_mZmqDataSub (hInv.peers k hOld) }
  · intro m hm
    split at hm
    · rw [List.mem_singleton.mp hm, hInv.endpointsMsg]
    · exact absurd hm List.not_mem_nil

/-- A step of a `publishEndpoints` thread. -/
theorem NodeInv.publish (hInv : NodeInv C i n) (k : Nat) (pc : PublishPc) (ok : Bool) :
    NodeInv C i (n.publish k pc ok keep) := by
  obtain ⟨b, hImpl, hb⟩ := publishEndpoints_impl n.impl pc
  unfold MeshNode.publish
  refine NodeInv.post ?_ ?_
  · rw [hImpl]
    exact
      { uuid := hInv.uuid
        endpoint := hInv.endpoint
        outQ := hInv.outQ
        inQ := hInv.inQ
        welcomed := hInv.welcomed
        pubUp := hInv.pubUp
        heard := hInv.heard
        connected := fun h => hInv.connected (hb h)
        peers := hInv.peers }
  · intro m hm
    rw [mem_publish_sent hm]
    exact hInv.endpointsMsg

end Node

/-! ## Refinement -/

section Refinement

variable {C : Cluster ι} {s : Mesh ι} {i j : ι} {calls : NamingCalls} {keep : Bool}

/-- The abstract protocol state of a mesh. -/
def Mesh.abs (C : Cluster ι) (s : Mesh ι) : Discovery ι where
  joined := { i | (s i).joined = true }
  heard := { i | (s i).heard = true }
  announcing := { i | C.announcement i ∈ (s i).outQ }
  known i j := (s i).impl.mPeers.lookup (C.uuid j) ≠ none
  toward i j := C.announcement j ∈ (s i).inQ

theorem abs_init : (Mesh.init C).abs C = Discovery.init := by
  simp [Mesh.abs, Mesh.init, Discovery.init]

/-- What the abstract state `d` says of the party `a` is what the node shows. -/
structure MeshNode.Shows (C : Cluster ι) (n : MeshNode) (a : ι) (d : Discovery ι) : Prop where
  joined : n.joined = true ↔ a ∈ d.joined
  heard : n.heard = true ↔ a ∈ d.heard
  announcing : C.announcement a ∈ n.outQ ↔ a ∈ d.announcing
  known : ∀ b, n.impl.mPeers.lookup (C.uuid b) ≠ none ↔ d.known a b
  toward : ∀ b, C.announcement b ∈ n.inQ ↔ d.toward a b

theorem abs_eq_of_shows {d : Discovery ι} (h : ∀ a, (s a).Shows C a d) : Mesh.abs C s = d := by
  ext a
  · exact (h a).joined
  · exact (h a).heard
  · exact (h a).announcing
  · exact (h a).known _
  · exact (h a).toward _

theorem mem_insert_of_other {a : ι} (ha : a ≠ i) (S : Set ι) : a ∈ S ↔ a ∈ insert i S :=
  (Set.mem_insert_iff.trans (or_iff_right ha)).symm

variable [DecidableEq ι]

/-- The abstract state after a change of one node. -/
theorem abs_update_eq {n : MeshNode} {d : Discovery ι} (hSelf : n.Shows C i d)
    (hOther : ∀ a, a ≠ i → (s a).Shows C a d) : Mesh.abs C (Function.update s i n) = d := by
  refine abs_eq_of_shows fun a => ?_
  by_cases ha : a = i
  · subst ha
    rw [Function.update_self]
    exact hSelf
  · rw [Function.update_of_ne ha]
    exact hOther a ha

/-- Joining is joining. -/
theorem abs_join (hNew : (s i).joined = false) :
    Discovery.Step (Mesh.abs C s) (Mesh.abs C (Function.update s i
      { s i with joined := true, inQ := (s i).inQ ++ [C.welcome] })) := by
  have hEq : Mesh.abs C (Function.update s i
      { s i with joined := true, inQ := (s i).inQ ++ [C.welcome] }) =
      { Mesh.abs C s with joined := insert i (Mesh.abs C s).joined } := by
    refine abs_update_eq ?_ fun a ha =>
      ⟨mem_insert_of_other ha (Mesh.abs C s).joined, Iff.rfl, Iff.rfl, fun _ => Iff.rfl,
        fun _ => Iff.rfl⟩
    refine ⟨iff_of_true rfl (Set.mem_insert i _), Iff.rfl, Iff.rfl, fun _ => Iff.rfl, fun b => ?_⟩
    show C.announcement b ∈ (s i).inQ ++ [C.welcome] ↔ C.announcement b ∈ (s i).inQ
    rw [List.mem_append, List.mem_singleton, or_iff_left Cluster.announcement_ne_welcome]
  rw [hEq]
  exact Discovery.Step.join (by simpa [Mesh.abs] using hNew)

/-- A change of one node that no abstract component sees. -/
theorem abs_update_same {n : MeshNode} (hJoined : n.joined = (s i).joined)
    (hHeard : n.heard = (s i).heard)
    (hOut : C.announcement i ∈ n.outQ ↔ C.announcement i ∈ (s i).outQ)
    (hPeers : n.impl.mPeers = (s i).impl.mPeers)
    (hIn : ∀ j, C.announcement j ∈ n.inQ ↔ C.announcement j ∈ (s i).inQ) :
    Mesh.abs C (Function.update s i n) = Mesh.abs C s := by
  refine abs_update_eq ⟨?_, ?_, hOut, ?_, hIn⟩ fun a _ =>
    ⟨Iff.rfl, Iff.rfl, Iff.rfl, fun _ => Iff.rfl, fun _ => Iff.rfl⟩
  · rw [hJoined]
    rfl
  · rw [hHeard]
    rfl
  · intro b
    rw [hPeers]
    rfl

/-- Handling the welcome is invisible to the abstract protocol. -/
theorem abs_dispatch_welcome (hConnect : calls.connect = true) :
    Mesh.abs C (Function.update s i ((s i).dispatch C.welcome calls keep)) = Mesh.abs C s := by
  have hOut : TransportImpl.dispatchNamingMsg calls (s i).impl C.welcome = _ :=
    dispatchNamingMsg_welcome rfl hConnect
  refine abs_update_same ?_ ?_ ?_ ?_ fun j => ?_
  · simp [MeshNode.dispatch]
  · simp [MeshNode.dispatch]
  · rw [MeshNode.dispatch, hOut]
    simp [MeshNode.post]
  · rw [MeshNode.dispatch, hOut]
    simp
  · rw [MeshNode.dispatch, post_inQ]
    exact List.mem_erase_of_ne Cluster.announcement_ne_welcome

/-- Handling an announcement is learning of its sender. -/
theorem abs_dispatch_announcement (hNode : NodeInv C i (s i))
    (hIn : C.announcement j ∈ (s i).inQ) (hConnect : calls.connect = true)
    (hCompletes : (s i).impl.mPeers.lookup (C.announcement j).mUuid = none →
      calls.send = true ∧ calls.malloc = true) :
    Discovery.Step (Mesh.abs C s)
      (Mesh.abs C (Function.update s i ((s i).dispatch (C.announcement j) calls keep))) := by
  set n := (s i).dispatch (C.announcement j) calls keep with hn
  have hOut : TransportImpl.dispatchNamingMsg calls (s i).impl (C.announcement j) = _ :=
    dispatchNamingMsg_announce rfl hConnect hCompletes
  have hPeers : ∀ k, n.impl.mPeers.lookup (C.uuid k) ≠ none ↔
      (s i).impl.mPeers.lookup (C.uuid k) ≠ none ∨ k = j := by
    intro k
    rw [hn, MeshNode.dispatch, hOut, post_impl, noteOwnMsg_mPeers, record_lookup_ne_none]
    exact or_congr_right ⟨fun h => C.uuid_injective h, fun h => h ▸ rfl⟩
  have hInQ : n.inQ = (s i).inQ.erase (C.announcement j) := by
    rw [hn, MeshNode.dispatch, post_inQ]
  have hEq : Mesh.abs C (Function.update s i n) =
      { Mesh.abs C s with
        announcing := (Mesh.abs C (Function.update s i n)).announcing
        known := fun a b => (Mesh.abs C s).known a b ∨ (a = i ∧ b = j)
        toward := (Mesh.abs C (Function.update s i n)).toward } := by
    refine abs_update_eq ⟨?_, ?_, ?_, fun b => ?_, fun b => ?_⟩ fun a ha =>
      ⟨Iff.rfl, Iff.rfl, ?_, fun b => ?_, fun b => ?_⟩
    · rw [hn, MeshNode.dispatch, post_joined]
      rfl
    · rw [hn, MeshNode.dispatch, post_heard]
      rfl
    · show _ ↔ C.announcement i ∈ (Function.update s i n i).outQ
      rw [Function.update_self]
    · rw [hPeers b]
      exact or_congr_right ⟨fun h => ⟨rfl, h⟩, fun h => h.2⟩
    · show _ ↔ C.announcement b ∈ (Function.update s i n i).inQ
      rw [Function.update_self]
    · show _ ↔ C.announcement a ∈ (Function.update s i n a).outQ
      rw [Function.update_of_ne ha]
    · exact (or_iff_left fun h => ha h.1).symm
    · show _ ↔ C.announcement b ∈ (Function.update s i n a).inQ
      rw [Function.update_of_ne ha]
  rw [hEq]
  refine Discovery.Step.learn hIn ?_ ?_ ?_ ?_
  · intro a b hab
    by_cases ha : a = i
    · subst ha
      have hab' : C.announcement b ∈ n.inQ := by simpa [Mesh.abs] using hab
      rw [hInQ] at hab'
      exact List.mem_of_mem_erase hab'
    · simpa [Mesh.abs, ha] using hab
  · intro a b hab
    by_cases ha : a = i
    · subst ha
      by_cases hb : b = j
      · exact Or.inl ⟨rfl, hb⟩
      · refine Or.inr ?_
        have hne : C.announcement b ≠ C.announcement j :=
          fun h => hb (Cluster.announcement_inj h)
        have hMem : C.announcement b ∈ n.inQ := by
          rw [hInQ]
          exact (List.mem_erase_of_ne hne).mpr hab
        simpa [Mesh.abs] using hMem
    · exact Or.inr (by simpa [Mesh.abs, ha] using hab)
  · intro a ha
    by_cases hai : a = i
    · subst hai
      have hMem : C.announcement a ∈ n.outQ := by
        rw [hn, MeshNode.dispatch]
        exact mem_post_outQ_of_mem ha
      simpa [Mesh.abs] using hMem
    · simpa [Mesh.abs, hai] using ha
  · -- the reply goes out because a heard transport has its `namingPub` up
    intro hNew hHeard
    have hUp := hNode.heard hHeard
    have hMem : C.announcement i ∈ n.outQ := by
      rw [hn, MeshNode.dispatch, hOut]
      refine mem_post_outQ_of_sent hUp ?_
      have hNone : (s i).impl.mPeers.lookup (C.announcement j).mUuid = none := not_not.mp hNew
      rw [hNone, if_pos rfl, hNode.endpointsMsg]
      exact List.mem_singleton_self _
    simpa [Mesh.abs] using hMem

/-- A step of a thread announces the transport or shows nothing. -/
theorem abs_publish (k : Nat) (pc : PublishPc) (ok : Bool) :
    Mesh.abs C (Function.update s i ((s i).publish k pc ok keep)) = Mesh.abs C s ∨
    Discovery.Step (Mesh.abs C s)
      (Mesh.abs C (Function.update s i ((s i).publish k pc ok keep))) := by
  obtain ⟨b, hImpl, -⟩ := publishEndpoints_impl (s i).impl pc
  set n := (s i).publish k pc ok keep with hn
  have hPeers : n.impl.mPeers = (s i).impl.mPeers := by
    rw [hn, MeshNode.publish, post_impl, hImpl]
  by_cases hNew : C.announcement i ∈ n.outQ ↔ C.announcement i ∈ (s i).outQ
  · left
    refine abs_update_same ?_ ?_ hNew hPeers fun j => ?_
    · simp [hn, MeshNode.publish]
    · simp [hn, MeshNode.publish]
    · simp [hn, MeshNode.publish]
  · right
    have hMem : C.announcement i ∈ n.outQ := by
      by_contra hNot
      refine hNew ⟨fun h => absurd h hNot, fun h => ?_⟩
      rw [hn, MeshNode.publish]
      exact mem_post_outQ_of_mem h
    have hEq : Mesh.abs C (Function.update s i n) =
        { Mesh.abs C s with announcing := insert i (Mesh.abs C s).announcing } := by
      refine abs_update_eq ⟨?_, ?_, iff_of_true hMem (Set.mem_insert i _), fun b => ?_,
        fun b => ?_⟩ fun a ha =>
        ⟨Iff.rfl, Iff.rfl, mem_insert_of_other ha (Mesh.abs C s).announcing, fun _ => Iff.rfl,
          fun _ => Iff.rfl⟩
      · rw [hn, MeshNode.publish, post_joined]
        rfl
      · rw [hn, MeshNode.publish, post_heard]
        rfl
      · rw [hPeers]
        rfl
      · rw [hn, MeshNode.publish, post_inQ]
        rfl
    rw [hEq]
    exact Discovery.Step.announce

section Forward

variable {m : NamingMsg} {a : ι}

theorem forward_joined : (s.forward i m a).joined = (s a).joined := by
  unfold Mesh.forward
  dsimp only
  split <;> split <;> rfl

theorem forward_impl : (s.forward i m a).impl = (s a).impl := by
  unfold Mesh.forward
  dsimp only
  split <;> split <;> rfl

theorem forward_outQ (ha : a ≠ i) : (s.forward i m a).outQ = (s a).outQ := by
  unfold Mesh.forward
  dsimp only
  rw [if_neg ha]
  split <;> rfl

theorem forward_heard : (s.forward i m a).heard = true ↔ a = i ∨ (s a).heard = true := by
  have hHeard : (s.forward i m a).heard = if a = i then true else (s a).heard := by
    unfold Mesh.forward
    dsimp only
    split <;> split <;> rfl
  rw [hHeard]
  split
  · rename_i ha
    exact iff_of_true rfl (Or.inl ha)
  · rename_i ha
    exact (or_iff_right ha).symm

/-- Every transport that has joined gets the message. -/
theorem mem_forward_inQ {m' : NamingMsg} :
    m' ∈ (s.forward i m a).inQ ↔ m' ∈ (s a).inQ ∨ m' = m ∧ (s a).joined = true := by
  have hInQ : (s.forward i m a).inQ =
      if (s a).joined = true then (s a).inQ ++ [m] else (s a).inQ := by
    by_cases ha : a = i
    · subst ha
      unfold Mesh.forward
      dsimp only
      rw [if_pos rfl]
      split <;> rfl
    · unfold Mesh.forward
      dsimp only
      rw [if_neg ha]
      split <;> rfl
  rw [hInQ]
  split
  · rename_i hJoined
    rw [List.mem_append, List.mem_singleton, and_iff_left hJoined]
  · rename_i hNot
    rw [or_iff_left fun h => hNot h.2]

end Forward

/-- Forwarding is relaying. -/
theorem abs_forward (hNode : NodeInv C i (s i)) (hUp : (s i).pubUp = true) :
    Discovery.Step (Mesh.abs C s) (Mesh.abs C (s.forward i (C.announcement i))) := by
  have hJoined := hNode.pubUp hUp
  have hEq : Mesh.abs C (s.forward i (C.announcement i)) =
      { Mesh.abs C s with
        announcing := (Mesh.abs C (s.forward i (C.announcement i))).announcing
        heard := insert i (Mesh.abs C s).heard
        toward := fun a b =>
          (Mesh.abs C s).toward a b ∨ (b = i ∧ a ∈ (Mesh.abs C s).joined) } := by
    refine abs_eq_of_shows fun a => ⟨?_, ?_, Iff.rfl, fun b => ?_, fun b => ?_⟩
    · rw [forward_joined]
      rfl
    · show _ ↔ a ∈ insert i (Mesh.abs C s).heard
      rw [forward_heard, Set.mem_insert_iff]
      rfl
    · rw [forward_impl]
      rfl
    · rw [mem_forward_inQ]
      exact or_congr_right (and_congr_left fun _ =>
        ⟨fun h => Cluster.announcement_inj h, fun h => h ▸ rfl⟩)
  rw [hEq]
  refine Discovery.Step.relay hJoined fun j hj => ?_
  show C.announcement j ∈ (s.forward i (C.announcement i) j).outQ ↔ C.announcement j ∈ (s j).outQ
  rw [forward_outQ hj]

/-- The invariant of the mesh: every node's, and the protocol's. -/
structure MeshInv (C : Cluster ι) (s : Mesh ι) : Prop where
  node : ∀ i, NodeInv C i (s i)
  protocol : Discovery.Inv (Mesh.abs C s)

theorem nodeInv_update {n : MeshNode} (hInv : ∀ a, NodeInv C a (s a)) (hn : NodeInv C i n)
    (a : ι) : NodeInv C a (Function.update s i n a) := by
  by_cases ha : a = i
  · subst ha
    rw [Function.update_self]
    exact hn
  · rw [Function.update_of_ne ha]
    exact hInv a

theorem nodeInv_forward (hInv : ∀ a, NodeInv C a (s a)) (hUp : (s i).pubUp = true) (a : ι) :
    NodeInv C a (s.forward i (C.announcement i) a) := by
  -- first the sender's own bookkeeping, then the copy everybody gets
  have hSender : NodeInv C a (if a = i then
      { s a with outQ := (s a).outQ.erase (C.announcement i), heard := true } else s a) := by
    have hA := hInv a
    split
    · rename_i hai
      exact
        { hA with
          outQ := fun m hm => hA.outQ m (List.mem_of_mem_erase hm)
          heard := fun _ => hai ▸ hUp
          connected := fun _ => rfl }
    · exact hA
  unfold Mesh.forward
  generalize (if a = i then
    { s a with outQ := (s a).outQ.erase (C.announcement i), heard := true } else s a) = n
    at hSender ⊢
  show NodeInv C a (if n.joined then { n with inQ := n.inQ ++ [C.announcement i] } else n)
  split
  · rename_i hJoined
    refine { hSender with inQ := fun m hm => ?_ }
    rcases List.mem_append.mp hm with hm | hm
    · exact hSender.inQ m hm
    · exact ⟨hJoined, Or.inr ⟨i, List.mem_singleton.mp hm⟩⟩
  · exact hSender

/-- **The mesh refines the discovery protocol.** A step that answers and records a new
peer keeps the invariant of every node and is a step of the abstract protocol, or
none. -/
theorem mesh_refines {s' : Mesh ι} {a : MeshAct ι} (hInv : MeshInv C s)
    (hCompletes : s.Completes a) (h : Mesh.step C s a = some s') :
    (∀ i, NodeInv C i (s' i)) ∧
      (Mesh.abs C s' = Mesh.abs C s ∨ Discovery.Step (Mesh.abs C s) (Mesh.abs C s')) := by
  unfold Mesh.step at h
  cases a with
  | join i =>
    simp only [Option.ite_none_right_eq_some, Option.some.injEq] at h
    obtain ⟨hNew, rfl⟩ := h
    have hNode := hInv.node i
    refine ⟨nodeInv_update hInv.node ?_, Or.inr (abs_join hNew)⟩
    refine { hNode with inQ := fun m hm => ⟨rfl, ?_⟩, welcomed := fun _ => rfl,
                        pubUp := fun _ => rfl }
    rcases List.mem_append.mp hm with hm | hm
    · exact (hNode.inQ m hm).2
    · exact Or.inl (List.mem_singleton.mp hm)
  | pubUp i =>
    simp only [Option.ite_none_right_eq_some, Option.some.injEq] at h
    obtain ⟨hConn, rfl⟩ := h
    have hNode := hInv.node i
    refine ⟨nodeInv_update hInv.node ?_, Or.inl (abs_update_same rfl rfl Iff.rfl rfl
      fun _ => Iff.rfl)⟩
    exact { hNode with pubUp := fun _ => hNode.welcomed ⟨_, hConn⟩, heard := fun _ => rfl }
  | dispatch i m calls keep =>
    simp only [Option.ite_none_right_eq_some, Option.some.injEq] at h
    obtain ⟨⟨hIn, hConnect⟩, rfl⟩ := h
    have hNode := hInv.node i
    rcases (hNode.inQ m hIn).2 with rfl | ⟨j, rfl⟩
    · exact ⟨nodeInv_update hInv.node (hNode.dispatchWelcome hIn hConnect),
        Or.inl (abs_dispatch_welcome hConnect)⟩
    · have hHeard : i = j → (s i).heard = true := by
        rintro rfl
        exact hInv.protocol.toward_heard i i hIn
      exact ⟨nodeInv_update hInv.node
          (hNode.dispatchAnnouncement hHeard hConnect (hCompletes rfl)),
        Or.inr (abs_dispatch_announcement hNode hIn hConnect (hCompletes rfl))⟩
  | publish i k ok keep =>
    simp only at h
    split at h
    · rename_i pc hPc
      obtain rfl := Option.some.inj h
      exact ⟨nodeInv_update hInv.node ((hInv.node i).publish k pc ok), abs_publish k pc ok⟩
    · cases h
  | forward i m =>
    simp only [Option.ite_none_right_eq_some, Option.some.injEq] at h
    obtain ⟨⟨hUp, hOut⟩, rfl⟩ := h
    obtain rfl := (hInv.node i).outQ m hOut
    exact ⟨nodeInv_forward hInv.node hUp, Or.inr (abs_forward (hInv.node i) hUp)⟩

theorem MeshInv.step {s' : Mesh ι} {a : MeshAct ι} (hInv : MeshInv C s)
    (hCompletes : s.Completes a) (h : Mesh.step C s a = some s') : MeshInv C s' := by
  obtain ⟨hNode, hEq | hStep⟩ := mesh_refines hInv hCompletes h
  · exact ⟨hNode, hEq ▸ hInv.protocol⟩
  · exact ⟨hNode, hInv.protocol.step hStep⟩

/-- The invariant holds along every run in which new peers are answered and recorded. -/
theorem mesh_reachable {as : List (MeshAct ι)}
    (hRun : run (Mesh.step C) (Mesh.init C) as = some s)
    (hMeet : StepsMeet (Mesh.step C) Mesh.Completes (Mesh.init C) as) : MeshInv C s :=
  run_induction_meet (P := fun _ s => MeshInv C s)
    ⟨fun _ => nodeInv_init, abs_init ▸ Discovery.inv_init⟩
    (fun _ _ _ _ _ hInv hCompletes h => hInv.step hCompletes h) hRun hMeet

/--
**Discovery yields a full mesh**, as long as every new peer is answered and recorded.
In every state with nothing in flight that such a run reaches, any two transports that
have received their own announcement have each other in `mPeers` and their data
sockets connected to each other.
-/
theorem discovery_full_mesh {as : List (MeshAct ι)} {a b : ι}
    (hRun : run (Mesh.step C) (Mesh.init C) as = some s)
    (hMeet : StepsMeet (Mesh.step C) Mesh.Completes (Mesh.init C) as)
    (hQuiet : ∀ i, (s i).inQ = [] ∧ (s i).outQ = [])
    (ha : (s a).impl.mNamingConnected = true) (hb : (s b).impl.mNamingConnected = true) :
    ((s a).impl.mPeers.lookup (C.uuid b) ≠ none ∧
      (s b).impl.mPubEndpoint ∈ (s a).impl.mZmqDataSub) ∧
    ((s b).impl.mPeers.lookup (C.uuid a) ≠ none ∧
      (s a).impl.mPubEndpoint ∈ (s b).impl.mZmqDataSub) := by
  have hInv := mesh_reachable hRun hMeet
  have hToward : ∀ i j, ¬ (Mesh.abs C s).toward i j := by
    intro i j h
    have h' : C.announcement j ∈ (s i).inQ := h
    rw [(hQuiet i).1] at h'
    exact absurd h' List.not_mem_nil
  have hSilent : ∀ i, i ∉ (Mesh.abs C s).announcing := by
    intro i h
    have h' : C.announcement i ∈ (s i).outQ := h
    rw [(hQuiet i).2] at h'
    exact absurd h' List.not_mem_nil
  have hKnows : ∀ {a b}, (s a).impl.mNamingConnected = true →
      (s b).impl.mNamingConnected = true →
      (s a).impl.mPeers.lookup (C.uuid b) ≠ none ∧
        (s b).impl.mPubEndpoint ∈ (s a).impl.mZmqDataSub := by
    intro a b ha hb
    have hKnown : (s a).impl.mPeers.lookup (C.uuid b) ≠ none :=
      hInv.protocol.full_mesh hToward hSilent ((hInv.node a).connected ha)
        ((hInv.node b).connected hb)
    refine ⟨hKnown, ?_⟩
    rw [(hInv.node b).endpoint]
    exact (hInv.node a).peers b hKnown
  exact ⟨hKnows ha hb, hKnows hb ha⟩

end Refinement

/-- Two transports that join one after the other. -/
def pairCluster : Cluster Bool where
  uuid b := if b then [2] else [1]
  endpoint b := if b then [20] else [10]
  retries _ := 3
  proxyEndpoint := [9]
  uuid_injective := by decide

/-- The first transport finds itself, then the second one joins. Every
announcement is forwarded and handled before the run ends. -/
def pairRun : List (MeshAct Bool) :=
  let first := pairCluster.announcement false
  let second := pairCluster.announcement true
  let handle i m := MeshAct.dispatch i m .allOk false
  let publish i := MeshAct.publish i 0 true false
  let start i := [.join i, handle i pairCluster.welcome, .pubUp i, publish i, publish i,
    publish i]
  start false ++
    [.forward false first, handle false first, .forward false first, handle false first] ++
    start true ++
    [.forward true second, handle false second, .forward false first, handle false first,
      handle true second, handle true first, .forward true second, .forward true second,
      handle false second, handle false second, handle true second, handle true second]

theorem discovery_full_mesh_pair :
    ∃ s, run (Mesh.step pairCluster) (Mesh.init pairCluster) pairRun = some s ∧
      ((s false).impl.mPeers.lookup [2] ≠ none ∧
        (s true).impl.mPubEndpoint ∈ (s false).impl.mZmqDataSub) ∧
      ((s true).impl.mPeers.lookup [1] ≠ none ∧
        (s false).impl.mPubEndpoint ∈ (s true).impl.mZmqDataSub) :=
  have hRun : run (Mesh.step pairCluster) (Mesh.init pairCluster) pairRun = some _ := rfl
  ⟨_, hRun, discovery_full_mesh (a := false) (b := true) hRun
    (stepsMeet_of_meetsAll (by decide +kernel)) (by decide) (by decide) (by decide)⟩

/-- As `pairRun`, but the first transport handles every announcement of the second one
with `calls`. Each time there is a reply, it is forwarded and handled. -/
def incompleteRun (calls : NamingCalls) : List (MeshAct Bool) :=
  let first := pairCluster.announcement false
  let second := pairCluster.announcement true
  let handle i m := MeshAct.dispatch i m .allOk false
  let publish i := MeshAct.publish i 0 true false
  let start i := [.join i, handle i pairCluster.welcome, .pubUp i, publish i, publish i,
    publish i]
  let replied := [.forward false first, handle false first, handle true first]
  let announced := [.forward true second, .dispatch false second calls false,
    handle true second] ++ if calls.send then replied else []
  start false ++
    [.forward false first, handle false first, .forward false first, handle false first] ++
    start true ++ announced ++ announced ++ if calls.send then announced else []

/-- **A mesh with a hole.** Both transports have seen their own announcement and nothing
is in flight, but there was no memory for the record of the second one: the first is
connected to it and does not have it in its table. If instead the replies could not be
sent, the second transport has never heard of the first. -/
theorem discovery_incomplete :
    (∃ s, run (Mesh.step pairCluster) (Mesh.init pairCluster)
        (incompleteRun { NamingCalls.allOk with malloc := false }) = some s ∧
      (∀ i, (s i).inQ = [] ∧ (s i).outQ = []) ∧
      (∀ i, (s i).impl.mNamingConnected = true) ∧
      (s true).impl.mPubEndpoint ∈ (s false).impl.mZmqDataSub ∧
      (s false).impl.mPeers.lookup (pairCluster.uuid true) = none) ∧
    ∃ s, run (Mesh.step pairCluster) (Mesh.init pairCluster)
        (incompleteRun { NamingCalls.allOk with send := false }) = some s ∧
      (∀ i, (s i).inQ = [] ∧ (s i).outQ = []) ∧
      (∀ i, (s i).impl.mNamingConnected = true) ∧
      (s false).impl.mPeers.lookup (pairCluster.uuid true) = none ∧
      (s true).impl.mPeers.lookup (pairCluster.uuid false) = none ∧
      (s false).impl.mPubEndpoint ∉ (s true).impl.mZmqDataSub :=
  ⟨exists_run (by decide +kernel), exists_run (by decide +kernel)⟩

end ZmqBridge
