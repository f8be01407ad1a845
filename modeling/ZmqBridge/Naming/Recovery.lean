import ZmqBridge.Lib.Register
import ZmqBridge.Lib.Run
import ZmqBridge.Naming.Mesh

/-!
# ZmqBridge — the peers table when messages and calls fail

A naming message may be lost, copied or late, and every call its handling makes
may fail. Beacons repeat an announcement for ever, and a 'D' is sent once.

First one transport: what it has recorded for a uuid is a function of what it
handled. Then any number of transports on a network that loses, copies and
reorders what it likes, with transports that stop without a word.

* `peers_table_exact`    — the entry of a uuid is the first announcement since
  its last 'D' whose handling succeeded to the end;
* `lossy_mesh_recovers`  — of a transport that has said no 'D', everybody who ever
  completed one of its announcements has an entry and a connection, for ever, and
  nobody else; so any set of transports whose beacons got through is fully meshed.
-/

namespace ZmqBridge

open Lib

-- ---------------------------------------------------------------------------
-- One transport
-- ---------------------------------------------------------------------------

/-- The message is a 'D' of the uuid. -/
def disconnects (uuid : List Byte) (h : NamingCalls × NamingMsg) : Bool :=
  h.2.mType = typeDisconnect ∧ h.2.mUuid = uuid

/-- The message announces the uuid, and no call made for a new peer fails. -/
def completes (uuid : List Byte) (h : NamingCalls × NamingMsg) : Bool :=
  h.2.announces = true ∧ h.2.mUuid = uuid ∧ h.1.connect = true ∧ h.1.send = true ∧
    h.1.malloc = true

/-- The transport handles messages one after another. -/
def NamingTransport.receive (impl : NamingTransport) (hs : List (NamingCalls × NamingMsg)) :
    NamingTransport :=
  hs.foldl (fun impl h => (TransportImpl.dispatchNamingMsg h.1 impl h.2).impl) impl

section Table

variable {impl : NamingTransport} {calls : NamingCalls} {m : NamingMsg} {uuid : List Byte}

theorem not_disconnect_of_announces (hA : m.announces = true) : m.mType ≠ typeDisconnect :=
  fun hD => Bool.false_ne_true ((announces_of_disconnect hD).symm.trans hA)

/-- A peer whose connect fails is not looked at any further. -/
theorem dispatchNamingMsg_connect_fails (hA : m.announces = true)
    (hConnect : calls.connect = false) :
    (TransportImpl.dispatchNamingMsg calls impl m).impl.mPeers = impl.mPeers ∧
      (TransportImpl.dispatchNamingMsg calls impl m).impl.mZmqDataSub = impl.mZmqDataSub := by
  cases hL : impl.mPeers.lookup m.mUuid with
  | some r =>
    rw [dispatchNamingMsg_known hA hL]
    exact ⟨noteOwnMsg_mPeers, noteOwnMsg_mZmqDataSub⟩
  | none =>
    rw [TransportImpl.dispatchNamingMsg, if_pos hA, hL]
    simp [TransportImpl.connectSocket, hConnect]

/-- Messages that are neither announcements nor disconnects leave the peers and the
data socket alone. -/
theorem dispatchNamingMsg_other (hA : m.announces = false) (hD : m.mType ≠ typeDisconnect) :
    (TransportImpl.dispatchNamingMsg calls impl m).impl.mPeers = impl.mPeers ∧
      (TransportImpl.dispatchNamingMsg calls impl m).impl.mZmqDataSub = impl.mZmqDataSub := by
  rw [TransportImpl.dispatchNamingMsg, hA, if_neg Bool.false_ne_true, if_neg hD]
  split
  · dsimp only
    split
    · exact ⟨rfl, rfl⟩
    · split <;> exact ⟨rfl, rfl⟩
  · exact ⟨rfl, rfl⟩

/-- The table after a disconnect, whether the socket could be disconnected or not. -/
theorem dispatchNamingMsg_disconnect_mPeers (hD : m.mType = typeDisconnect) :
    (TransportImpl.dispatchNamingMsg calls impl m).impl.mPeers = impl.mPeers.erase m.mUuid := by
  rw [TransportImpl.dispatchNamingMsg, announces_of_disconnect hD, if_neg Bool.false_ne_true,
    if_pos hD]

/-- What one message does to the entry of a uuid. -/
theorem lookup_dispatchNamingMsg (impl : NamingTransport) (h : NamingCalls × NamingMsg)
    (uuid : List Byte) :
    (TransportImpl.dispatchNamingMsg h.1 impl h.2).impl.mPeers.lookup uuid =
      if disconnects uuid h then none
      else if completes uuid h then (impl.mPeers.lookup uuid).or (some h.2)
      else impl.mPeers.lookup uuid := by
  obtain ⟨calls, m⟩ := h
  by_cases hA : m.announces = true
  · have hD : disconnects uuid (calls, m) = false := by
      simp [disconnects, not_disconnect_of_announces hA]
    rw [hD, if_neg Bool.false_ne_true]
    by_cases hConnect : calls.connect = true
    · rw [dispatchNamingMsg_mPeers hA hConnect]
      by_cases hu : m.mUuid = uuid
      · subst hu
        cases hL : impl.mPeers.lookup m.mUuid <;> cases hSend : calls.send <;>
          cases hMalloc : calls.malloc <;> simp [completes, hA, hConnect, hL, hSend, hMalloc]
      · have hC : completes uuid (calls, m) = false := by simp [completes, hu]
        rw [hC, if_neg Bool.false_ne_true]
        split
        · exact AList.lookup_insert_ne (Ne.symm hu)
        · rfl
    · rw [Bool.not_eq_true] at hConnect
      rw [(dispatchNamingMsg_connect_fails hA hConnect).1]
      simp [completes, hConnect]
  · have hC : completes uuid (calls, m) = false := by simp [completes, hA]
    rw [hC, if_neg Bool.false_ne_true]
    rw [Bool.not_eq_true] at hA
    by_cases hType : m.mType = typeDisconnect
    · rw [dispatchNamingMsg_disconnect_mPeers hType]
      by_cases hu : m.mUuid = uuid
      · simp [disconnects, hType, hu]
      · simp [disconnects, hu, AList.lookup_erase_ne (Ne.symm hu)]
    · rw [(dispatchNamingMsg_other hA hType).1]
      simp [disconnects, hType]

/-- The entry of a uuid, followed through a history. -/
theorem lookup_receive_foldl (impl : NamingTransport) (hs : List (NamingCalls × NamingMsg))
    (uuid : List Byte) :
    (impl.receive hs).mPeers.lookup uuid =
      hs.foldl (fun v h => if disconnects uuid h then none
        else if completes uuid h then v.or (some h.2) else v) (impl.mPeers.lookup uuid) := by
  induction hs generalizing impl with
  | nil => rfl
  | cons h hs ih =>
    unfold NamingTransport.receive at ih ⊢
    rw [List.foldl_cons, List.foldl_cons, ih, lookup_dispatchNamingMsg]

theorem registers_lookup (uuid : List Byte) :
    Registers (disconnects uuid) (completes uuid) Prod.snd
      (fun v h => if disconnects uuid h then none
        else if completes uuid h then v.or (some h.2) else v) :=
  fun _ _ => rfl

/--
**What a transport has recorded.** Whatever naming messages it handles, in whatever
order, and whichever of the calls it makes fail: the entry of a uuid is the first
announcement since the last 'D' of the uuid whose handling succeeded to the end. Without
a 'D', what was there before comes first.
-/
theorem peers_table_exact (impl : NamingTransport) (hs : List (NamingCalls × NamingMsg))
    (uuid : List Byte) :
    (impl.receive hs).mPeers.lookup uuid =
      (if hs.any (disconnects uuid) then none else impl.mPeers.lookup uuid).or
        (((sinceClear (disconnects uuid) hs).find? (completes uuid)).map Prod.snd) := by
  rw [lookup_receive_foldl]
  exact (registers_lookup uuid).foldl _ hs

/-- What the data socket keeps: a connection only goes with a 'D' for its endpoint. -/
theorem mem_dispatchNamingMsg_mZmqDataSub {endpoint : List Byte}
    (hMem : endpoint ∈ impl.mZmqDataSub)
    (hOther : m.mType = typeDisconnect → endpoint ≠ m.mEndPointAddr) :
    endpoint ∈ (TransportImpl.dispatchNamingMsg calls impl m).impl.mZmqDataSub := by
  by_cases hA : m.announces = true
  · by_cases hConnect : calls.connect = true
    · rw [dispatchNamingMsg_mZmqDataSub hA hConnect]
      split
      · exact Finset.mem_insert_of_mem hMem
      · exact hMem
    · rw [Bool.not_eq_true] at hConnect
      rwa [(dispatchNamingMsg_connect_fails hA hConnect).2]
  · rw [Bool.not_eq_true] at hA
    by_cases hD : m.mType = typeDisconnect
    · rw [TransportImpl.dispatchNamingMsg, hA, if_neg Bool.false_ne_true, if_pos hD]
      simp only [TransportImpl.disconnectSocket]
      split
      · exact Finset.mem_erase_of_ne_of_mem (hOther hD) hMem
      · exact hMem
    · rwa [(dispatchNamingMsg_other hA hD).2]

/-- A peer is connected before it is recorded. -/
theorem mem_mZmqDataSub_of_recorded (hNew : impl.mPeers.lookup m.mUuid = none)
    (hRecorded : (TransportImpl.dispatchNamingMsg calls impl m).impl.mPeers.lookup m.mUuid ≠
      none) :
    m.mEndPointAddr ∈ (TransportImpl.dispatchNamingMsg calls impl m).impl.mZmqDataSub := by
  have hStep := lookup_dispatchNamingMsg impl (calls, m) m.mUuid
  have hC : completes m.mUuid (calls, m) = true := by
    by_contra hNot
    rw [if_neg hNot, hNew, ite_self] at hStep
    exact hRecorded hStep
  simp only [completes, decide_eq_true_eq] at hC
  obtain ⟨hA, -, hConnect, -⟩ := hC
  rw [dispatchNamingMsg_mZmqDataSub hA hConnect, if_pos hNew]
  exact Finset.mem_insert_self _ _

/-- As long as no 'D' of the uuid is handled. -/
theorem lookup_receive_of_kept {hs : List (NamingCalls × NamingMsg)}
    (hKept : ∀ h ∈ hs, disconnects uuid h = false) :
    (impl.receive hs).mPeers.lookup uuid =
      (impl.mPeers.lookup uuid).or ((hs.find? (completes uuid)).map Prod.snd) := by
  rw [lookup_receive_foldl]
  exact (registers_lookup uuid).foldl_of_kept hKept

end Table

-- ---------------------------------------------------------------------------
-- Any number of transports
-- ---------------------------------------------------------------------------

variable {ι : Type*}

/-- How far a transport has got. Nothing tells the others when it is gone. -/
inductive Life where
  | unborn
  | up
  | gone
  deriving DecidableEq, Repr

/-- A transport, and what is on its way to it, messages of type `M`. `left` records that
it has sent its 'D'. -/
structure LossyNode (M : Type) where
  impl : NamingTransport
  life : Life
  left : Bool
  inQ : List M

abbrev LossyMesh (ι : Type*) (M : Type) := ι → LossyNode M

def LossyMesh.init (C : Cluster ι) : LossyMesh ι NamingMsg := fun i =>
  { impl := (Mesh.init C i).impl
    life := .unborn
    left := false
    inQ := [] }

/-- What is sent gets to some, and is lost on the way to the others. -/
def LossyMesh.cast {M : Type} (s : LossyMesh ι M) (sent : List M) (reaches : ι → Bool) :
    LossyMesh ι M := fun j =>
  if reaches j then { s j with inQ := (s j).inQ ++ sent } else s j

/-- What can happen. `announce` is a beacon or a message of `publishEndpoints`, `leave`
the 'D' of `stop`, `quit` the end of a transport with or without a 'D'. -/
inductive LossyAct (ι : Type*) (M : Type) where
  | start (i : ι)
  | announce (i : ι) (beacon ok : Bool) (reaches : ι → Bool)
  | dispatch (i : ι) (m : M) (calls : NamingCalls) (reaches : ι → Bool)
  | leave (i : ι) (ok : Bool) (reaches : ι → Bool)
  | quit (i : ι)
  | lose (i : ι) (m : M)
  | copy (i : ι) (m : M)

/-- One step. A transport that has sent its 'D' still handles messages until it is gone,
and may even announce itself. -/
def LossyMesh.step [DecidableEq ι] (s : LossyMesh ι NamingMsg) :
    LossyAct ι NamingMsg → Option (LossyMesh ι NamingMsg)
  | .start i =>
    if (s i).life = .unborn then some (Function.update s i { s i with life := .up }) else none
  | .announce i beacon ok reaches =>
    if (s i).life = .up then
      some (s.cast (TransportImpl.sendEndpointsMsg (s i).impl
        (if beacon then typeBeacon else typeConnect) ok).1 reaches)
    else none
  | .dispatch i m calls reaches =>
    if (s i).life = .up ∧ m ∈ (s i).inQ then
      let out := TransportImpl.dispatchNamingMsg calls (s i).impl m
      some (LossyMesh.cast
        (Function.update s i { s i with impl := out.impl, inQ := (s i).inQ.erase m })
        out.sent reaches)
    else none
  | .leave i ok reaches =>
    if (s i).life = .up then
      some (LossyMesh.cast (Function.update s i { s i with left := true })
        (TransportImpl.sendEndpointsMsg (s i).impl typeDisconnect ok).1 reaches)
    else none
  | .quit i =>
    if (s i).life = .up then some (Function.update s i { s i with life := .gone }) else none
  | .lose i m =>
    if m ∈ (s i).inQ then
      some (Function.update s i { s i with inQ := (s i).inQ.erase m })
    else none
  | .copy i m =>
    if m ∈ (s i).inQ then
      some (Function.update s i { s i with inQ := (s i).inQ ++ [m] })
    else none

/-- What transport `j` handles in a run. -/
def handledBy [DecidableEq ι] (j : ι) (as : List (LossyAct ι NamingMsg)) :
    List (NamingCalls × NamingMsg) :=
  as.filterMap fun
    | .dispatch i m calls _ => if i = j then some (calls, m) else none
    | _ => none

/-- The message is one that some transport sends about itself; a 'D' only if it has
left. -/
def LossyMesh.Sent (C : Cluster ι) (s : LossyMesh ι NamingMsg) (m : NamingMsg) : Prop :=
  ∃ k, m.mUuid = C.uuid k ∧ m.mEndPointAddr = C.endpoint k ∧
    (m.announces = true ∨ (m.mType = typeDisconnect ∧ (s k).left = true))

/-- What holds in every reachable state, whatever was lost and whatever failed. -/
structure LossyMesh.Inv (C : Cluster ι) (s : LossyMesh ι NamingMsg) : Prop where
  uuid : ∀ i, (s i).impl.mUuid = C.uuid i
  endpoint : ∀ i, (s i).impl.mPubEndpoint = C.endpoint i
  inQ : ∀ j, ∀ m ∈ (s j).inQ, s.Sent C m
  connected : ∀ j k, (s j).impl.mPeers.lookup (C.uuid k) ≠ none →
    C.endpoint k ∈ (s j).impl.mZmqDataSub

section Cast

variable {M : Type} {s : LossyMesh ι M} {sent : List M} {reaches : ι → Bool}

@[simp] theorem cast_impl (j : ι) : (s.cast sent reaches j).impl = (s j).impl := by
  unfold LossyMesh.cast
  split <;> rfl

@[simp] theorem cast_life (j : ι) : (s.cast sent reaches j).life = (s j).life := by
  unfold LossyMesh.cast
  split <;> rfl

@[simp] theorem cast_left (j : ι) : (s.cast sent reaches j).left = (s j).left := by
  unfold LossyMesh.cast
  split <;> rfl

theorem cast_inQ (j : ι) :
    (s.cast sent reaches j).inQ = (s j).inQ ++ if reaches j then sent else [] := by
  unfold LossyMesh.cast
  split
  · rfl
  · exact (List.append_nil _).symm

theorem mem_cast_inQ {j : ι} {m : M} (h : m ∈ (s.cast sent reaches j).inQ) :
    m ∈ (s j).inQ ∨ m ∈ sent := by
  unfold LossyMesh.cast at h
  split at h
  · exact List.mem_append.mp h
  · exact Or.inl h

end Cast

-- ---------------------------------------------------------------------------
-- What a step can do
-- ---------------------------------------------------------------------------

/-- The message comes from a transport: an announcement, or the 'D' it has just sent. -/
def LossyMesh.Sends (s s' : LossyMesh ι NamingMsg) (m : NamingMsg) : Prop :=
  ∃ k command, m = (s k).impl.endpointsMsg command ∧
    (command = typeConnect ∨ command = typeBeacon ∨
      (command = typeDisconnect ∧ (s' k).left = true))

/-- Everything the invariants need to know about a step. -/
structure LossyMesh.Steps [DecidableEq ι] (s : LossyMesh ι NamingMsg) (a : LossyAct ι NamingMsg)
    (s' : LossyMesh ι NamingMsg) : Prop where
  impl : ∀ j, (s' j).impl = (s j).impl.receive (handledBy j [a])
  left : ∀ j, (s j).left = true → (s' j).left = true
  handled : ∀ j, ∀ h ∈ handledBy j [a], h.2 ∈ (s j).inQ
  inQ : ∀ j, ∀ m ∈ (s' j).inQ, m ∈ (s j).inQ ∨ s.Sends s' m

section Step

variable [DecidableEq ι] {s s' : LossyMesh ι NamingMsg} {a : LossyAct ι NamingMsg}

/-- A step of one node that handles nothing and sends nothing. -/
theorem LossyMesh.Steps.quiet {i : ι} {n : LossyNode NamingMsg}
    (hQuiet : ∀ j, handledBy j [a] = [])
    (hImpl : n.impl = (s i).impl) (hLeft : (s i).left = true → n.left = true)
    (hInQ : ∀ m ∈ n.inQ, m ∈ (s i).inQ) : s.Steps a (Function.update s i n) where
  impl j := by
    rw [hQuiet]
    by_cases hj : j = i
    · subst hj
      simpa [NamingTransport.receive] using hImpl
    · simp [Function.update_of_ne hj, NamingTransport.receive]
  left j := by
    by_cases hj : j = i
    · subst hj
      simpa using hLeft
    · simp [Function.update_of_ne hj]
  handled j h hh := by
    rw [hQuiet] at hh
    exact absurd hh List.not_mem_nil
  inQ j m hm := by
    by_cases hj : j = i
    · subst hj
      rw [Function.update_self] at hm
      exact Or.inl (hInQ m hm)
    · rw [Function.update_of_ne hj] at hm
      exact Or.inl hm

/-- Sending on top of a step. -/
theorem LossyMesh.Steps.cast (h : s.Steps a s') {sent : List NamingMsg} {reaches : ι → Bool}
    (hSent : ∀ m ∈ sent, s.Sends s' m) : s.Steps a (s'.cast sent reaches) where
  impl j := by
    rw [cast_impl]
    exact h.impl j
  left j := by
    rw [cast_left]
    exact h.left j
  handled := h.handled
  inQ j m hm := by
    have hSends : s.Sends (s'.cast sent reaches) m ↔ s.Sends s' m := by
      simp only [LossyMesh.Sends, cast_left]
    rw [hSends]
    rcases mem_cast_inQ hm with hOld | hNew
    · exact h.inQ j m hOld
    · exact Or.inr (hSent m hNew)

theorem LossyMesh.mem_sendEndpointsMsg {impl : NamingTransport} {command : Byte} {ok : Bool}
    {m : NamingMsg} (h : m ∈ (TransportImpl.sendEndpointsMsg impl command ok).1) :
    m = impl.endpointsMsg command := by
  unfold TransportImpl.sendEndpointsMsg at h
  split at h
  · exact List.mem_singleton.mp h
  · exact absurd h List.not_mem_nil

/-- The one place that looks into the step function. -/
theorem LossyMesh.steps_of_step (h : s.step a = some s') : s.Steps a s' := by
  cases a with
  | start i =>
    rw [LossyMesh.step] at h
    split at h
    · rw [← Option.some.inj h]
      exact .quiet (fun _ => rfl) rfl id fun _ hm => hm
    · cases h
  | announce i beacon ok reaches =>
    rw [LossyMesh.step] at h
    split at h
    · rw [← Option.some.inj h]
      refine LossyMesh.Steps.cast ⟨fun _ => rfl, fun _ hl => hl, fun _ _ hh => ?_,
        fun _ _ hm => Or.inl hm⟩ fun m hm => ?_
      · exact absurd hh List.not_mem_nil
      · refine ⟨i, _, LossyMesh.mem_sendEndpointsMsg hm, ?_⟩
        cases beacon
        · exact Or.inl rfl
        · exact Or.inr (Or.inl rfl)
    · cases h
  | dispatch i m calls reaches =>
    rw [LossyMesh.step] at h
    split at h
    · rename_i hGuard
      rw [← Option.some.inj h]
      refine LossyMesh.Steps.cast ⟨fun j => ?_, fun j hl => ?_, fun j hd hh => ?_,
        fun j r hr => ?_⟩ fun r hr => ?_
      all_goals try by_cases hj : j = i
      · subst hj
        simp [handledBy, NamingTransport.receive]
      · simp [handledBy, NamingTransport.receive, Function.update_of_ne hj, Ne.symm hj]
      · subst hj
        simpa using hl
      · simpa [Function.update_of_ne hj] using hl
      · subst hj
        simp only [handledBy, List.filterMap_cons, List.filterMap_nil, if_true,
          List.mem_singleton] at hh
        rw [hh]
        exact hGuard.2
      · simp [handledBy, Ne.symm hj] at hh
      · subst hj
        rw [Function.update_self] at hr
        exact Or.inl (List.mem_of_mem_erase hr)
      · rw [Function.update_of_ne hj] at hr
        exact Or.inl hr
      · rw [dispatchNamingMsg_sent] at hr
        split at hr
        · exact ⟨i, typeConnect, List.mem_singleton.mp hr, Or.inl rfl⟩
        · exact absurd hr List.not_mem_nil
    · cases h
  | leave i ok reaches =>
    rw [LossyMesh.step] at h
    split at h
    · rw [← Option.some.inj h]
      refine LossyMesh.Steps.cast (.quiet (i := i) (n := { s i with left := true })
        (fun _ => rfl) rfl (fun _ => rfl) fun _ hm => hm) fun m hm => ?_
      refine ⟨i, typeDisconnect, LossyMesh.mem_sendEndpointsMsg hm, Or.inr (Or.inr ⟨rfl, ?_⟩)⟩
      rw [Function.update_self]
    · cases h
  | quit i =>
    rw [LossyMesh.step] at h
    split at h
    · rw [← Option.some.inj h]
      exact .quiet (fun _ => rfl) rfl id fun _ hm => hm
    · cases h
  | lose i m =>
    rw [LossyMesh.step] at h
    split at h
    · rw [← Option.some.inj h]
      exact .quiet (fun _ => rfl) rfl id fun _ hm => List.mem_of_mem_erase hm
    · cases h
  | copy i m =>
    rw [LossyMesh.step] at h
    split at h
    · rename_i hIn
      rw [← Option.some.inj h]
      refine .quiet (fun _ => rfl) rfl id fun r hr => ?_
      rcases List.mem_append.mp hr with hr | hr
      · exact hr
      · exact List.mem_singleton.mp hr ▸ hIn
    · cases h

end Step

-- ---------------------------------------------------------------------------
-- Recorded peers are connected
-- ---------------------------------------------------------------------------

section Connected

variable {C : Cluster ι} {impl : NamingTransport}

/-- Every recorded transport of the cluster has its endpoint connected. -/
def NamingTransport.Connected (C : Cluster ι) (impl : NamingTransport) : Prop :=
  ∀ k, impl.mPeers.lookup (C.uuid k) ≠ none → C.endpoint k ∈ impl.mZmqDataSub

/-- With endpoints of their own, nobody is cut off by somebody else's 'D'. -/
theorem NamingTransport.Connected.dispatch (hEndpoints : Function.Injective C.endpoint)
    (h : impl.Connected C) (calls : NamingCalls) {m : NamingMsg} {k₀ : ι}
    (hUuid : m.mUuid = C.uuid k₀) (hEndpoint : m.mEndPointAddr = C.endpoint k₀) :
    (TransportImpl.dispatchNamingMsg calls impl m).impl.Connected C := by
  intro k hRecorded
  by_cases hOld : impl.mPeers.lookup (C.uuid k) = none
  · -- a new entry is that of the sender, which has just been connected
    have hSelf : m.mUuid = C.uuid k := by
      by_contra hNe
      have hStep := lookup_dispatchNamingMsg impl (calls, m) (C.uuid k)
      simp [disconnects, completes, hNe, hOld] at hStep
      exact hRecorded hStep
    obtain rfl : k₀ = k := C.uuid_injective (hUuid.symm.trans hSelf)
    rw [← hEndpoint]
    exact mem_mZmqDataSub_of_recorded (hSelf ▸ hOld) (hSelf ▸ hRecorded)
  · refine mem_dispatchNamingMsg_mZmqDataSub (h k hOld) fun hD hEq => ?_
    -- the 'D' of the endpoint is that of the peer, and takes the entry with it
    obtain rfl : k = k₀ := hEndpoints (hEq.trans hEndpoint)
    rw [dispatchNamingMsg_disconnect_mPeers hD, hUuid, AList.lookup_erase] at hRecorded
    exact hRecorded rfl

theorem NamingTransport.Connected.receive (hEndpoints : Function.Injective C.endpoint)
    {hs : List (NamingCalls × NamingMsg)} (h : impl.Connected C)
    (hFrom : ∀ r ∈ hs, ∃ k, r.2.mUuid = C.uuid k ∧ r.2.mEndPointAddr = C.endpoint k) :
    (impl.receive hs).Connected C := by
  induction hs generalizing impl with
  | nil => exact h
  | cons r hs ih =>
    obtain ⟨k, hUuid, hEndpoint⟩ := hFrom r List.mem_cons_self
    exact ih (h.dispatch hEndpoints r.1 hUuid hEndpoint) fun q hq =>
      hFrom q (List.mem_cons_of_mem _ hq)

theorem receive_frame (impl : NamingTransport) (hs : List (NamingCalls × NamingMsg)) :
    (impl.receive hs).mUuid = impl.mUuid ∧
      (impl.receive hs).mPubEndpoint = impl.mPubEndpoint := by
  induction hs generalizing impl with
  | nil => exact ⟨rfl, rfl⟩
  | cons r hs ih =>
    obtain ⟨hUuid, hEndpoint, -⟩ := dispatchNamingMsg_frame r.1 impl r.2
    exact ⟨(ih _).1.trans hUuid, (ih _).2.trans hEndpoint⟩

end Connected

-- ---------------------------------------------------------------------------
-- Over whole runs
-- ---------------------------------------------------------------------------

section Sent

variable {C : Cluster ι} {s s' : LossyMesh ι NamingMsg}

theorem LossyMesh.Sent.mono {m : NamingMsg} (h : s.Sent C m)
    (hLeft : ∀ j, (s j).left = true → (s' j).left = true) : s'.Sent C m := by
  obtain ⟨k, hUuid, hEndpoint, hKind⟩ := h
  exact ⟨k, hUuid, hEndpoint, hKind.imp_right fun hD => ⟨hD.1, hLeft k hD.2⟩⟩

theorem LossyMesh.Inv.sent_of_sends (hInv : s.Inv C) {m : NamingMsg} (h : s.Sends s' m) :
    s'.Sent C m := by
  obtain ⟨k, command, rfl, hCommand⟩ := h
  refine ⟨k, hInv.uuid k, hInv.endpoint k, ?_⟩
  rcases hCommand with rfl | rfl | ⟨rfl, hLeft⟩
  · exact Or.inl rfl
  · exact Or.inl rfl
  · exact Or.inr ⟨rfl, hLeft⟩

theorem LossyMesh.inv_init : (LossyMesh.init C).Inv C where
  uuid _ := rfl
  endpoint _ := rfl
  inQ _ _ hm := absurd hm List.not_mem_nil
  connected _ k h := absurd (AList.lookup_empty (C.uuid k)) h

/-- Nothing that was handled is a 'D' of a transport that has not left. -/
theorem LossyMesh.Sent.not_disconnects {h : NamingCalls × NamingMsg} {i : ι}
    (hSent : s.Sent C h.2) (hStays : (s i).left = false) : disconnects (C.uuid i) h = false := by
  by_contra hD
  rw [Bool.not_eq_false] at hD
  simp only [disconnects, decide_eq_true_eq] at hD
  obtain ⟨k, hUuid, -, hKind⟩ := hSent
  obtain rfl : k = i := C.uuid_injective (hUuid.symm.trans hD.2)
  rcases hKind with hA | ⟨-, hLeft⟩
  · exact not_disconnect_of_announces hA hD.1
  · exact Bool.false_ne_true (hStays.symm.trans hLeft)

end Sent

section Run

variable [DecidableEq ι] {C : Cluster ι} {s s' : LossyMesh ι NamingMsg} {a : LossyAct ι NamingMsg}
  {as : List (LossyAct ι NamingMsg)}

theorem LossyMesh.Inv.step (hEndpoints : Function.Injective C.endpoint) (hInv : s.Inv C)
    (h : s.Steps a s') : s'.Inv C where
  uuid i := by rw [h.impl, (receive_frame _ _).1]; exact hInv.uuid i
  endpoint i := by rw [h.impl, (receive_frame _ _).2]; exact hInv.endpoint i
  inQ j m hm := by
    rcases h.inQ j m hm with hOld | hNew
    · exact (hInv.inQ j m hOld).mono h.left
    · exact hInv.sent_of_sends hNew
  connected j := by
    rw [h.impl]
    refine NamingTransport.Connected.receive hEndpoints (hInv.connected j) fun r hr => ?_
    obtain ⟨k, hUuid, hEndpoint, -⟩ := hInv.inQ j r.2 (h.handled j r hr)
    exact ⟨k, hUuid, hEndpoint⟩

theorem handledBy_append (j : ι) (as bs : List (LossyAct ι NamingMsg)) :
    handledBy j (as ++ bs) = handledBy j as ++ handledBy j bs :=
  List.filterMap_append

/-- In a run every transport has handled what was sent, and its tables follow from what
it handled. -/
theorem LossyMesh.reachable (hEndpoints : Function.Injective C.endpoint)
    (hRun : run LossyMesh.step (LossyMesh.init C) as = some s) :
    s.Inv C ∧ ∀ j, (s j).impl = (LossyMesh.init C j).impl.receive (handledBy j as) ∧
      ∀ h ∈ handledBy j as, s.Sent C h.2 := by
  refine run_induction (P := fun as s => s.Inv C ∧
    ∀ j, (s j).impl = (LossyMesh.init C j).impl.receive (handledBy j as) ∧
      ∀ h ∈ handledBy j as, s.Sent C h.2) ?_ ?_ hRun
  · exact ⟨LossyMesh.inv_init, fun j => ⟨rfl, fun h hh => absurd hh List.not_mem_nil⟩⟩
  · intro as s a s' _ ih ha
    obtain ⟨hInv, hHist⟩ := ih
    have hSteps := LossyMesh.steps_of_step ha
    refine ⟨hInv.step hEndpoints hSteps, fun j => ⟨?_, fun h hh => ?_⟩⟩
    · rw [hSteps.impl, (hHist j).1, handledBy_append]
      exact (List.foldl_append ..).symm
    · rw [handledBy_append] at hh
      rcases List.mem_append.mp hh with hOld | hNew
      · exact ((hHist j).2 h hOld).mono hSteps.left
      · exact (hInv.inQ j h.2 (hSteps.handled j h hNew)).mono hSteps.left

/--
**The mesh recovers from any loss, and forgets nobody.** Let no two transports have the
same endpoint. In every run, whatever the network loses, copies or reorders, whichever calls
fail and whoever stops without a word: a transport that has sent no 'D' is recorded at
another exactly if the other has, at any time, handled one of its announcements to the end,
and then it is connected as well. So
transports whose beacons have got through to each other once are fully meshed, and the
entry of one that is gone without a 'D' stays.
-/
theorem lossy_mesh_recovers (hEndpoints : Function.Injective C.endpoint)
    (hRun : run LossyMesh.step (LossyMesh.init C) as = some s) {i j : ι}
    (hStays : (s i).left = false) :
    ((s j).impl.mPeers.lookup (C.uuid i) ≠ none ↔
      ∃ h ∈ handledBy j as, completes (C.uuid i) h = true) ∧
    ((∃ h ∈ handledBy j as, completes (C.uuid i) h = true) →
      C.endpoint i ∈ (s j).impl.mZmqDataSub) := by
  obtain ⟨hInv, hHist⟩ := LossyMesh.reachable hEndpoints hRun
  obtain ⟨hImpl, hSent⟩ := hHist j
  have hLookup : (s j).impl.mPeers.lookup (C.uuid i) =
      ((handledBy j as).find? (completes (C.uuid i))).map Prod.snd := by
    rw [hImpl, lookup_receive_of_kept fun h hh => (hSent h hh).not_disconnects hStays]
    exact congrArg (Option.or · _) (AList.lookup_empty (C.uuid i))
  have hIff : (s j).impl.mPeers.lookup (C.uuid i) ≠ none ↔
      ∃ h ∈ handledBy j as, completes (C.uuid i) h = true := by
    rw [hLookup, Ne, Option.map_eq_none_iff, List.find?_eq_none]
    simp
  exact ⟨hIff, fun hHeard => hInv.connected j i (hIff.mpr hHeard)⟩

end Run

/-- The first announcements of both are lost; later one beacons, the other answers, and
the first is gone. -/
def lostThenBeacon : List (LossyAct Bool NamingMsg) :=
  let onlyTo (i : Bool) : Bool → Bool := fun j => j == i
  [.start true, .announce true false true fun _ => false, .start false,
    .announce false false true fun _ => false, .announce true true true (onlyTo false),
    .dispatch false ⟨typeBeacon, pairCluster.uuid true, pairCluster.endpoint true⟩ .allOk
      (onlyTo true),
    .dispatch true (pairCluster.announcement false) .allOk fun _ => false,
    .quit true]

theorem mesh_recovers_lostThenBeacon :
    ∃ s, run LossyMesh.step (LossyMesh.init pairCluster) lostThenBeacon = some s ∧
      (s true).life = .gone ∧
      (s false).impl.mPeers.lookup (pairCluster.uuid true) ≠ none ∧
      pairCluster.endpoint true ∈ (s false).impl.mZmqDataSub ∧
      pairCluster.endpoint false ∈ (s true).impl.mZmqDataSub := by
  have hEndpoints : Function.Injective pairCluster.endpoint := by decide
  have hExists : ∃ s, run LossyMesh.step (LossyMesh.init pairCluster) lostThenBeacon = some s ∧
      (s true).life = .gone ∧ (s true).left = false ∧ (s false).left = false :=
    exists_run (by decide +kernel)
  obtain ⟨s, hRun, hGone, hTrue, hFalse⟩ := hExists
  have hThere : ∃ h ∈ handledBy false lostThenBeacon,
      completes (pairCluster.uuid true) h = true := by decide
  have hBack : ∃ h ∈ handledBy true lostThenBeacon,
      completes (pairCluster.uuid false) h = true := by decide
  obtain ⟨hRecorded, hConnected⟩ := lossy_mesh_recovers hEndpoints hRun (j := false) hTrue
  exact ⟨s, hRun, hGone, hRecorded.mpr hThere, hConnected hThere,
    (lossy_mesh_recovers hEndpoints hRun (j := true) hFalse).2 hBack⟩

end ZmqBridge
