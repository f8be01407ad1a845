import ZmqBridge.Lib.Run
import ZmqBridge.Model.Naming

/-!
# ZmqBridge — recorded peers and connected endpoints

One transport handles the naming messages of its peers. The table is keyed by
uuid and the data socket by endpoint, and a disconnect updates both without
asking the table who owns the endpoint. Several proxies forward the same
message, so a disconnect can be handled again long after its endpoint went to
somebody else.

The peers are an environment that may send what a peer can send (`MaySend`) and
every message sent may be handled any number of times, at any later time.

* `PeersConnected`          — every recorded peer that has not left is connected;
* `peersConnected_iff`      — it holds all along a run exactly when no disconnect
  is handled behind the announcement of a new owner of its endpoint;
* `late_disconnect_cuts_peer` — the run in which one is.
-/

namespace ZmqBridge

open Lib

/-- One transport, what its peers have sent so far, and what it has handled. -/
structure PeerWorld where
  impl : NamingTransport
  sent : List NamingMsg
  handled : List (NamingCalls × NamingMsg)

/-- A transport without peers, before anything is sent. -/
def PeerWorld.init (mUuid mPubEndpoint : List Byte) (mNamingConnectRetries : Int) :
    PeerWorld where
  impl :=
    { mUuid, mPubEndpoint, mNamingConnectRetries
      mPeers := ∅
      mNamingConnected := false
      mIsDispatching := true
      mZmqDataSub := ∅
      mZmqNamingPub := ∅ }
  sent := []
  handled := []

/-- The uuid has sent its 'D'. -/
def PeerWorld.HasLeft (s : PeerWorld) (uuid : List Byte) : Prop :=
  ∃ m ∈ s.sent, m.mType = typeDisconnect ∧ m.mUuid = uuid

instance (s : PeerWorld) (uuid : List Byte) : Decidable (s.HasLeft uuid) :=
  List.decidableBEx _ _

/-- What a peer can send: an announcement or a disconnect, always with the same
endpoint, and never with an endpoint that somebody who has not left is using. -/
structure PeerWorld.MaySend (s : PeerWorld) (m : NamingMsg) : Prop where
  kind : m.announces = true ∨ m.mType = typeDisconnect
  same : ∀ r ∈ s.sent, r.mUuid = m.mUuid → r.mEndPointAddr = m.mEndPointAddr
  free : ∀ r ∈ s.sent, r.mEndPointAddr = m.mEndPointAddr → r.mUuid ≠ m.mUuid →
    s.HasLeft r.mUuid

instance (s : PeerWorld) (m : NamingMsg) : Decidable (s.MaySend m) :=
  decidable_of_iff
    ((m.announces = true ∨ m.mType = typeDisconnect) ∧
      (∀ r ∈ s.sent, r.mUuid = m.mUuid → r.mEndPointAddr = m.mEndPointAddr) ∧
      (∀ r ∈ s.sent, r.mEndPointAddr = m.mEndPointAddr → r.mUuid ≠ m.mUuid →
        s.HasLeft r.mUuid))
    ⟨fun h => ⟨h.1, h.2.1, h.2.2⟩, fun h => ⟨h.kind, h.same, h.free⟩⟩

inductive PeerAct where
  | send (m : NamingMsg)
  | handle (calls : NamingCalls) (m : NamingMsg)

/-- A peer sends, or the transport handles something that was sent. The socket
calls succeed; the reply and the allocation may fail. -/
def PeerWorld.step (s : PeerWorld) : PeerAct → Option PeerWorld
  | .send m => if s.MaySend m then some { s with sent := s.sent ++ [m] } else none
  | .handle calls m =>
    if m ∈ s.sent ∧ calls.connect = true ∧ calls.disconnect = true then
      some { s with
        impl := (TransportImpl.dispatchNamingMsg calls s.impl m).impl
        handled := s.handled ++ [(calls, m)] }
    else none

/-- Every recorded peer that has not left has its endpoint connected. -/
def PeersConnected (s : PeerWorld) : Prop :=
  ∀ uuid m, s.impl.mPeers.lookup uuid = some m → ¬ s.HasLeft uuid →
    m.mEndPointAddr ∈ s.impl.mZmqDataSub

/-- An announcement was handled to the end, so its sender was recorded. -/
def PeerWorld.Recorded (s : PeerWorld) (uuid endpoint : List Byte) : Prop :=
  ∃ r ∈ s.handled, r.2.announces = true ∧ r.1.send = true ∧ r.1.malloc = true ∧
    r.2.mUuid = uuid ∧ r.2.mEndPointAddr = endpoint

/-- A disconnect is not handled once another uuid that has not left has
announced itself with the same endpoint. -/
def NoLateDisconnect (s : PeerWorld) : PeerAct → Prop
  | .send _ => True
  | .handle _ m => m.mType = typeDisconnect → ∀ uuid, uuid ≠ m.mUuid →
      s.Recorded uuid m.mEndPointAddr → s.HasLeft uuid

-- ---------------------------------------------------------------------------
-- What a step can do
-- ---------------------------------------------------------------------------

theorem peerStep_send {s s' : PeerWorld} {m : NamingMsg}
    (h : s.step (.send m) = some s') :
    s.MaySend m ∧ s' = { s with sent := s.sent ++ [m] } := by
  rw [PeerWorld.step] at h
  split at h
  · rename_i hMay
    exact ⟨hMay, (Option.some.inj h).symm⟩
  · cases h

theorem peerStep_handle {s s' : PeerWorld} {calls : NamingCalls} {m : NamingMsg}
    (h : s.step (.handle calls m) = some s') :
    m ∈ s.sent ∧ calls.connect = true ∧ calls.disconnect = true ∧
      s' = { s with
        impl := (TransportImpl.dispatchNamingMsg calls s.impl m).impl
        handled := s.handled ++ [(calls, m)] } := by
  rw [PeerWorld.step] at h
  split at h
  · rename_i hGuard
    exact ⟨hGuard.1, hGuard.2.1, hGuard.2.2, (Option.some.inj h).symm⟩
  · cases h

theorem PeerWorld.HasLeft.snoc {s : PeerWorld} {uuid : List Byte} {m : NamingMsg}
    (h : s.HasLeft uuid) : PeerWorld.HasLeft { s with sent := s.sent ++ [m] } uuid := by
  obtain ⟨r, hr, hD⟩ := h
  exact ⟨r, List.mem_append_left _ hr, hD⟩

-- ---------------------------------------------------------------------------
-- The invariant
-- ---------------------------------------------------------------------------

/-- What holds in every reachable state, late disconnects or not. -/
structure PeerInv (s : PeerWorld) : Prop where
  kind : ∀ m ∈ s.sent, m.announces = true ∨ m.mType = typeDisconnect
  same : ∀ m ∈ s.sent, ∀ r ∈ s.sent, m.mUuid = r.mUuid →
    m.mEndPointAddr = r.mEndPointAddr
  handled : ∀ r ∈ s.handled, r.2 ∈ s.sent
  recorded : ∀ uuid m, s.impl.mPeers.lookup uuid = some m →
    s.Recorded uuid m.mEndPointAddr
  kept : ∀ uuid endpoint, s.Recorded uuid endpoint → ¬ s.HasLeft uuid →
    ∃ m, s.impl.mPeers.lookup uuid = some m ∧ m.mEndPointAddr = endpoint

theorem PeerWorld.init_inv (mUuid mPubEndpoint : List Byte) (mNamingConnectRetries : Int) :
    PeerInv (PeerWorld.init mUuid mPubEndpoint mNamingConnectRetries) where
  kind m hm := absurd hm List.not_mem_nil
  same m hm := absurd hm List.not_mem_nil
  handled r hr := absurd hr List.not_mem_nil
  recorded uuid m h := by simp [PeerWorld.init] at h
  kept := by
    rintro uuid endpoint ⟨r, hr, -⟩
    exact absurd hr List.not_mem_nil

section Step

variable {s : PeerWorld} {calls : NamingCalls} {m : NamingMsg}

/-- More sends only add to what was sent and to who has left. -/
theorem PeerInv.send (hInv : PeerInv s) (hMay : s.MaySend m) :
    PeerInv { s with sent := s.sent ++ [m] } where
  kind r hr := by
    rcases List.mem_append.mp hr with hr | hr
    · exact hInv.kind r hr
    · exact List.mem_singleton.mp hr ▸ hMay.kind
  same r hr q hq hEq := by
    rcases List.mem_append.mp hr with hr | hr <;> rcases List.mem_append.mp hq with hq | hq
    · exact hInv.same r hr q hq hEq
    · rw [List.mem_singleton.mp hq] at hEq ⊢
      exact hMay.same r hr hEq
    · rw [List.mem_singleton.mp hr] at hEq ⊢
      exact (hMay.same q hq hEq.symm).symm
    · rw [List.mem_singleton.mp hr, List.mem_singleton.mp hq]
  handled r hr := List.mem_append_left _ (hInv.handled r hr)
  recorded := hInv.recorded
  kept uuid endpoint hRec hStay := hInv.kept uuid endpoint hRec fun hLeft => hStay hLeft.snoc

/-- The state after handling `m`. -/
def PeerWorld.afterHandle (s : PeerWorld) (calls : NamingCalls) (m : NamingMsg) : PeerWorld :=
  { s with
    impl := (TransportImpl.dispatchNamingMsg calls s.impl m).impl
    handled := s.handled ++ [(calls, m)] }

theorem PeerWorld.Recorded.mono {uuid endpoint : List Byte} (h : s.Recorded uuid endpoint) :
    (s.afterHandle calls m).Recorded uuid endpoint := by
  obtain ⟨r, hr, hRest⟩ := h
  exact ⟨r, List.mem_append_left _ hr, hRest⟩

/-- What is recorded after `m` was recorded before, or is what `m` announces. -/
theorem PeerWorld.Recorded.of_after {uuid endpoint : List Byte}
    (h : (s.afterHandle calls m).Recorded uuid endpoint) :
    s.Recorded uuid endpoint ∨
      (m.announces = true ∧ calls.send = true ∧ calls.malloc = true ∧
        m.mUuid = uuid ∧ m.mEndPointAddr = endpoint) := by
  obtain ⟨r, hr, hRest⟩ := h
  rcases List.mem_append.mp hr with hr | hr
  · exact Or.inl ⟨r, hr, hRest⟩
  · rw [List.mem_singleton.mp hr] at hRest
    exact Or.inr hRest

/-- A recorded peer stays recorded when an announcement is handled. -/
theorem lookup_after_announce (hA : m.announces = true) (hConnect : calls.connect = true)
    {uuid : List Byte} {r : NamingMsg} (hL : s.impl.mPeers.lookup uuid = some r) :
    (s.afterHandle calls m).impl.mPeers.lookup uuid = some r := by
  show (TransportImpl.dispatchNamingMsg calls s.impl m).impl.mPeers.lookup uuid = some r
  rw [dispatchNamingMsg_mPeers hA hConnect]
  split
  · rename_i hNew
    have hne : uuid ≠ m.mUuid := by
      rintro rfl
      rw [hNew.1] at hL
      cases hL
    rw [AList.lookup_insert_ne hne, hL]
  · exact hL

/-- A peer recorded after an announcement was recorded before or is the one
announced. -/
theorem lookup_of_after_announce (hA : m.announces = true) (hConnect : calls.connect = true)
    {uuid : List Byte} {r : NamingMsg}
    (hL : (s.afterHandle calls m).impl.mPeers.lookup uuid = some r) :
    s.impl.mPeers.lookup uuid = some r ∨
      (r = m ∧ m.mUuid = uuid ∧ s.impl.mPeers.lookup uuid = none ∧ calls.send = true ∧
        calls.malloc = true) := by
  have hL' : (TransportImpl.dispatchNamingMsg calls s.impl m).impl.mPeers.lookup uuid =
    some r := hL
  rw [dispatchNamingMsg_mPeers hA hConnect] at hL'
  split at hL'
  · rename_i hNew
    by_cases hu : uuid = m.mUuid
    · subst hu
      rw [AList.lookup_insert] at hL'
      exact Or.inr ⟨(Option.some.inj hL').symm, rfl, hNew⟩
    · rw [AList.lookup_insert_ne hu] at hL'
      exact Or.inl hL'
  · exact Or.inl hL'

theorem PeerInv.handleAnnounce (hInv : PeerInv s) (hSent : m ∈ s.sent)
    (hA : m.announces = true) (hConnect : calls.connect = true) :
    PeerInv (s.afterHandle calls m) where
  kind := hInv.kind
  same := hInv.same
  handled r hr := by
    rcases List.mem_append.mp hr with hr | hr
    · exact hInv.handled r hr
    · exact List.mem_singleton.mp hr ▸ hSent
  recorded uuid r hL := by
    rcases lookup_of_after_announce hA hConnect hL with hL | ⟨rfl, hu, -, hSend, hMalloc⟩
    · exact (hInv.recorded uuid r hL).mono
    · exact ⟨(calls, r), by simp [PeerWorld.afterHandle], hA, hSend, hMalloc, hu, rfl⟩
  kept uuid endpoint hRec hStay := by
    rcases hRec.of_after with hRec | ⟨-, hSend, hMalloc, hu, he⟩
    · obtain ⟨r, hL, he⟩ := hInv.kept uuid endpoint hRec hStay
      exact ⟨r, lookup_after_announce hA hConnect hL, he⟩
    · subst hu he
      cases hL : s.impl.mPeers.lookup m.mUuid with
      | some r =>
        -- recorded from an earlier announcement: the endpoint is the same one
        obtain ⟨q, hq, -, -, -, hqu, hqe⟩ := hInv.recorded m.mUuid r hL
        refine ⟨r, lookup_after_announce hA hConnect hL, ?_⟩
        rw [← hqe]
        exact hInv.same q.2 (hInv.handled q hq) m hSent hqu
      | none =>
        refine ⟨m, ?_, rfl⟩
        show (TransportImpl.dispatchNamingMsg calls s.impl m).impl.mPeers.lookup _ = _
        rw [dispatchNamingMsg_mPeers hA hConnect, if_pos ⟨hL, hSend, hMalloc⟩,
          AList.lookup_insert]

theorem afterHandle_disconnect (hD : m.mType = typeDisconnect)
    (hDisconnect : calls.disconnect = true) :
    (s.afterHandle calls m).impl.mPeers = s.impl.mPeers.erase m.mUuid ∧
    (s.afterHandle calls m).impl.mZmqDataSub = s.impl.mZmqDataSub.erase m.mEndPointAddr := by
  unfold PeerWorld.afterHandle
  rw [dispatchNamingMsg_disconnect hD hDisconnect]
  exact ⟨rfl, rfl⟩

theorem PeerInv.handleDisconnect (hInv : PeerInv s) (hSent : m ∈ s.sent)
    (hD : m.mType = typeDisconnect) (hDisconnect : calls.disconnect = true) :
    PeerInv (s.afterHandle calls m) where
  kind := hInv.kind
  same := hInv.same
  handled r hr := by
    rcases List.mem_append.mp hr with hr | hr
    · exact hInv.handled r hr
    · exact List.mem_singleton.mp hr ▸ hSent
  recorded uuid r hL := by
    rw [(afterHandle_disconnect hD hDisconnect).1] at hL
    have hne : uuid ≠ m.mUuid := by
      rintro rfl
      simp at hL
    rw [AList.lookup_erase_ne hne] at hL
    exact (hInv.recorded uuid r hL).mono
  kept uuid endpoint hRec hStay := by
    rcases hRec.of_after with hRec | ⟨hA, -⟩
    · obtain ⟨r, hL, he⟩ := hInv.kept uuid endpoint hRec hStay
      have hne : uuid ≠ m.mUuid := by
        rintro rfl
        exact hStay ⟨m, hSent, hD, rfl⟩
      refine ⟨r, ?_, he⟩
      rw [(afterHandle_disconnect hD hDisconnect).1, AList.lookup_erase_ne hne, hL]
    · rw [announces_of_disconnect hD] at hA
      cases hA

end Step

theorem PeerInv.step {s s' : PeerWorld} {a : PeerAct} (hInv : PeerInv s)
    (h : s.step a = some s') : PeerInv s' := by
  cases a with
  | send m =>
    obtain ⟨hMay, rfl⟩ := peerStep_send h
    exact hInv.send hMay
  | handle calls m =>
    obtain ⟨hSent, hConnect, hDisconnect, rfl⟩ := peerStep_handle h
    rcases hInv.kind m hSent with hA | hD
    · exact hInv.handleAnnounce hSent hA hConnect
    · exact hInv.handleDisconnect hSent hD hDisconnect

-- ---------------------------------------------------------------------------
-- Peers stay connected
-- ---------------------------------------------------------------------------

/-- A step that meets the condition keeps every live peer connected. -/
theorem PeersConnected.step {s s' : PeerWorld} {a : PeerAct} (hInv : PeerInv s)
    (hPeers : PeersConnected s) (hOk : NoLateDisconnect s a) (h : s.step a = some s') :
    PeersConnected s' := by
  cases a with
  | send m =>
    obtain ⟨-, rfl⟩ := peerStep_send h
    exact fun uuid r hL hStay => hPeers uuid r hL fun hLeft => hStay hLeft.snoc
  | handle calls m =>
    obtain ⟨hSent, hConnect, hDisconnect, rfl⟩ := peerStep_handle h
    intro uuid r hL hStay
    rcases hInv.kind m hSent with hA | hD
    · show r.mEndPointAddr ∈ (TransportImpl.dispatchNamingMsg calls s.impl m).impl.mZmqDataSub
      rw [dispatchNamingMsg_mZmqDataSub hA hConnect]
      rcases lookup_of_after_announce hA hConnect hL with hL | ⟨rfl, hu, hNew, -, -⟩
      · have hMem := hPeers uuid r hL hStay
        split
        · exact Finset.mem_insert_of_mem hMem
        · exact hMem
      · rw [if_pos (hu ▸ hNew)]
        exact Finset.mem_insert_self _ _
    · have hAfter := afterHandle_disconnect (s := s) hD hDisconnect
      change (s.afterHandle calls m).impl.mPeers.lookup uuid = some r at hL
      show r.mEndPointAddr ∈ (s.afterHandle calls m).impl.mZmqDataSub
      rw [hAfter.1] at hL
      rw [hAfter.2]
      have hne : uuid ≠ m.mUuid := by
        rintro rfl
        simp at hL
      rw [AList.lookup_erase_ne hne] at hL
      refine Finset.mem_erase.mpr ⟨fun hEq => ?_, hPeers uuid r hL hStay⟩
      exact hStay (hOk hD uuid hne (hEq ▸ hInv.recorded uuid r hL))

/-- A late disconnect cuts off the new owner of the endpoint. -/
theorem noLateDisconnect_of_peersConnected {s s' : PeerWorld} {a : PeerAct}
    (hInv : PeerInv s) (h : s.step a = some s') (hPeers : PeersConnected s') :
    NoLateDisconnect s a := by
  cases a with
  | send m => trivial
  | handle calls m =>
    obtain ⟨-, -, hDisconnect, rfl⟩ := peerStep_handle h
    intro hD uuid hne hRec
    by_contra hStay
    obtain ⟨r, hL, he⟩ := hInv.kept uuid m.mEndPointAddr hRec hStay
    have hAfter := afterHandle_disconnect (s := s) hD hDisconnect
    have hL' : (s.afterHandle calls m).impl.mPeers.lookup uuid = some r := by
      rw [hAfter.1, AList.lookup_erase_ne hne, hL]
    have hMem : r.mEndPointAddr ∈ (s.afterHandle calls m).impl.mZmqDataSub :=
      hPeers uuid r hL' hStay
    rw [hAfter.2, he] at hMem
    exact Finset.notMem_erase _ _ hMem

/--
**Peers stay connected exactly without late disconnects.** In a run of sends
and (possibly repeated, possibly late) handlings, every recorded peer that has
not left has its endpoint connected in every state, if and only if no
disconnect is handled after another uuid that has not left announced itself
with that endpoint.
-/
theorem peersConnected_iff {mUuid mPubEndpoint : List Byte} {retries : Int}
    {as : List PeerAct} {s : PeerWorld}
    (hRun : run PeerWorld.step (PeerWorld.init mUuid mPubEndpoint retries) as = some s) :
    Along PeerWorld.step PeersConnected (PeerWorld.init mUuid mPubEndpoint retries) as ↔
      StepsMeet PeerWorld.step NoLateDisconnect
        (PeerWorld.init mUuid mPubEndpoint retries) as := by
  refine along_iff_stepsMeet (J := fun s => PeerInv s ∧ PeersConnected s) ?_ ?_ ?_ ?_ hRun
  · refine ⟨PeerWorld.init_inv mUuid mPubEndpoint retries, fun uuid m hL => ?_⟩
    simp [PeerWorld.init] at hL
  · exact fun s hJ => hJ.2
  · exact fun s a s' hJ hOk h => ⟨hJ.1.step h, hJ.2.step hJ.1 hOk h⟩
  · exact fun s a s' hJ h hPeers => noLateDisconnect_of_peersConnected hJ.1 h hPeers

/-- A peer `1` that leaves, and a peer `2` that gets the endpoint `7` of the
first. The last disconnect is the copy of a second proxy. -/
def lateDisconnectRun : List PeerAct :=
  let connect1 : NamingMsg := ⟨typeConnect, [1], [7]⟩
  let disconnect1 : NamingMsg := ⟨typeDisconnect, [1], [7]⟩
  let connect2 : NamingMsg := ⟨typeConnect, [2], [7]⟩
  [.send connect1, .handle .allOk connect1, .send disconnect1, .handle .allOk disconnect1,
    .send connect2, .handle .allOk connect2, .handle .allOk disconnect1]

theorem peersConnected_iff_without_copy :
    ∃ s, run PeerWorld.step (PeerWorld.init [9] [8] 3) (lateDisconnectRun.take 6) = some s ∧
      (Along PeerWorld.step PeersConnected (PeerWorld.init [9] [8] 3)
          (lateDisconnectRun.take 6) ↔
        StepsMeet PeerWorld.step NoLateDisconnect (PeerWorld.init [9] [8] 3)
          (lateDisconnectRun.take 6)) :=
  ⟨_, rfl, peersConnected_iff rfl⟩

/-- After the last message peer `2` is recorded and has not left, and its
endpoint is not connected. -/
theorem late_disconnect_cuts_peer :
    ∃ s, run PeerWorld.step (PeerWorld.init [9] [8] 3) lateDisconnectRun = some s ∧
      s.impl.mPeers.lookup [2] = some ⟨typeConnect, [2], [7]⟩ ∧ ¬ s.HasLeft [2] ∧
      [7] ∉ s.impl.mZmqDataSub ∧ ¬ PeersConnected s := by
  have hCut : ∃ s, run PeerWorld.step (PeerWorld.init [9] [8] 3) lateDisconnectRun = some s ∧
      s.impl.mPeers.lookup [2] = some ⟨typeConnect, [2], [7]⟩ ∧ ¬ s.HasLeft [2] ∧
      [7] ∉ s.impl.mZmqDataSub := ⟨_, rfl, by decide, by decide, by decide⟩
  obtain ⟨s, hRun, hL, hStay, hCut⟩ := hCut
  exact ⟨s, hRun, hL, hStay, hCut, fun hPeers => hCut (hPeers _ _ hL hStay)⟩

end ZmqBridge
