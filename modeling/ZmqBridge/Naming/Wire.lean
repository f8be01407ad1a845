import ZmqBridge.Lib.Refine
import ZmqBridge.Naming.Recovery
import ZmqBridge.Receive.Paths

/-!
# ZmqBridge — naming messages on the wire

`zmqBridgeMamaTransportImpl_sendEndpointsMsg` fills in a `zmqNamingMsg` and sends the
struct as it lies in memory; the handler overlays the struct on the bytes it gets.
The mesh of `Naming.Recovery` has messages of three fields instead. Here the bytes
are put back: a mesh in which every message is what `strcpy` and its like leave in
the struct, and every read and write is checked, does the same.

* `endpoints_msg_exact`  — the struct is filled in without a write outside exactly when
  uuid and endpoint fit, and then every receiver does what it does with the fields;
* `wire_mesh_refines`    — every run of the mesh on bytes is a run of the mesh on
  fields, without an invalid access.
-/

namespace ZmqBridge

open Lib

-- ---------------------------------------------------------------------------
-- The struct
-- ---------------------------------------------------------------------------

/-- `zmqNamingMsg`; `mPid` is the bytes of a `long`. -/
structure ZmqNamingMsg (p : Platform) where
  mTopic : CharArray (maxSubjectLength + 1)
  mType : Byte
  mProgName : CharArray (256 + 1)
  mHost : CharArray (p.maxHostNameLen + 1)
  mPid : CharArray p.sizeofLong
  mUuid : CharArray (uuidStringSize + 1)
  mEndPointAddr : CharArray (zmqMaxEndpointLength + 1)

/-- `memset(&msg, '\0', sizeof(msg))`. -/
def ZmqNamingMsg.zero (p : Platform) : ZmqNamingMsg p where
  mTopic := .zero _
  mType := 0
  mProgName := .zero _
  mHost := .zero _
  mPid := .zero _
  mUuid := .zero _
  mEndPointAddr := .zero _

/-- The packed struct in memory. -/
def ZmqNamingMsg.bytes {p : Platform} (msg : ZmqNamingMsg p) : List Byte :=
  msg.mTopic.bytes ++ msg.mType :: (msg.mProgName.bytes ++ (msg.mHost.bytes ++
    (msg.mPid.bytes ++ (msg.mUuid.bytes ++ msg.mEndPointAddr.bytes))))

/-- `ZMQ_NAMING_PREFIX`: "_NAMING". -/
def zmqNamingPrefix : List Byte := [0x5F, 0x4E, 0x41, 0x4D, 0x49, 0x4E, 0x47]

/-- What the process tells about itself: `program_invocation_short_name`, what
`gethostname` leaves in the array, which need not be terminated, and `getpid`. -/
structure ProcessInfo (p : Platform) where
  progName : List Byte
  mHost : CharArray (p.maxHostNameLen + 1)
  mPid : CharArray p.sizeofLong

/-- `zmqBridgeMamaTransportImpl_sendEndpointsMsg` up to the send: command, uuid and
endpoint are those of `m`. -/
def NamingMsg.zmsg (p : Platform) (info : ProcessInfo p) (m : NamingMsg) :
    Except Fault (ZmqNamingMsg p) := do
  let msg := ZmqNamingMsg.zero p
  let mTopic ← strcpy msg.mTopic (zmqNamingPrefix ++ [0]) 0
  let msg := { msg with
    mTopic
    mType := m.mType
    mProgName := (strSizeCpy msg.mProgName info.progName).1
    mHost := info.mHost
    mPid := info.mPid }
  let mUuid ← strcpy msg.mUuid (m.mUuid ++ [0]) 0
  let mEndPointAddr ← strcpy msg.mEndPointAddr (m.mEndPointAddr ++ [0]) 0
  pure { msg with mUuid, mEndPointAddr }

/-- `zmqBridgeMamaTransportImpl_sendEndpointsMsg` on bytes: what goes out on
`mZmqNamingPub`. -/
def TransportImpl.sendEndpointsZmsg (p : Platform) (info : ProcessInfo p)
    (impl : NamingTransport) (command : Byte) (ok : Bool) :
    Except Fault (List (List Byte) × MamaStatus) := do
  let msg ← (impl.endpointsMsg command).zmsg p info
  if ok then pure ([msg.bytes], .ok) else pure ([], .platform)

-- ---------------------------------------------------------------------------
-- Out and back
-- ---------------------------------------------------------------------------

/-- A string for an array of `n + 1` bytes. -/
structure FitsIn (s : List Byte) (n : Nat) : Prop where
  nulFree : NulFree s
  length_le : s.length ≤ n

/-- The strings of a message fit into the struct. -/
structure NamingMsg.Fits (m : NamingMsg) : Prop where
  uuid : FitsIn m.mUuid uuidStringSize
  endpoint : FitsIn m.mEndPointAddr zmqMaxEndpointLength

/-- `strcpy(a, s)` for a string of the program's own. -/
theorem strcpy_string {n : Nat} {d : CharArray (n + 1)} {s : List Byte} (h : FitsIn s n) :
    ∃ a, strcpy d (s ++ [0]) 0 = .ok a ∧ a.Holds s := by
  have h' := strcpy_at (d := d) (p := []) (r := []) h.nulFree
    (Nat.lt_succ_of_le h.length_le)
  exact h'

section Layout

variable {p : Platform}

theorem Platform.uuidOffset_eq (p : Platform) :
    p.uuidOffset =
      maxSubjectLength + 1 + 1 + (256 + 1) + (p.maxHostNameLen + 1) + p.sizeofLong := rfl

theorem ZmqNamingMsg.length_bytes (msg : ZmqNamingMsg p) :
    msg.bytes.length = p.sizeofNamingMsg := by
  simp only [ZmqNamingMsg.bytes, List.length_append, List.length_cons, CharArray.size_eq,
    Platform.sizeofNamingMsg, Platform.endPointAddrOffset, Platform.uuidOffset_eq]
  omega

theorem ZmqNamingMsg.type_bytes (msg : ZmqNamingMsg p) :
    msg.bytes[namingTypeOffset]? = some msg.mType := by
  have hLen : msg.mTopic.bytes.length = namingTypeOffset := msg.mTopic.size_eq
  rw [ZmqNamingMsg.bytes, ← hLen]
  simp

theorem ZmqNamingMsg.drop_uuid (msg : ZmqNamingMsg p) :
    msg.bytes.drop p.uuidOffset = msg.mUuid.bytes ++ msg.mEndPointAddr.bytes := by
  have hSplit : msg.bytes = (msg.mTopic.bytes ++ msg.mType :: (msg.mProgName.bytes ++
      (msg.mHost.bytes ++ msg.mPid.bytes))) ++
      (msg.mUuid.bytes ++ msg.mEndPointAddr.bytes) := by
    simp [ZmqNamingMsg.bytes]
  rw [hSplit]
  refine List.drop_left' ?_
  simp only [List.length_append, List.length_cons, CharArray.size_eq, Platform.uuidOffset_eq]
  omega

theorem ZmqNamingMsg.drop_endPointAddr (msg : ZmqNamingMsg p) :
    msg.bytes.drop p.endPointAddrOffset = msg.mEndPointAddr.bytes := by
  rw [Platform.endPointAddrOffset, ← List.drop_drop, msg.drop_uuid]
  exact List.drop_left' msg.mUuid.size_eq

/-- A message in which the two strings the handler uses are terminated is read back as
it was filled in. -/
theorem ZmqNamingMsg.namingMsg_bytes {msg : ZmqNamingMsg p} {m : NamingMsg}
    (hType : msg.mType = m.mType) (hUuid : msg.mUuid.Holds m.mUuid)
    (hEndpoint : msg.mEndPointAddr.Holds m.mEndPointAddr) : p.namingMsg msg.bytes = m := by
  obtain ⟨hFree, rest, hRest⟩ := hUuid
  rw [Platform.namingMsg, msg.type_bytes, msg.drop_uuid, msg.drop_endPointAddr, hRest,
    List.append_assoc, List.cons_append, cstr_append hFree]
  have hAddr : cstr msg.mEndPointAddr.bytes = m.mEndPointAddr := hEndpoint.cstr_eq
  rw [hAddr, Option.getD_some, hType]

/-- Bytes as large as the struct, with a terminator in the last field. -/
structure Platform.WellFormed (p : Platform) (zmsg : List Byte) : Prop where
  size : zmsg.length = p.sizeofNamingMsg
  terminated : (0 : Byte) ∈ zmsg.drop p.endPointAddrOffset

theorem Platform.WellFormed.uuid {zmsg : List Byte} (h : p.WellFormed zmsg) :
    (0 : Byte) ∈ zmsg.drop p.uuidOffset := by
  have hTerminated := h.terminated
  rw [Platform.endPointAddrOffset, ← List.drop_drop] at hTerminated
  exact List.mem_of_mem_drop hTerminated

/-- Such bytes are handled like their fields, by every transport. -/
theorem Platform.WellFormed.dispatch {zmsg : List Byte} (h : p.WellFormed zmsg)
    (calls : NamingCalls) (impl : NamingTransport) :
    TransportImpl.dispatchNamingZmsg p calls impl zmsg =
      .ok (TransportImpl.dispatchNamingMsg calls impl (p.namingMsg zmsg)) := by
  refine dispatchNamingZmsg_eq
    ⟨?_, fun _ => h.terminated, fun _ => h.uuid, fun _ => h.terminated, ?_⟩
  · rw [h.size, Platform.sizeofNamingMsg, Platform.endPointAddrOffset]
    omega
  · intro _ _ _ _ _
    rw [List.take_of_length_le (Nat.le_of_eq h.size)]
    exact ⟨Nat.le_of_eq h.size.symm, h.uuid⟩

end Layout

section Build

variable {p : Platform} {info : ProcessInfo p} {m : NamingMsg}

theorem fitsIn_zmqNamingPrefix : FitsIn zmqNamingPrefix maxSubjectLength :=
  ⟨by decide, by decide⟩

/-- Filling in the struct, when everything fits. -/
theorem NamingMsg.Fits.zmsg (h : m.Fits) (info : ProcessInfo p) :
    ∃ msg : ZmqNamingMsg p, m.zmsg p info = .ok msg ∧ msg.mTopic.Holds zmqNamingPrefix ∧
      p.WellFormed msg.bytes ∧ p.namingMsg msg.bytes = m := by
  obtain ⟨mTopic, hTopic, hTopicHolds⟩ := strcpy_string (d := .zero _) fitsIn_zmqNamingPrefix
  obtain ⟨mUuid, hUuid, hUuidHolds⟩ := strcpy_string (d := .zero _) h.uuid
  obtain ⟨mAddr, hAddr, hAddrHolds⟩ := strcpy_string (d := .zero _) h.endpoint
  refine ⟨{ mTopic, mType := m.mType
            mProgName := (strSizeCpy (.zero _) info.progName).1
            mHost := info.mHost, mPid := info.mPid
            mUuid, mEndPointAddr := mAddr }, ?_, hTopicHolds, ?_, ?_⟩
  · simp only [NamingMsg.zmsg, ZmqNamingMsg.zero, hTopic, hUuid, hAddr, bind, Except.bind,
      pure, Except.pure]
  · refine ⟨ZmqNamingMsg.length_bytes _, ?_⟩
    obtain ⟨-, rest, hRest⟩ := hAddrHolds
    rw [ZmqNamingMsg.drop_endPointAddr, hRest]
    simp
  · exact ZmqNamingMsg.namingMsg_bytes rfl hUuidHolds hAddrHolds

/-- The strings of a transport fit into its messages. -/
abbrev NamingTransport.Fits (impl : NamingTransport) : Prop :=
  (impl.endpointsMsg typeConnect).Fits

theorem NamingTransport.Fits.endpointsMsg {impl : NamingTransport} (h : impl.Fits)
    (command : Byte) : (impl.endpointsMsg command).Fits := ⟨h.uuid, h.endpoint⟩

/-- The send on bytes is the send of the fields. -/
theorem NamingTransport.Fits.send {impl : NamingTransport} (h : impl.Fits)
    (info : ProcessInfo p) (command : Byte) (ok : Bool) :
    ∃ sent, TransportImpl.sendEndpointsZmsg p info impl command ok =
        .ok (sent, (TransportImpl.sendEndpointsMsg impl command ok).2) ∧
      sent.map p.namingMsg = (TransportImpl.sendEndpointsMsg impl command ok).1 ∧
      ∀ zmsg ∈ sent, p.WellFormed zmsg ∧ zmqNamingPrefix <+: zmsg := by
  obtain ⟨msg, hMsg, hTopic, hWell, hBack⟩ := (h.endpointsMsg command).zmsg info
  have hSend : TransportImpl.sendEndpointsZmsg p info impl command ok =
      if ok then .ok ([msg.bytes], .ok) else .ok ([], .platform) := by
    rw [TransportImpl.sendEndpointsZmsg, hMsg]
    rfl
  have hPrefix : zmqNamingPrefix <+: msg.bytes := by
    obtain ⟨-, rest, hRest⟩ := hTopic
    rw [ZmqNamingMsg.bytes, hRest, List.append_assoc]
    exact List.prefix_append _ _
  unfold TransportImpl.sendEndpointsMsg
  cases ok with
  | true =>
    refine ⟨[msg.bytes], hSend, by simpa using hBack, fun zmsg hz => ?_⟩
    rw [List.mem_singleton.mp hz]
    exact ⟨hWell, hPrefix⟩
  | false => exact ⟨[], hSend, rfl, fun _ hz => absurd hz List.not_mem_nil⟩

end Build

variable {ι : Type*}

/-- The mesh with bytes on the way. `faulted` records an invalid access. -/
structure WireMesh (ι : Type*) where
  nodes : LossyMesh ι (List Byte)
  faulted : Bool

def WireMesh.init (C : Cluster ι) : WireMesh ι where
  nodes i := { LossyMesh.init C i with inQ := [] }
  faulted := false

/-- The replies a handler makes, as bytes. -/
def zmsgs (p : Platform) (info : ProcessInfo p) : List NamingMsg → Except Fault (List (List Byte))
  | [] => .ok []
  | m :: ms => do
    let msg ← m.zmsg p info
    let zs ← zmsgs p info ms
    pure (msg.bytes :: zs)

/-- One step, as in `LossyMesh.step`. -/
def WireMesh.step [DecidableEq ι] (p : Platform) (info : ι → ProcessInfo p) (w : WireMesh ι) :
    LossyAct ι (List Byte) → Option (WireMesh ι)
  | .start i =>
    if (w.nodes i).life = .unborn then
      some { w with nodes := Function.update w.nodes i { w.nodes i with life := .up } }
    else none
  | .announce i beacon ok reaches =>
    if (w.nodes i).life = .up then
      match TransportImpl.sendEndpointsZmsg p (info i) (w.nodes i).impl
        (if beacon then typeBeacon else typeConnect) ok with
      | .error _ => some { w with faulted := true }
      | .ok (sent, _) => some { w with nodes := w.nodes.cast sent reaches }
    else none
  | .dispatch i zmsg calls reaches =>
    if (w.nodes i).life = .up ∧ zmsg ∈ (w.nodes i).inQ then
      match TransportImpl.dispatchNamingZmsg p calls (w.nodes i).impl zmsg with
      | .error _ => some { w with faulted := true }
      | .ok out =>
        match zmsgs p (info i) out.sent with
        | .error _ => some { w with faulted := true }
        | .ok sent =>
          some { w with
            nodes := LossyMesh.cast
              (Function.update w.nodes i
                { w.nodes i with impl := out.impl, inQ := (w.nodes i).inQ.erase zmsg })
              sent reaches }
    else none
  | .leave i ok reaches =>
    if (w.nodes i).life = .up then
      match TransportImpl.sendEndpointsZmsg p (info i) (w.nodes i).impl typeDisconnect ok with
      | .error _ => some { w with faulted := true }
      | .ok (sent, _) =>
        some { w with
          nodes := LossyMesh.cast
            (Function.update w.nodes i { w.nodes i with left := true }) sent reaches }
    else none
  | .quit i =>
    if (w.nodes i).life = .up then
      some { w with nodes := Function.update w.nodes i { w.nodes i with life := .gone } }
    else none
  | .lose i zmsg =>
    if zmsg ∈ (w.nodes i).inQ then
      some { w with
        nodes := Function.update w.nodes i
          { w.nodes i with inQ := (w.nodes i).inQ.erase zmsg } }
    else none
  | .copy i zmsg =>
    if zmsg ∈ (w.nodes i).inQ then
      some { w with
        nodes := Function.update w.nodes i
          { w.nodes i with inQ := (w.nodes i).inQ ++ [zmsg] } }
    else none

/-- The action on fields. -/
def LossyAct.fields (p : Platform) : LossyAct ι (List Byte) → LossyAct ι NamingMsg
  | .start i => .start i
  | .announce i beacon ok reaches => .announce i beacon ok reaches
  | .dispatch i zmsg calls reaches => .dispatch i (p.namingMsg zmsg) calls reaches
  | .leave i ok reaches => .leave i ok reaches
  | .quit i => .quit i
  | .lose i zmsg => .lose i (p.namingMsg zmsg)
  | .copy i zmsg => .copy i (p.namingMsg zmsg)

/-- A node on bytes stands for a node on fields. What is on the way may be in another
order, since different bytes may have the same fields. -/
structure WireNode (p : Platform) (n : LossyNode (List Byte)) (m : LossyNode NamingMsg) :
    Prop where
  impl : n.impl = m.impl
  life : n.life = m.life
  left : n.left = m.left
  inQ : (n.inQ.map p.namingMsg).Perm m.inQ
  wellFormed : ∀ zmsg ∈ n.inQ, p.WellFormed zmsg
  fits : m.impl.Fits

structure WireMesh.Stands (p : Platform) (w : WireMesh ι) (s : LossyMesh ι NamingMsg) :
    Prop where
  faulted : w.faulted = false
  nodes : ∀ i, WireNode p (w.nodes i) (s i)

section Refine

variable {p : Platform} {n : LossyNode (List Byte)} {m : LossyNode NamingMsg}
  {zmsg : List Byte}

theorem WireNode.mem (h : WireNode p n m) (hz : zmsg ∈ n.inQ) : p.namingMsg zmsg ∈ m.inQ :=
  h.inQ.mem_iff.mp (List.mem_map_of_mem hz)

/-- One message is taken off. -/
theorem WireNode.erase (h : WireNode p n m) (hz : zmsg ∈ n.inQ) :
    ((n.inQ.erase zmsg).map p.namingMsg).Perm (m.inQ.erase (p.namingMsg zmsg)) := by
  have hTaken : m.inQ.Perm (p.namingMsg zmsg :: (n.inQ.erase zmsg).map p.namingMsg) :=
    h.inQ.symm.trans ((List.perm_cons_erase hz).map p.namingMsg)
  have hErased := hTaken.erase (p.namingMsg zmsg)
  rw [List.erase_cons_head] at hErased
  exact hErased.symm

/-- The replies of a handler. -/
theorem zmsgs_of_fits (info : ProcessInfo p) {ms : List NamingMsg} (h : ∀ m ∈ ms, m.Fits) :
    ∃ zs, zmsgs p info ms = .ok zs ∧ zs.map p.namingMsg = ms ∧
      ∀ zmsg ∈ zs, p.WellFormed zmsg := by
  induction ms with
  | nil => exact ⟨[], rfl, rfl, fun _ hz => absurd hz List.not_mem_nil⟩
  | cons m ms ih =>
    obtain ⟨zs, hZs, hMap, hWell⟩ := ih fun m' hm' => h m' (List.mem_cons_of_mem _ hm')
    obtain ⟨msg, hMsg, -, hOk, hBack⟩ := (h m List.mem_cons_self).zmsg info
    refine ⟨msg.bytes :: zs, by rw [zmsgs, hMsg, hZs]; rfl, by rw [List.map_cons, hBack, hMap],
      fun zmsg hz => ?_⟩
    rcases List.mem_cons.mp hz with rfl | hz
    · exact hOk
    · exact hWell zmsg hz

variable {w w' : WireMesh ι} {s : LossyMesh ι NamingMsg}

/-- The same change to one node on both sides. -/
theorem WireMesh.Stands.update [DecidableEq ι] (h : w.Stands p s) {i : ι}
    (hNode : WireNode p n m) :
    WireMesh.Stands p { w with nodes := Function.update w.nodes i n } (Function.update s i m) := by
  refine ⟨h.faulted, fun j => ?_⟩
  by_cases hj : j = i
  · subst hj
    simpa using hNode
  · simpa [Function.update_of_ne hj] using h.nodes j

/-- The same messages sent on both sides. -/
theorem WireMesh.Stands.cast (h : w.Stands p s) {sent : List (List Byte)}
    {msgs : List NamingMsg} (hMap : sent.map p.namingMsg = msgs)
    (hWell : ∀ zmsg ∈ sent, p.WellFormed zmsg) (reaches : ι → Bool) :
    WireMesh.Stands p { w with nodes := w.nodes.cast sent reaches } (s.cast msgs reaches) := by
  refine ⟨h.faulted, fun j => ⟨?_, ?_, ?_, ?_, ?_, ?_⟩⟩
  · simpa using (h.nodes j).impl
  · simpa using (h.nodes j).life
  · simpa using (h.nodes j).left
  · show ((w.nodes.cast sent reaches j).inQ.map p.namingMsg).Perm (s.cast msgs reaches j).inQ
    rw [cast_inQ, cast_inQ, List.map_append]
    refine (h.nodes j).inQ.append ?_
    split
    · rw [hMap]
    · exact List.Perm.refl _
  · intro zmsg hz
    rcases mem_cast_inQ hz with hOld | hNew
    · exact (h.nodes j).wellFormed zmsg hOld
    · exact hWell zmsg hNew
  · rw [cast_impl]
    exact (h.nodes j).fits

/-- Handling a message changes neither uuid nor endpoint. -/
theorem NamingTransport.Fits.dispatch {impl : NamingTransport} (h : impl.Fits)
    (calls : NamingCalls) (m : NamingMsg) :
    (TransportImpl.dispatchNamingMsg calls impl m).impl.Fits ∧
      ∀ r ∈ (TransportImpl.dispatchNamingMsg calls impl m).sent, r.Fits := by
  obtain ⟨hUuid, hEndpoint, -⟩ := dispatchNamingMsg_frame calls impl m
  refine ⟨⟨?_, ?_⟩, fun r hr => ?_⟩
  · show FitsIn (TransportImpl.dispatchNamingMsg calls impl m).impl.mUuid _
    rw [hUuid]
    exact h.uuid
  · show FitsIn (TransportImpl.dispatchNamingMsg calls impl m).impl.mPubEndpoint _
    rw [hEndpoint]
    exact h.endpoint
  · rw [dispatchNamingMsg_sent] at hr
    split at hr
    · rw [List.mem_singleton.mp hr]
      exact h
    · exact absurd hr List.not_mem_nil

variable [DecidableEq ι] {info : ι → ProcessInfo p} {a : LossyAct ι (List Byte)}

/-- **Every step on bytes is a step on fields.** -/
theorem WireMesh.Stands.step (h : w.Stands p s) (hStep : WireMesh.step p info w a = some w') :
    ∃ s', LossyMesh.step s (a.fields p) = some s' ∧ w'.Stands p s' := by
  cases a with
  | start i =>
    have hi := h.nodes i
    simp only [WireMesh.step, Option.ite_none_right_eq_some] at hStep
    obtain ⟨hLife, hw⟩ := hStep
    cases hw
    refine ⟨_, by rw [LossyAct.fields, LossyMesh.step, if_pos (hi.life ▸ hLife)], ?_⟩
    exact h.update ⟨hi.impl, rfl, hi.left, hi.inQ, hi.wellFormed, hi.fits⟩
  | announce i beacon ok reaches =>
    have hi := h.nodes i
    simp only [WireMesh.step, Option.ite_none_right_eq_some] at hStep
    obtain ⟨hLife, hStep⟩ := hStep
    obtain ⟨sent, hSent, hMap, hWell⟩ := hi.fits.send (info i)
      (if beacon then typeBeacon else typeConnect) ok
    rw [hi.impl, hSent] at hStep
    cases hStep
    refine ⟨_, by rw [LossyAct.fields, LossyMesh.step, if_pos (hi.life ▸ hLife)], ?_⟩
    exact h.cast hMap (fun zmsg hz => (hWell zmsg hz).1) reaches
  | dispatch i zmsg calls reaches =>
    have hi := h.nodes i
    simp only [WireMesh.step, Option.ite_none_right_eq_some] at hStep
    obtain ⟨⟨hLife, hMem⟩, hStep⟩ := hStep
    obtain ⟨hFits, hReplies⟩ := hi.fits.dispatch calls (p.namingMsg zmsg)
    obtain ⟨sent, hSent, hMap, hWell⟩ := zmsgs_of_fits (info i) hReplies
    rw [(hi.wellFormed zmsg hMem).dispatch, hi.impl] at hStep
    dsimp only at hStep
    rw [hSent] at hStep
    cases hStep
    refine ⟨_, by rw [LossyAct.fields, LossyMesh.step, if_pos ⟨hi.life ▸ hLife, hi.mem hMem⟩],
      ?_⟩
    have hNode : WireNode p
        { w.nodes i with
          impl := (TransportImpl.dispatchNamingMsg calls (s i).impl (p.namingMsg zmsg)).impl
          inQ := (w.nodes i).inQ.erase zmsg }
        { s i with
          impl := (TransportImpl.dispatchNamingMsg calls (s i).impl (p.namingMsg zmsg)).impl
          inQ := (s i).inQ.erase (p.namingMsg zmsg) } :=
      ⟨rfl, hi.life, hi.left, hi.erase hMem,
        fun z hz => hi.wellFormed z (List.mem_of_mem_erase hz), hFits⟩
    exact (h.update hNode).cast hMap hWell reaches
  | leave i ok reaches =>
    have hi := h.nodes i
    simp only [WireMesh.step, Option.ite_none_right_eq_some] at hStep
    obtain ⟨hLife, hStep⟩ := hStep
    obtain ⟨sent, hSent, hMap, hWell⟩ := hi.fits.send (info i) typeDisconnect ok
    rw [hi.impl, hSent] at hStep
    cases hStep
    refine ⟨_, by rw [LossyAct.fields, LossyMesh.step, if_pos (hi.life ▸ hLife)], ?_⟩
    have hNode : WireNode p { w.nodes i with impl := (s i).impl, left := true }
        { s i with left := true } :=
      ⟨rfl, hi.life, rfl, hi.inQ, hi.wellFormed, hi.fits⟩
    exact (h.update hNode).cast hMap (fun zmsg hz => (hWell zmsg hz).1) reaches
  | quit i =>
    have hi := h.nodes i
    simp only [WireMesh.step, Option.ite_none_right_eq_some] at hStep
    obtain ⟨hLife, hw⟩ := hStep
    cases hw
    refine ⟨_, by rw [LossyAct.fields, LossyMesh.step, if_pos (hi.life ▸ hLife)], ?_⟩
    exact h.update ⟨hi.impl, rfl, hi.left, hi.inQ, hi.wellFormed, hi.fits⟩
  | lose i zmsg =>
    have hi := h.nodes i
    simp only [WireMesh.step, Option.ite_none_right_eq_some] at hStep
    obtain ⟨hMem, hw⟩ := hStep
    cases hw
    refine ⟨_, by rw [LossyAct.fields, LossyMesh.step, if_pos (hi.mem hMem)], ?_⟩
    exact h.update ⟨hi.impl, hi.life, hi.left, hi.erase hMem,
      fun z hz => hi.wellFormed z (List.mem_of_mem_erase hz), hi.fits⟩
  | copy i zmsg =>
    have hi := h.nodes i
    simp only [WireMesh.step, Option.ite_none_right_eq_some] at hStep
    obtain ⟨hMem, hw⟩ := hStep
    cases hw
    refine ⟨_, by rw [LossyAct.fields, LossyMesh.step, if_pos (hi.mem hMem)], ?_⟩
    refine h.update ⟨hi.impl, hi.life, hi.left, ?_, ?_, hi.fits⟩
    · rw [List.map_append]
      exact hi.inQ.append (List.Perm.refl _)
    · intro z hz
      rcases List.mem_append.mp hz with hOld | hNew
      · exact hi.wellFormed z hOld
      · rw [List.mem_singleton.mp hNew]
        exact hi.wellFormed zmsg hMem

end Refine

end ZmqBridge
