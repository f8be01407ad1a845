import ZmqBridge.Threads.Shutdown

/-!
# ZmqBridge — is a disconnect final?

`zmqBridgeMamaTransportImpl_stop` tells the peers with a 'D' that the transport
goes away. A 'C' or 'c' of the same transport that follows makes them connect
again. All three kinds of threads send on `mZmqNamingPub`, and only the beacon
is held back before the 'D' is sent.

* `disconnect_final_iff`  — nothing is announced after the 'D' exactly when no
  thread comes to a send after it; which is so when all `publishEndpoints` threads
  are through at that point and no new peer or welcome is handled after it;
* `disconnect_not_final`  — each of the three senders can be late.
-/

namespace ZmqBridge

open Lib

-- ---------------------------------------------------------------------------
-- What should hold, and when it does
-- ---------------------------------------------------------------------------

/-- No announcement of the transport follows its 'D' on `mZmqNamingPub`. -/
def Threads.Final (s : Threads) : Prop :=
  s.sent.Pairwise fun m m' =>
    m.mType = typeDisconnect ∧ m.mUuid = s.impl.naming.mUuid →
      m'.mUuid = s.impl.naming.mUuid → m'.announces = false

instance (s : Threads) : Decidable s.Final :=
  inferInstanceAs (Decidable (List.Pairwise _ _))

def Threads.DisconnectSent (s : Threads) : Prop := ∃ m ∈ s.sent, m.mType = typeDisconnect

instance (s : Threads) : Decidable s.DisconnectSent :=
  inferInstanceAs (Decidable (∃ m ∈ s.sent, m.mType = typeDisconnect))

/-- The thread that moves is at a send of a 'C' or 'c', and the send succeeds: a
beacon, the reply to a peer that is not in the table, or an attempt to connect. -/
def Threads.Announces (s : Threads) : ThreadsAct → Prop
  | .dispatch ok => s.dispatch = .sendBeacon ∧ ok = true
  | .naming calls pMsg => pMsg.announces = true ∧
      s.impl.naming.mPeers.lookup pMsg.mUuid = none ∧ calls.connect = true ∧ calls.send = true
  | .publish i ok => (∃ retries, s.publish[i]? = some (.send retries)) ∧ ok = true
  | _ => False

/-- A `publishEndpoints` thread that has ended or has no attempt left. -/
def PublishPc.Through : PublishPc → Prop
  | .loop retries => retries ≤ 1
  | .check retries => retries ≤ 1
  | .done => True
  | _ => False

instance (pc : PublishPc) : Decidable pc.Through :=
  match pc with
  | .reset => isFalse id
  | .loop retries => inferInstanceAs (Decidable (retries ≤ 1))
  | .send _ => isFalse id
  | .check retries => inferInstanceAs (Decidable (retries ≤ 1))
  | .done => isTrue trivial

/-- When the 'D' is sent, no `publishEndpoints` thread has an attempt left and no
beacon is about to be sent. After it, no new peer announces itself and no welcome
message starts a thread. -/
def Threads.Settled (s : Threads) : ThreadsAct → Prop
  | .destroy ok => s.app = .disconnect ∧ s.impl.mIsNaming = true ∧ ok = true →
      (∀ pc ∈ s.publish, pc.Through) ∧ s.dispatch ≠ .sendBeacon
  | .naming calls pMsg => s.DisconnectSent →
      ¬ (pMsg.announces = true ∧ s.impl.naming.mPeers.lookup pMsg.mUuid = none ∧
        calls.connect = true) ∧
      ¬ (pMsg.mType = typeWelcome ∧ calls.connect = true ∧ calls.createThread = true)
  | _ => True

instance (s : Threads) (a : ThreadsAct) : Decidable (s.Settled a) :=
  match a with
  | .destroy _ => inferInstanceAs (Decidable (_ ∧ _ ∧ _ → _ ∧ _))
  | .naming _ _ => inferInstanceAs (Decidable (_ → ¬ (_ ∧ _ ∧ _) ∧ ¬ (_ ∧ _ ∧ _)))
  | .dispatch _ => isTrue trivial
  | .control => isTrue trivial
  | .publish _ _ => isTrue trivial
  | .command _ => isTrue trivial

-- ---------------------------------------------------------------------------
-- What a step sends
-- ---------------------------------------------------------------------------

section Steps

variable {s s' : Threads}

theorem publishEndpoints_mUuid (impl : NamingTransport) (pc : PublishPc) :
    (TransportImpl.publishEndpoints impl pc).impl.mUuid = impl.mUuid := by
  cases pc with
  | loop retries =>
    rw [TransportImpl.publishEndpoints]
    split <;> rfl
  | reset => rfl
  | send retries => rfl
  | check retries => rfl
  | done => rfl

/-- What is known about one step: it keeps the uuid, and it adds to what was sent
an announcement or nothing. -/
structure Threads.Sends (s s' : Threads) (a : ThreadsAct) : Prop where
  uuid : s'.impl.naming.mUuid = s.impl.naming.mUuid
  sent : (s.Announces a ∧ ∃ command, (command = typeConnect ∨ command = typeBeacon) ∧
      s'.sent = s.sent ++ [s.impl.naming.endpointsMsg command]) ∨
    (¬ s.Announces a ∧ s'.sent = s.sent)

theorem Threads.sends_dispatchThread {ok : Bool} (h : s.dispatchThread ok = some s') :
    s.Sends s' (.dispatch ok) := by
  unfold Threads.dispatchThread at h
  cases hPc : s.dispatch <;> rw [hPc] at h <;> cases h
  case sendBeacon =>
    refine ⟨rfl, ?_⟩
    cases ok with
    | true => exact Or.inl ⟨⟨hPc, rfl⟩, typeBeacon, Or.inr rfl, rfl⟩
    | false =>
      exact Or.inr ⟨fun hA => Bool.false_ne_true hA.2, List.append_nil _⟩
  all_goals
    refine ⟨rfl, Or.inr ⟨fun hA => ?_, rfl⟩⟩
    rw [Threads.Announces, hPc] at hA
    cases hA.1

theorem Threads.sends_recvNaming {calls : NamingCalls} {pMsg : NamingMsg}
    (h : s.recvNaming calls pMsg = some s') : s.Sends s' (.naming calls pMsg) := by
  have hUuid := (dispatchNamingMsg_frame calls s.impl.naming pMsg).1
  have hSent := dispatchNamingMsg_sent calls s.impl.naming pMsg
  unfold Threads.recvNaming at h
  split at h
  · have hOut : s'.impl.naming = (TransportImpl.dispatchNamingMsg calls s.impl.naming pMsg).impl ∧
        s'.sent = s.sent ++ (TransportImpl.dispatchNamingMsg calls s.impl.naming pMsg).sent := by
      dsimp only at h
      split at h <;> cases h <;> exact ⟨rfl, rfl⟩
    refine ⟨by rw [hOut.1, hUuid], ?_⟩
    rw [hOut.2, hSent]
    split
    · rename_i hA
      exact Or.inl ⟨hA, typeConnect, Or.inl rfl, rfl⟩
    · rename_i hA
      exact Or.inr ⟨hA, List.append_nil _⟩
  · cases h

theorem Threads.sends_publishEndpoints {i : Nat} {ok : Bool}
    (h : s.publishEndpoints i ok = some s') : s.Sends s' (.publish i ok) := by
  unfold Threads.publishEndpoints at h
  split at h
  · cases h
  · cases h
  · rename_i pc hNotDone hPc
    cases h
    refine ⟨publishEndpoints_mUuid _ _, ?_⟩
    cases pc with
    | send retries =>
      cases ok with
      | true => exact Or.inl ⟨⟨⟨retries, hPc⟩, rfl⟩, typeConnect, Or.inl rfl, rfl⟩
      | false => exact Or.inr ⟨fun hA => Bool.false_ne_true hA.2, List.append_nil _⟩
    | loop retries =>
      refine Or.inr ⟨fun hA => ?_, ?_⟩
      · obtain ⟨⟨r, hr⟩, -⟩ := hA
        rw [hPc] at hr
        cases hr
      · have hCommand : (TransportImpl.publishEndpoints s.impl.naming (.loop retries)).command =
            none := by
          rw [TransportImpl.publishEndpoints]
          split <;> rfl
        dsimp only
        rw [hCommand]
        exact List.append_nil _
    | reset =>
      refine Or.inr ⟨fun hA => ?_, List.append_nil _⟩
      obtain ⟨⟨r, hr⟩, -⟩ := hA
      rw [hPc] at hr
      cases hr
    | check retries =>
      refine Or.inr ⟨fun hA => ?_, List.append_nil _⟩
      obtain ⟨⟨r, hr⟩, -⟩ := hA
      rw [hPc] at hr
      cases hr
    | done => exact absurd rfl hNotDone

/-- **What the other threads send.** -/
theorem Threads.sends_of_step {a : ThreadsAct} (ha : ∀ ok, a ≠ .destroy ok)
    (h : s.step a = some s') : s.Sends s' a := by
  cases a with
  | destroy ok => exact absurd rfl (ha ok)
  | dispatch ok => exact Threads.sends_dispatchThread h
  | naming calls pMsg => exact Threads.sends_recvNaming h
  | publish i ok => exact Threads.sends_publishEndpoints h
  | control =>
    simp only [Threads.step, Threads.recvControl] at h
    split at h <;> cases h
    refine ⟨?_, Or.inr ⟨id, rfl⟩⟩
    dsimp only [TransportImpl.dispatchExitMsg]
    split <;> rfl
  | command msg =>
    simp only [Threads.step] at h
    split at h <;> cases h
    exact ⟨rfl, Or.inr ⟨id, rfl⟩⟩

/-- `destroy` sends the 'D' and nothing else. -/
theorem Threads.destroy_sends {ok : Bool} (h : s.destroy ok = some s') :
    s'.impl.naming = s.impl.naming ∧ s'.dispatch = s.dispatch ∧ s'.publish = s.publish ∧
      (s'.sent = s.sent ∨
        (s.app = .disconnect ∧ s.impl.mIsNaming = true ∧ ok = true) ∧
          s'.sent = s.sent ++ [s.impl.naming.endpointsMsg typeDisconnect]) := by
  unfold Threads.destroy at h
  cases hPc : s.app <;> simp only [hPc] at h
  case disconnect =>
    split at h
    · rename_i hNaming
      cases ok with
      | true =>
        cases h
        exact ⟨rfl, rfl, rfl, Or.inr ⟨⟨rfl, hNaming, rfl⟩, rfl⟩⟩
      | false =>
        cases h
        exact ⟨rfl, rfl, rfl, Or.inl rfl⟩
    · cases h
      exact ⟨rfl, rfl, rfl, Or.inl rfl⟩
  case joinPublish =>
    split at h
    · cases h
      exact ⟨rfl, rfl, rfl, Or.inl rfl⟩
    · split at h <;> cases h
      exact ⟨rfl, rfl, rfl, Or.inl rfl⟩
  all_goals try split at h
  all_goals cases h
  all_goals exact ⟨rfl, rfl, rfl, Or.inl rfl⟩

-- ---------------------------------------------------------------------------
-- Nothing after the 'D', exactly
-- ---------------------------------------------------------------------------

/-- Everything the transport sent is about itself. -/
def Threads.OwnSends (s : Threads) : Prop := ∀ m ∈ s.sent, m.mUuid = s.impl.naming.mUuid

theorem endpointsMsg_announces {impl : NamingTransport} {command : Byte}
    (h : command = typeConnect ∨ command = typeBeacon) :
    (impl.endpointsMsg command).announces = true := by
  rcases h with rfl | rfl <;> rfl

/-- What one more message does to `Final`. -/
theorem Threads.final_snoc {m : NamingMsg} (hOwn : s.OwnSends)
    (hUuid : s'.impl.naming.mUuid = s.impl.naming.mUuid) (hm : m.mUuid = s.impl.naming.mUuid)
    (hSent : s'.sent = s.sent ++ [m]) :
    s'.Final ↔ s.Final ∧ (s.DisconnectSent → m.announces = false) := by
  rw [Threads.Final, hSent, hUuid, List.pairwise_append]
  constructor
  · rintro ⟨hFinal, -, hLast⟩
    refine ⟨hFinal, ?_⟩
    rintro ⟨d, hd, hType⟩
    exact hLast d hd m (List.mem_singleton_self _) ⟨hType, hOwn d hd⟩ hm
  · rintro ⟨hFinal, hLast⟩
    refine ⟨hFinal, List.pairwise_singleton _ _, ?_⟩
    rintro d hd m' hm' ⟨hType, -⟩ -
    rw [List.mem_singleton.mp hm']
    exact hLast ⟨d, hd, hType⟩

theorem Threads.OwnSends.step (hOwn : s.OwnSends) {a : ThreadsAct}
    (h : s.step a = some s') : s'.OwnSends := by
  have hSnoc : ∀ command, s'.impl.naming.mUuid = s.impl.naming.mUuid →
      s'.sent = s.sent ++ [s.impl.naming.endpointsMsg command] → s'.OwnSends := by
    intro command hUuid hSent m hm
    rw [hSent] at hm
    rw [hUuid]
    rcases List.mem_append.mp hm with hm | hm
    · exact hOwn m hm
    · rw [List.mem_singleton.mp hm]
      rfl
  have hSame : s'.impl.naming.mUuid = s.impl.naming.mUuid → s'.sent = s.sent →
      s'.OwnSends := by
    intro hUuid hSent
    rw [Threads.OwnSends, hUuid, hSent]
    exact hOwn
  by_cases ha : ∃ ok, a = .destroy ok
  · obtain ⟨ok, rfl⟩ := ha
    obtain ⟨hNaming, -, -, hSent | ⟨-, hSent⟩⟩ := Threads.destroy_sends h
    · exact hSame (by rw [hNaming]) hSent
    · exact hSnoc _ (by rw [hNaming]) hSent
  · obtain ⟨hUuid, ⟨-, command, -, hSent⟩ | ⟨-, hSent⟩⟩ :=
      Threads.sends_of_step (not_exists.mp ha) h
    · exact hSnoc command hUuid hSent
    · exact hSame hUuid hSent

/-- **One step** keeps the disconnect final exactly when it does not announce the
transport after its 'D'. -/
theorem Threads.Final.step (hFinal : s.Final) (hOwn : s.OwnSends) {a : ThreadsAct}
    (h : s.step a = some s') : s'.Final ↔ (s.DisconnectSent → ¬ s.Announces a) := by
  have hSame : s'.impl.naming.mUuid = s.impl.naming.mUuid → s'.sent = s.sent → s'.Final := by
    intro hUuid hSent
    rw [Threads.Final, hUuid, hSent]
    exact hFinal
  by_cases ha : ∃ ok, a = .destroy ok
  · obtain ⟨ok, rfl⟩ := ha
    refine iff_of_true ?_ fun _ => id
    obtain ⟨hNaming, -, -, hSent | ⟨-, hSent⟩⟩ := Threads.destroy_sends h
    · exact hSame (by rw [hNaming]) hSent
    · rw [Threads.final_snoc hOwn (by rw [hNaming]) rfl hSent]
      exact ⟨hFinal, fun _ => rfl⟩
  · obtain ⟨hUuid, ⟨hA, command, hCommand, hSent⟩ | ⟨hA, hSent⟩⟩ :=
      Threads.sends_of_step (not_exists.mp ha) h
    · rw [Threads.final_snoc hOwn hUuid rfl hSent, endpointsMsg_announces hCommand]
      constructor
      · rintro ⟨-, hLast⟩ hD
        exact absurd (hLast hD) (by decide)
      · exact fun hNot => ⟨hFinal, fun hD => absurd hA (hNot hD)⟩
    · exact iff_of_true (hSame hUuid hSent) fun _ => hA

-- ---------------------------------------------------------------------------
-- Transports that are through with announcing
-- ---------------------------------------------------------------------------

/-- Nothing is left that would announce the transport by itself. -/
structure Threads.Hushed (s : Threads) : Prop where
  publish : ∀ pc ∈ s.publish, pc.Through
  beacon : s.dispatch ≠ .sendBeacon
  interval : s.impl.mBeaconInterval = 0

/-- A thread without an attempt left does not find one. -/
theorem PublishPc.Through.step {impl : NamingTransport} {pc : PublishPc} (h : pc.Through) :
    (TransportImpl.publishEndpoints impl pc).pc.Through := by
  cases pc with
  | reset => exact h.elim
  | send retries => exact h.elim
  | done => trivial
  | loop retries =>
    have hNot : ¬ (retries - 1 > 0 ∧ impl.mIsDispatching = true) := by
      have hLe : retries ≤ 1 := h
      omega
    rw [TransportImpl.publishEndpoints, if_neg hNot]
    trivial
  | check retries =>
    rw [TransportImpl.publishEndpoints]
    cases impl.mNamingConnected with
    | true => trivial
    | false => exact h

theorem Threads.Hushed.dispatchThread (hHushed : s.Hushed) {ok : Bool}
    (h : s.dispatchThread ok = some s') : s'.Hushed := by
  unfold Threads.dispatchThread at h
  cases hPc : s.dispatch <;> rw [hPc] at h <;> cases h
  case beacon =>
    refine ⟨hHushed.publish, ?_, hHushed.interval⟩
    have hNot : ¬ (s.nextBeacon = true ∧ s.impl.mBeaconInterval > 0 ∧ ok = true) := by
      rw [hHushed.interval]
      omega
    dsimp only
    rw [if_neg hNot]
    exact DispatchPc.noConfusion
  case loop =>
    refine ⟨hHushed.publish, ?_, hHushed.interval⟩
    dsimp only
    split <;> exact DispatchPc.noConfusion
  case poll =>
    refine ⟨hHushed.publish, ?_, hHushed.interval⟩
    cases ok <;> exact DispatchPc.noConfusion
  all_goals exact ⟨hHushed.publish, DispatchPc.noConfusion, hHushed.interval⟩

theorem Threads.Hushed.recvNaming (hHushed : s.Hushed) {calls : NamingCalls}
    {pMsg : NamingMsg}
    (hNot : ¬ (pMsg.mType = typeWelcome ∧ calls.connect = true ∧ calls.createThread = true))
    (h : s.recvNaming calls pMsg = some s') : s'.Hushed := by
  unfold Threads.recvNaming at h
  split at h
  · dsimp only at h
    split at h
    · cases h
      exact ⟨hHushed.publish, hHushed.beacon, hHushed.interval⟩
    · cases h
      exact ⟨hHushed.publish, hHushed.beacon, hHushed.interval⟩
    · rename_i hThread
      exact absurd (dispatchNamingMsg_thread hThread) hNot
  · cases h

theorem Threads.Hushed.publishEndpoints (hHushed : s.Hushed) {i : Nat} {ok : Bool}
    (h : s.publishEndpoints i ok = some s') : s'.Hushed := by
  unfold Threads.publishEndpoints at h
  split at h
  · cases h
  · cases h
  · rename_i pc _ hPc
    cases h
    refine ⟨fun pc' hMem => ?_, hHushed.beacon, hHushed.interval⟩
    rcases List.mem_or_eq_of_mem_set hMem with hMem | rfl
    · exact hHushed.publish pc' hMem
    · exact (hHushed.publish pc (List.mem_of_getElem? hPc)).step

/-- Who is hushed announces nothing by itself. -/
theorem Threads.Hushed.not_announces (hHushed : s.Hushed) {a : ThreadsAct}
    (hD : s.DisconnectSent) (hSettled : s.Settled a) : ¬ s.Announces a := by
  cases a with
  | destroy ok => exact id
  | control => exact id
  | command msg => exact id
  | dispatch ok => exact fun hA => hHushed.beacon hA.1
  | naming calls pMsg => exact fun hA => (hSettled hD).1 ⟨hA.1, hA.2.1, hA.2.2.1⟩
  | publish i ok =>
    rintro ⟨⟨retries, hPc⟩, -⟩
    exact hHushed.publish _ (List.mem_of_getElem? hPc)

/-- What runs that meet the condition keep: from `ready` on there is no beacon, and
after the 'D' nobody is left to announce the transport. -/
structure Threads.Leaves (s : Threads) : Prop where
  interval : s.app = .running ∨ s.impl.mBeaconInterval = 0
  hushed : s.DisconnectSent → s.Hushed

/-- The beacon interval is only ever set to 0. -/
theorem Threads.interval_of_step {a : ThreadsAct} (ha : ∀ ok, a ≠ .destroy ok)
    (h : s.step a = some s') : s'.impl.mBeaconInterval = s.impl.mBeaconInterval := by
  cases a with
  | destroy ok => exact absurd rfl (ha ok)
  | dispatch ok =>
    simp only [Threads.step, Threads.dispatchThread] at h
    split at h <;> cases h <;> rfl
  | control =>
    simp only [Threads.step, Threads.recvControl] at h
    split at h <;> cases h
    rfl
  | naming calls pMsg =>
    simp only [Threads.step, Threads.recvNaming] at h
    split at h
    · split at h <;> cases h <;> rfl
    · cases h
  | publish i ok =>
    simp only [Threads.step, Threads.publishEndpoints] at h
    split at h <;> cases h
    rfl
  | command msg =>
    simp only [Threads.step] at h
    split at h <;> cases h
    rfl

theorem Threads.interval_destroy (hInterval : s.app = .running ∨ s.impl.mBeaconInterval = 0)
    {ok : Bool} (h : s.destroy ok = some s') : s'.impl.mBeaconInterval = 0 := by
  unfold Threads.destroy at h
  cases hPc : s.app <;> simp only [hPc] at h
  case running =>
    cases h
    rfl
  all_goals have hZero : s.impl.mBeaconInterval = 0 :=
    hInterval.resolve_left (by rw [hPc]; exact AppPc.noConfusion)
  case disconnect =>
    split at h
    · split at h <;> cases h <;> exact hZero
    · cases h
      exact hZero
  case joinPublish =>
    split at h
    · cases h
      exact hZero
    · split at h <;> cases h
      exact hZero
  all_goals try split at h
  all_goals cases h
  all_goals exact hZero

theorem Threads.Leaves.step (hLeaves : s.Leaves) {a : ThreadsAct} (hSettled : s.Settled a)
    (h : s.step a = some s') : s'.Leaves := by
  by_cases ha : ∃ ok, a = .destroy ok
  · obtain ⟨ok, rfl⟩ := ha
    have hInterval := Threads.interval_destroy hLeaves.interval h
    obtain ⟨-, hDispatch, hPublish, hSent⟩ := Threads.destroy_sends h
    refine ⟨Or.inr hInterval, fun hD => ?_⟩
    rcases hSent with hSent | ⟨hHere, -⟩
    · rw [Threads.DisconnectSent, hSent] at hD
      have hHushed := hLeaves.hushed hD
      exact ⟨hPublish ▸ hHushed.publish, hDispatch ▸ hHushed.beacon, hInterval⟩
    · obtain ⟨hThrough, hBeacon⟩ := hSettled hHere
      exact ⟨hPublish ▸ hThrough, hDispatch ▸ hBeacon, hInterval⟩
  · have hNot := not_exists.mp ha
    have hInterval := Threads.interval_of_step hNot h
    refine ⟨by rw [(Threads.keeps_of_step hNot h).app, hInterval]; exact hLeaves.interval,
      fun hD => ?_⟩
    have hBefore : s.DisconnectSent := by
      obtain ⟨m, hm, hType⟩ := hD
      obtain ⟨-, ⟨-, command, hCommand, hSent⟩ | ⟨-, hSent⟩⟩ := Threads.sends_of_step hNot h
      · rw [hSent] at hm
        rcases List.mem_append.mp hm with hm | hm
        · exact ⟨m, hm, hType⟩
        · -- what was just sent is an announcement
          rw [List.mem_singleton.mp hm] at hType
          rcases hCommand with rfl | rfl
          · exact absurd (show typeConnect = typeDisconnect from hType) (by decide)
          · exact absurd (show typeBeacon = typeDisconnect from hType) (by decide)
      · exact ⟨m, hSent ▸ hm, hType⟩
    have hHushed := hLeaves.hushed hBefore
    cases a with
    | destroy ok => exact absurd rfl (hNot ok)
    | dispatch ok => exact hHushed.dispatchThread h
    | naming calls pMsg => exact hHushed.recvNaming (hSettled hBefore).2 h
    | publish i ok => exact hHushed.publishEndpoints h
    | control =>
      simp only [Threads.step, Threads.recvControl] at h
      split at h <;> cases h
      exact ⟨hHushed.publish, hHushed.beacon, hHushed.interval⟩
    | command msg =>
      simp only [Threads.step] at h
      split at h <;> cases h
      exact ⟨hHushed.publish, hHushed.beacon, hHushed.interval⟩

end Steps

section Run

variable {mBeaconInterval : Nat} {mUuid mPubEndpoint : List Byte}
  {mNamingConnectRetries : Int} {as : List ThreadsAct} {s : Threads}

/--
**When a disconnect is final.** For every run of a naming transport:

* no 'C' or 'c' follows the 'D' in any state of the run if and only if, after the
  'D', no step is a successful send of a beacon, of a reply to a peer that is not in
  the table, or of a `publishEndpoints` thread;
* this is so if no `publishEndpoints` thread has an attempt left and no beacon is on
  its way when the 'D' is sent, and after that no new peer is announced and no
  welcome message starts a thread. Setting the beacon interval to 0 before keeps any
  later beacon back.
-/
theorem disconnect_final_iff
    (hRun : run Threads.step (Threads.init true mBeaconInterval mUuid mPubEndpoint
      mNamingConnectRetries) as = some s) :
    (Along Threads.step Threads.Final (Threads.init true mBeaconInterval mUuid mPubEndpoint
        mNamingConnectRetries) as ↔
      StepsMeet Threads.step (fun s a => s.DisconnectSent → ¬ s.Announces a)
        (Threads.init true mBeaconInterval mUuid mPubEndpoint mNamingConnectRetries) as) ∧
    (StepsMeet Threads.step Threads.Settled (Threads.init true mBeaconInterval mUuid
        mPubEndpoint mNamingConnectRetries) as →
      Along Threads.step Threads.Final (Threads.init true mBeaconInterval mUuid mPubEndpoint
        mNamingConnectRetries) as) := by
  have hOwn : Threads.OwnSends (Threads.init true mBeaconInterval mUuid mPubEndpoint
      mNamingConnectRetries) := List.forall_mem_nil _
  have hIff : Along Threads.step Threads.Final (Threads.init true mBeaconInterval mUuid
        mPubEndpoint mNamingConnectRetries) as ↔
      StepsMeet Threads.step (fun s a => s.DisconnectSent → ¬ s.Announces a)
        (Threads.init true mBeaconInterval mUuid mPubEndpoint mNamingConnectRetries) as :=
    along_iff_stepsMeet (P := Threads.Final) (J := fun s => s.OwnSends ∧ s.Final)
      ⟨hOwn, List.Pairwise.nil⟩ (fun s hJ => hJ.2)
      (fun s a s' hJ hOk h => ⟨hJ.1.step h, (hJ.2.step hJ.1 h).mpr hOk⟩)
      (fun s a s' hJ h hFinal => (hJ.2.step hJ.1 h).mp hFinal) hRun
  refine ⟨hIff, fun hSettled => hIff.mpr ?_⟩
  rintro pre a post t rfl hPre hD
  have hLeaves : t.Leaves := by
    refine run_induction_meet (P := fun _ s => s.Leaves) ⟨Or.inl rfl, ?_⟩
      (fun as s a s' _ hs hMeets h => hs.step hMeets h) hPre hSettled.init
    rintro ⟨m, hm, -⟩
    cases hm
  exact (hLeaves.hushed hD).not_announces hD (hSettled pre a post t rfl hPre)

end Run

/-- A transport with a beacon that is welcomed, connects and leaves; the messages of
a peer arrive before and a beacon of that peer after its 'D'. -/
def quietLeave : List ThreadsAct :=
  startDispatch ++ [.naming .allOk ⟨typeConnect, [7], [8]⟩, welcome, .publish 0 true,
    .publish 0 true, .publish 0 true, .naming .allOk ⟨typeConnect, [1], [2]⟩, .publish 0 true,
    .destroy true, .destroy true, .destroy true, .naming .allOk ⟨typeBeacon, [7], [8]⟩]

theorem disconnect_final_quietLeave :
    (∃ s, run Threads.step (Threads.init true 5 [1] [2] 4) quietLeave = some s ∧
      s.DisconnectSent) ∧
      Along Threads.step Threads.Final (Threads.init true 5 [1] [2] 4) quietLeave := by
  obtain ⟨s, hRun, hD⟩ : ∃ s, run Threads.step (Threads.init true 5 [1] [2] 4) quietLeave =
      some s ∧ s.DisconnectSent := exists_run (by decide +kernel)
  exact ⟨⟨s, hRun, hD⟩, (disconnect_final_iff hRun).2
    (stepsMeet_of_meetsAll (by decide +kernel))⟩

/-- The `publishEndpoints` thread has tested that it may go on, then the 'D' is
sent. -/
def lateAttempt : List ThreadsAct :=
  startDispatch ++ [welcome, .publish 0 true, .publish 0 true, .destroy true, .destroy true,
    .destroy true, .publish 0 true]

theorem announced_lateAttempt :
    ∃ s, run Threads.step namingThreads lateAttempt = some s ∧
      s.sent = [⟨typeDisconnect, [1], [2]⟩, ⟨typeConnect, [1], [2]⟩] ∧ ¬ s.Final :=
  exists_run (by decide +kernel)

/-- A peer is seen for the first time after the 'D'. -/
def lateReply : List ThreadsAct :=
  startDispatch ++ [.destroy true, .destroy true, .destroy true,
    .naming .allOk ⟨typeConnect, [7], [8]⟩]

theorem announced_lateReply :
    ∃ s, run Threads.step namingThreads lateReply = some s ∧
      s.sent = [⟨typeDisconnect, [1], [2]⟩, ⟨typeConnect, [1], [2]⟩] ∧ ¬ s.Final :=
  exists_run (by decide +kernel)

/-- The beacon is due, then its interval is set to 0 and the 'D' is sent. -/
def lateBeacon : List ThreadsAct :=
  [.dispatch true, .dispatch true, .dispatch true, .dispatch true, .dispatch true,
    .dispatch true, .destroy true, .destroy true, .destroy true, .dispatch true]

theorem announced_lateBeacon :
    ∃ s, run Threads.step (Threads.init true 5 [1] [2] 4) lateBeacon = some s ∧
      s.sent = [⟨typeDisconnect, [1], [2]⟩, ⟨typeBeacon, [1], [2]⟩] ∧ ¬ s.Final :=
  exists_run (by decide +kernel)

/-- **A disconnect need not be final**: each of the three senders can be late. -/
theorem disconnect_not_final :
    (∃ s, run Threads.step namingThreads lateAttempt = some s ∧
      s.sent = [⟨typeDisconnect, [1], [2]⟩, ⟨typeConnect, [1], [2]⟩] ∧ ¬ s.Final) ∧
    (∃ s, run Threads.step namingThreads lateReply = some s ∧
      s.sent = [⟨typeDisconnect, [1], [2]⟩, ⟨typeConnect, [1], [2]⟩] ∧ ¬ s.Final) ∧
    (∃ s, run Threads.step (Threads.init true 5 [1] [2] 4) lateBeacon = some s ∧
      s.sent = [⟨typeDisconnect, [1], [2]⟩, ⟨typeBeacon, [1], [2]⟩] ∧ ¬ s.Final) :=
  ⟨announced_lateAttempt, announced_lateReply, announced_lateBeacon⟩

end ZmqBridge
