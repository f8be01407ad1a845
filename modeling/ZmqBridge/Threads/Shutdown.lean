import ZmqBridge.Lib.Run
import ZmqBridge.Model.Threads

/-!
# ZmqBridge — when may a transport be freed?

Any interleaving of the threads of a transport, any number of welcome messages,
and any outcome of the calls they make. When `zmqBridgeMamaTransport_destroy`
frees the transport, the dispatch thread and all `publishEndpoints` threads should
have ended, and only threads should have been joined, each once. Whether `destroy`
gets that far also depends on the locks of the sockets, which come in later.

* `Threads.Inv.step`           — what is known at each place of `destroy`;
* `Threads.Inv.freed_safe_iff` — freeing is safe exactly if `stop` succeeded, the last
  attempt to create a `publishEndpoints` thread did, and the earlier ones have ended.
-/

namespace ZmqBridge

open Lib

-- ---------------------------------------------------------------------------
-- What should hold, and when it does
-- ---------------------------------------------------------------------------

/-- The handle is that of a thread. -/
def Threads.Created (s : Threads) : Option ThreadId → Prop
  | none => False
  | some .dispatch => True
  | some (.publish i) => i < s.publish.length

instance (s : Threads) (handle : Option ThreadId) : Decidable (s.Created handle) :=
  match handle with
  | none => isFalse id
  | some .dispatch => isTrue trivial
  | some (.publish i) => inferInstanceAs (Decidable (i < s.publish.length))

def AppPc.isFreed : AppPc → Bool
  | .freed _ => true
  | _ => false

/-- **No thread uses a transport that is freed**, and `destroy` joins threads
only, each at most once. -/
def Threads.Safe (s : Threads) : Prop :=
  (s.app.isFreed = true → s.dispatch = .done ∧ ∀ pc ∈ s.publish, pc = .done) ∧
    (∀ handle ∈ s.joins, s.Created handle) ∧ s.joins.Nodup

instance (s : Threads) : Decidable s.Safe := inferInstanceAs (Decidable (_ ∧ _ ∧ _))

/-- The sends of `stop` succeed; when a `publishEndpoints` thread is created the
earlier ones have ended; when `destroy` joins `mPublishThread`, the last
`wthread_create` for it succeeded. -/
def Threads.Meets (s : Threads) : ThreadsAct → Prop
  | .destroy ok =>
    match s.app with
    | .disconnect => s.impl.mIsNaming = true → ok = true
    | .exit => ok = true
    | .joinPublish _ => s.creations.getLast? = some true
    | _ => True
  | .naming calls pMsg =>
    pMsg.mType = typeWelcome ∧ calls.connect = true ∧ calls.createThread = true →
      ∀ pc ∈ s.publish, pc = .done
  | _ => True

instance (s : Threads) (a : ThreadsAct) : Decidable (s.Meets a) :=
  match a with
  | .destroy ok =>
    match h : s.app with
    | .disconnect => decidable_of_iff (s.impl.mIsNaming = true → ok = true) (by
        simp only [Threads.Meets, h])
    | .exit => decidable_of_iff (ok = true) (by simp only [Threads.Meets, h])
    | .joinPublish _ => decidable_of_iff (s.creations.getLast? = some true) (by
        simp only [Threads.Meets, h])
    | .running => isTrue (by simp only [Threads.Meets, h])
    | .ready => isTrue (by simp only [Threads.Meets, h])
    | .joinDispatch => isTrue (by simp only [Threads.Meets, h])
    | .close _ => isTrue (by simp only [Threads.Meets, h])
    | .freed _ => isTrue (by simp only [Threads.Meets, h])
    | .returned _ => isTrue (by simp only [Threads.Meets, h])
  | .naming _ _ => inferInstanceAs (Decidable (_ ∧ _ ∧ _ → _))
  | .dispatch _ => isTrue trivial
  | .control => isTrue trivial
  | .publish _ _ => isTrue trivial
  | .command _ => isTrue trivial

-- ---------------------------------------------------------------------------
-- What the other threads leave alone
-- ---------------------------------------------------------------------------

/-- Nothing has told the dispatch thread to end. -/
structure Threads.Live (s : Threads) : Prop where
  control : ∀ msg ∈ s.impl.control, msg.command ≠ commandExit
  dispatch : s.dispatch ≠ .done
  dispatching : s.dispatch = .start ∨ s.impl.naming.mIsDispatching = true

/-- What a step of a thread other than the application's keeps. -/
structure Threads.Keeps (s s' : Threads) : Prop where
  app : s'.app = s.app
  joins : s'.joins = s.joins
  live : s.Live → s'.Live
  ended : s.dispatch = .done →
    s'.dispatch = .done ∧ s'.impl.mPublishThread = s.impl.mPublishThread
  finished : ∀ i : Nat, s.publish[i]? = some .done → s'.publish[i]? = some .done

section Steps

variable {s s' : Threads}

theorem publishEndpoints_mIsDispatching (impl : NamingTransport) (pc : PublishPc) :
    (TransportImpl.publishEndpoints impl pc).impl.mIsDispatching = impl.mIsDispatching := by
  cases pc with
  | loop retries =>
    rw [TransportImpl.publishEndpoints]
    split <;> rfl
  | reset => rfl
  | send retries => rfl
  | check retries => rfl
  | done => rfl

/-- A step of the dispatch thread that leaves the other threads where they
are. -/
theorem Threads.keeps_of_dispatch (hNotDone : s.dispatch ≠ .done) (hApp : s'.app = s.app)
    (hJoins : s'.joins = s.joins) (hPublish : s'.publish = s.publish)
    (hLive : s.Live → s'.Live) : s.Keeps s' :=
  ⟨hApp, hJoins, hLive, fun hDone => absurd hDone hNotDone, fun _ hi => hPublish ▸ hi⟩

/-- The dispatch thread only ends when it was told to. -/
theorem Threads.keeps_dispatchThread {ok : Bool} (h : s.dispatchThread ok = some s') :
    s.Keeps s' := by
  unfold Threads.dispatchThread at h
  cases hPc : s.dispatch <;> rw [hPc] at h <;> cases h <;>
    refine Threads.keeps_of_dispatch (by rw [hPc]; exact DispatchPc.noConfusion) rfl rfl rfl
      fun hLive => ?_
  case start => exact ⟨hLive.control, DispatchPc.noConfusion, Or.inr rfl⟩
  all_goals
    have hOn : s.impl.naming.mIsDispatching = true :=
      hLive.dispatching.resolve_left (by rw [hPc]; exact DispatchPc.noConfusion)
    refine ⟨hLive.control, ?_, Or.inr hOn⟩
  case loop => simp [hOn]
  case poll => cases ok <;> exact DispatchPc.noConfusion
  case beacon =>
    dsimp only
    split <;> exact DispatchPc.noConfusion
  all_goals exact DispatchPc.noConfusion

theorem Threads.keeps_recvControl (h : s.recvControl = some s') : s.Keeps s' := by
  unfold Threads.recvControl at h
  split at h
  · rename_i pMsg control hPc hControl
    cases h
    refine Threads.keeps_of_dispatch (by rw [hPc]; exact DispatchPc.noConfusion) rfl rfl rfl
      fun hLive => ?_
    have hMsgs := hLive.control
    rw [hControl] at hMsgs
    have hNot : TransportImpl.dispatchExitMsg s.impl.naming pMsg = s.impl.naming :=
      if_neg (hMsgs pMsg List.mem_cons_self)
    refine ⟨fun msg hMsg => hMsgs msg (List.mem_cons_of_mem _ hMsg), hLive.dispatch, ?_⟩
    rw [hNot]
    exact hLive.dispatching
  · cases h

theorem Threads.keeps_recvNaming {calls : NamingCalls} {pMsg : NamingMsg}
    (h : s.recvNaming calls pMsg = some s') : s.Keeps s' := by
  unfold Threads.recvNaming at h
  split at h
  · rename_i hGuard
    have hEnded : s.dispatch ≠ .done := by
      rw [hGuard.1]
      exact DispatchPc.noConfusion
    have hDispatching := (dispatchNamingMsg_frame calls s.impl.naming pMsg).2.2
    dsimp only at h
    split at h <;> cases h
    · exact Threads.keeps_of_dispatch hEnded rfl rfl rfl fun hLive => ⟨hLive.control,
        hLive.dispatch, hLive.dispatching.imp_right hDispatching.trans⟩
    · exact Threads.keeps_of_dispatch hEnded rfl rfl rfl fun hLive => ⟨hLive.control,
        hLive.dispatch, hLive.dispatching.imp_right hDispatching.trans⟩
    · refine ⟨rfl, rfl, fun hLive => ⟨hLive.control, hLive.dispatch,
        hLive.dispatching.imp_right hDispatching.trans⟩, fun hDone => absurd hDone hEnded,
        fun i hi => ?_⟩
      show (s.publish ++ [PublishPc.reset])[i]? = some .done
      rw [List.getElem?_append_left (List.getElem?_eq_some_iff.mp hi).1]
      exact hi
  · cases h

theorem Threads.keeps_publishEndpoints {i : Nat} {ok : Bool}
    (h : s.publishEndpoints i ok = some s') : s.Keeps s' := by
  unfold Threads.publishEndpoints at h
  split at h
  · cases h
  · cases h
  · rename_i pc hNotDone hPc
    cases h
    refine ⟨rfl, rfl, fun hLive => ⟨hLive.control, hLive.dispatch,
      hLive.dispatching.imp_right (publishEndpoints_mIsDispatching _ _).trans⟩,
      fun hDone => ⟨hDone, rfl⟩, fun j hj => ?_⟩
    have hne : i ≠ j := by
      rintro rfl
      rw [hPc] at hj
      exact hNotDone (Option.some.inj hj)
    show (s.publish.set i _)[j]? = some .done
    rw [List.getElem?_set_ne hne]
    exact hj

/-- **What all threads but the application's leave alone.** -/
theorem Threads.keeps_of_step {a : ThreadsAct} (ha : ∀ ok, a ≠ .destroy ok)
    (h : s.step a = some s') : s.Keeps s' := by
  cases a with
  | destroy ok => exact absurd rfl (ha ok)
  | dispatch ok => exact Threads.keeps_dispatchThread h
  | control => exact Threads.keeps_recvControl h
  | naming calls pMsg => exact Threads.keeps_recvNaming h
  | publish i ok => exact Threads.keeps_publishEndpoints h
  | command msg =>
    rw [Threads.step] at h
    split at h
    · cases h
    · rename_i hNot
      cases h
      refine ⟨rfl, rfl, fun hLive => ⟨fun m hm => ?_, hLive.dispatch, hLive.dispatching⟩,
        fun hDone => ⟨hDone, rfl⟩, fun i hi => hi⟩
      rcases List.mem_append.mp hm with hm | hm
      · exact hLive.control m hm
      · rw [List.mem_singleton.mp hm]
        exact hNot

end Steps

-- ---------------------------------------------------------------------------
-- Handles
-- ---------------------------------------------------------------------------

/-- `mPublishThread` is the handle of the newest thread, if the last attempt to
create one succeeded. -/
structure Threads.Handles (s : Threads) : Prop where
  newest : ∀ i ∈ s.impl.mPublishThread, i + 1 = s.publish.length
  last : s.impl.mPublishThread ≠ none ↔ s.creations.getLast? = some true
  naming : s.creations ≠ [] → s.impl.mIsNaming = true

/-- A step that creates no thread. -/
structure Threads.Frame (s s' : Threads) : Prop where
  naming : s'.impl.mIsNaming = s.impl.mIsNaming
  handle : s'.impl.mPublishThread = s.impl.mPublishThread
  length : s'.publish.length = s.publish.length
  creations : s'.creations = s.creations
  finished : ∀ i : Nat, s.publish[i]? = some .done → s'.publish[i]? = some .done

/-- `destroy` creates no thread. -/
theorem Threads.frame_destroy {s s' : Threads} {ok : Bool} (h : s.destroy ok = some s') :
    s.Frame s' := by
  unfold Threads.destroy at h
  cases hPc : s.app <;> simp only [hPc] at h
  case disconnect =>
    split at h
    · split at h <;> cases h <;> exact ⟨rfl, rfl, rfl, rfl, fun _ hi => hi⟩
    · cases h
      exact ⟨rfl, rfl, rfl, rfl, fun _ hi => hi⟩
  case joinPublish =>
    split at h
    · cases h
      exact ⟨rfl, rfl, rfl, rfl, fun _ hi => hi⟩
    · split at h <;> cases h
      exact ⟨rfl, rfl, rfl, rfl, fun _ hi => hi⟩
  all_goals try split at h
  all_goals cases h
  all_goals exact ⟨rfl, rfl, rfl, rfl, fun _ hi => hi⟩

/-- Only naming messages create threads. -/
theorem Threads.frame_of_step {s s' : Threads} {a : ThreadsAct}
    (ha : ∀ calls pMsg, a ≠ .naming calls pMsg) (h : s.step a = some s') : s.Frame s' := by
  cases a with
  | naming calls pMsg => exact absurd rfl (ha calls pMsg)
  | destroy ok => exact Threads.frame_destroy h
  | dispatch ok =>
    simp only [Threads.step, Threads.dispatchThread] at h
    split at h <;> cases h <;> exact ⟨rfl, rfl, rfl, rfl, fun _ hi => hi⟩
  | control =>
    simp only [Threads.step, Threads.recvControl] at h
    split at h <;> cases h
    exact ⟨rfl, rfl, rfl, rfl, fun _ hi => hi⟩
  | publish i ok =>
    have hKeeps := Threads.keeps_publishEndpoints h
    simp only [Threads.step, Threads.publishEndpoints] at h
    split at h <;> cases h
    exact ⟨rfl, rfl, List.length_set, rfl, hKeeps.finished⟩
  | command msg =>
    simp only [Threads.step] at h
    split at h <;> cases h
    exact ⟨rfl, rfl, rfl, rfl, fun _ hi => hi⟩

theorem Threads.Handles.frame {s s' : Threads} (hHandles : s.Handles) (hFrame : s.Frame s') :
    s'.Handles :=
  ⟨by rw [hFrame.handle, hFrame.length]; exact hHandles.newest,
    by rw [hFrame.handle, hFrame.creations]; exact hHandles.last,
    by rw [hFrame.naming, hFrame.creations]; exact hHandles.naming⟩

theorem Threads.Handles.recvNaming {s s' : Threads} (hHandles : s.Handles)
    {calls : NamingCalls} {pMsg : NamingMsg} (h : s.recvNaming calls pMsg = some s') :
    s'.Handles := by
  unfold Threads.recvNaming at h
  split at h
  · rename_i hGuard
    dsimp only at h
    split at h <;> cases h
    · exact hHandles.frame ⟨rfl, rfl, rfl, rfl, fun _ hi => hi⟩
    · refine ⟨fun i hi => ?_, iff_of_false (fun hNe => hNe rfl) ?_, fun _ => hGuard.2⟩
      · cases hi
      · rw [List.getLast?_concat]
        decide
    · refine ⟨fun i hi => ?_, iff_of_true (fun hEq => ?_) List.getLast?_concat,
        fun _ => hGuard.2⟩
      · cases hi
        show s.publish.length + 1 = (s.publish ++ [PublishPc.reset]).length
        rw [List.length_append, List.length_singleton]
      · cases hEq
  · cases h

theorem Threads.Handles.step {s s' : Threads} (hHandles : s.Handles) {a : ThreadsAct}
    (h : s.step a = some s') : s'.Handles := by
  by_cases ha : ∃ calls pMsg, a = .naming calls pMsg
  · obtain ⟨calls, pMsg, rfl⟩ := ha
    exact hHandles.recvNaming h
  · refine hHandles.frame (Threads.frame_of_step (fun calls pMsg hEq => ?_) h)
    exact ha ⟨calls, pMsg, hEq⟩

-- ---------------------------------------------------------------------------
-- The phases of `destroy`
-- ---------------------------------------------------------------------------

/-- After the joins: if `stop` succeeded, the dispatch thread and the thread of
`mPublishThread` have ended; if not, the dispatch thread never ends. -/
def Threads.Joined (s : Threads) (status : MamaStatus) : Prop :=
  if status = .ok then
    s.dispatch = .done ∧ s.joins = [some .dispatch, s.impl.mPublishThread.map .publish] ∧
      ∀ i ∈ s.impl.mPublishThread, s.publish[i]? = some .done
  else s.Live ∧ ∃ handle, s.joins = [handle]

/-- What is known while `destroy` is at its place. -/
def Threads.Phase (s : Threads) : Prop :=
  match s.app with
  | .joinDispatch => s.joins = []
  | .joinPublish status =>
    if status = .ok then s.dispatch = .done ∧ s.joins = [some .dispatch]
    else s.Live ∧ s.joins = []
  | .close status => s.Joined status
  | .freed status => s.Joined status
  | .returned status => s.Joined status
  | _ => s.Live ∧ s.joins = []

section Phases

variable {s s' : Threads}

theorem Threads.Joined.keep {status : MamaStatus} (h : s.Joined status) (hKeeps : s.Keeps s') :
    s'.Joined status := by
  unfold Threads.Joined at h ⊢
  split
  · rename_i hOk
    rw [if_pos hOk] at h
    obtain ⟨hDone, hJoins, hFinished⟩ := h
    obtain ⟨hDone', hHandle⟩ := hKeeps.ended hDone
    rw [hHandle, hKeeps.joins]
    exact ⟨hDone', hJoins, fun i hi => hKeeps.finished i (hFinished i hi)⟩
  · rename_i hNot
    rw [if_neg hNot] at h
    rw [hKeeps.joins]
    exact ⟨hKeeps.live h.1, h.2⟩

/-- The other threads do not disturb a phase. -/
theorem Threads.Phase.keep (h : s.Phase) (hKeeps : s.Keeps s') : s'.Phase := by
  unfold Threads.Phase at h ⊢
  rw [hKeeps.app]
  cases hPc : s.app <;> rw [hPc] at h
  case joinDispatch => exact hKeeps.joins.trans h
  case joinPublish status =>
    dsimp only at h ⊢
    split
    · rename_i hOk
      rw [if_pos hOk] at h
      exact ⟨(hKeeps.ended h.1).1, hKeeps.joins.trans h.2⟩
    · rename_i hNot
      rw [if_neg hNot] at h
      exact ⟨hKeeps.live h.1, hKeeps.joins.trans h.2⟩
  case close status => exact h.keep hKeeps
  case freed status => exact h.keep hKeeps
  case returned status => exact h.keep hKeeps
  all_goals exact ⟨hKeeps.live h.1, hKeeps.joins.trans h.2⟩

/-- `stop` returned early. -/
theorem Threads.phase_failed {status : MamaStatus} (hApp : s.app = .joinPublish status)
    (hNot : status ≠ .ok) (hLive : s.Live) (hJoins : s.joins = []) : s.Phase := by
  unfold Threads.Phase
  rw [hApp]
  exact (if_neg hNot).mpr ⟨hLive, hJoins⟩

/-- `stop` has joined the dispatch thread. -/
theorem Threads.phase_stopped (hApp : s.app = .joinPublish .ok) (hDone : s.dispatch = .done)
    (hJoins : s.joins = [some .dispatch]) : s.Phase := by
  unfold Threads.Phase
  rw [hApp]
  exact (if_pos rfl).mpr ⟨hDone, hJoins⟩

/-- One step of `destroy` itself. -/
theorem Threads.Phase.destroy (hPhase : s.Phase) {ok : Bool} (h : s.destroy ok = some s') :
    s'.Phase := by
  unfold Threads.destroy at h
  unfold Threads.Phase at hPhase
  cases hPc : s.app <;> simp only [hPc] at h hPhase
  case running =>
    cases h
    exact ⟨⟨hPhase.1.control, hPhase.1.dispatch, hPhase.1.dispatching⟩, hPhase.2⟩
  case ready =>
    split at h <;> cases h
    exact ⟨⟨hPhase.1.control, hPhase.1.dispatch, hPhase.1.dispatching⟩, hPhase.2⟩
  case disconnect =>
    have hLive : ∀ (app : AppPc) sent, Threads.Live { s with app, sent } := fun _ _ =>
      ⟨hPhase.1.control, hPhase.1.dispatch, hPhase.1.dispatching⟩
    split at h
    · split at h
      · rename_i hFailed
        cases h
        exact Threads.phase_failed rfl hFailed (hLive _ _) hPhase.2
      · cases h
        exact ⟨hLive _ _, hPhase.2⟩
    · cases h
      exact ⟨hLive _ _, hPhase.2⟩
  case exit =>
    split at h
    · rename_i hFailed
      cases h
      exact Threads.phase_failed rfl hFailed
        ⟨hPhase.1.control, hPhase.1.dispatch, hPhase.1.dispatching⟩ hPhase.2
    · cases h
      exact hPhase.2
  case joinDispatch =>
    split at h
    · rename_i hDone
      cases h
      refine Threads.phase_stopped rfl hDone ?_
      rw [hPhase]
      rfl
    · cases h
  case joinPublish status =>
    have hJoined : ∀ handle, (∀ i ∈ s.impl.mPublishThread, s.publish[i]? = some .done) →
        handle = s.impl.mPublishThread.map ThreadId.publish →
        Threads.Joined { s with joins := s.joins ++ [handle], app := .close status } status := by
      rintro handle hFinished rfl
      unfold Threads.Joined
      split
      · rename_i hOk
        rw [if_pos hOk] at hPhase
        refine ⟨hPhase.1, ?_, hFinished⟩
        rw [hPhase.2]
        rfl
      · rename_i hNot
        rw [if_neg hNot] at hPhase
        refine ⟨⟨hPhase.1.control, hPhase.1.dispatch, hPhase.1.dispatching⟩,
          s.impl.mPublishThread.map .publish, ?_⟩
        rw [hPhase.2]
        rfl
    split at h
    · rename_i hNone
      cases h
      exact hJoined none (fun i hi => by rw [hNone] at hi; cases hi) (by rw [hNone]; rfl)
    · rename_i i hSome
      split at h
      · rename_i hFinished
        cases h
        refine hJoined (some (.publish i)) (fun j hj => ?_) (by rw [hSome]; rfl)
        rw [hSome] at hj
        cases hj
        exact hFinished
      · cases h
  case close status =>
    cases h
    have hJoined : ∀ app, Threads.Joined { s with app } status := by
      intro app
      unfold Threads.Joined at hPhase ⊢
      split
      · rename_i hOk
        rw [if_pos hOk] at hPhase
        exact hPhase
      · rename_i hNot
        rw [if_neg hNot] at hPhase
        exact ⟨⟨hPhase.1.control, hPhase.1.dispatch, hPhase.1.dispatching⟩, hPhase.2⟩
    cases ok <;> exact hJoined _
  case freed => cases h
  case returned => cases h

/-- What holds in every run. -/
structure Threads.Inv (s : Threads) : Prop where
  handles : s.Handles
  phase : s.Phase

theorem Threads.Inv.step (hInv : s.Inv) {a : ThreadsAct} (h : s.step a = some s') :
    s'.Inv := by
  refine ⟨hInv.handles.step h, ?_⟩
  by_cases ha : ∃ ok, a = .destroy ok
  · obtain ⟨ok, rfl⟩ := ha
    exact hInv.phase.destroy h
  · exact hInv.phase.keep (Threads.keeps_of_step (not_exists.mp ha) h)

theorem Threads.inv_init (mIsNaming : Bool) (mBeaconInterval : Nat)
    (mUuid mPubEndpoint : List Byte) (mNamingConnectRetries : Int) :
    (Threads.init mIsNaming mBeaconInterval mUuid mPubEndpoint mNamingConnectRetries).Inv := by
  refine ⟨⟨fun i hi => ?_, iff_of_false (fun h => h rfl) ?_, fun h => absurd rfl h⟩,
    ⟨fun msg h => ?_, DispatchPc.noConfusion, Or.inl rfl⟩, rfl⟩
  · cases hi
  · exact fun h => by cases h
  · cases h

-- ---------------------------------------------------------------------------
-- When the transport is freed
-- ---------------------------------------------------------------------------

/-- All `publishEndpoints` threads but the newest have ended. -/
def Threads.EarlierDone (s : Threads) : Prop :=
  ∀ i : Nat, i + 1 < s.publish.length → s.publish[i]? = some .done

/-- If `stop` succeeded and `mPublishThread` was joined, the newest thread has
ended too. -/
theorem Threads.Inv.all_done (hInv : s.Inv) (hJoined : s.Joined .ok)
    (hHandle : s.impl.mPublishThread ≠ none) (hEarlier : s.EarlierDone) :
    ∀ pc ∈ s.publish, pc = .done := by
  obtain ⟨-, -, hFinished⟩ := (if_pos rfl).mp hJoined
  obtain ⟨i, hi⟩ := Option.ne_none_iff_exists'.mp hHandle
  have hNewest := hInv.handles.newest i hi
  intro pc hpc
  obtain ⟨k, hk⟩ := List.mem_iff_getElem?.mp hpc
  have hLt := (List.getElem?_eq_some_iff.mp hk).1
  have hDone : s.publish[k]? = some .done := by
    rcases Nat.lt_or_ge (k + 1) s.publish.length with hk' | hk'
    · exact hEarlier k hk'
    · have hEq : k = i := by omega
      rw [hEq]
      exact hFinished i hi
  rw [hDone] at hk
  exact (Option.some.inj hk).symm

/-- The joins of a `destroy` whose `stop` succeeded. -/
theorem Threads.Inv.joins_ok (hInv : s.Inv) (hJoined : s.Joined .ok)
    (hHandle : s.impl.mPublishThread ≠ none) :
    (∀ handle ∈ s.joins, s.Created handle) ∧ s.joins.Nodup := by
  obtain ⟨-, hJoins, -⟩ := (if_pos rfl).mp hJoined
  obtain ⟨i, hi⟩ := Option.ne_none_iff_exists'.mp hHandle
  have hNewest := hInv.handles.newest i hi
  rw [hJoins, hi]
  refine ⟨fun handle hMem => ?_, by simp⟩
  rcases List.mem_cons.mp hMem with rfl | hMem
  · exact trivial
  · rw [List.mem_singleton.mp hMem]
    show i < s.publish.length
    omega

/-- **When freeing is safe**: exactly when `stop` succeeded, the last attempt to
create a `publishEndpoints` thread succeeded, and all earlier ones have ended. -/
theorem Threads.Inv.freed_safe_iff (hInv : s.Inv) {status : MamaStatus}
    (hFreed : s.app = .freed status) :
    s.Safe ↔ status = .ok ∧ s.creations.getLast? = some true ∧ s.EarlierDone := by
  have hJoined : s.Joined status := by
    have hPhase := hInv.phase
    unfold Threads.Phase at hPhase
    rw [hFreed] at hPhase
    exact hPhase
  constructor
  · rintro ⟨hDone, hCreated, -⟩
    obtain ⟨hDispatch, hPublish⟩ := hDone (by rw [hFreed]; rfl)
    have hOk : status = .ok := by
      by_contra hNot
      exact ((if_neg hNot).mp hJoined).1.dispatch hDispatch
    subst hOk
    obtain ⟨-, hJoins, -⟩ := (if_pos rfl).mp hJoined
    refine ⟨rfl, hInv.handles.last.mp fun hNone => ?_, fun i hi => ?_⟩
    · have := hCreated none (by rw [hJoins, hNone]; simp)
      exact this
    · have hLt : i < s.publish.length := by omega
      rw [List.getElem?_eq_getElem hLt, hPublish _ (List.getElem_mem hLt)]
  · rintro ⟨rfl, hLast, hEarlier⟩
    have hHandle := hInv.handles.last.mpr hLast
    exact ⟨fun _ => ⟨((if_pos rfl).mp hJoined).1, hInv.all_done hJoined hHandle hEarlier⟩,
      hInv.joins_ok hJoined hHandle⟩

-- ---------------------------------------------------------------------------
-- Runs that meet the condition
-- ---------------------------------------------------------------------------

/-- `stop` did not fail, and `mPublishThread` was the handle of a thread when it
was joined. -/
def Threads.Succeeds (s : Threads) : Prop :=
  match s.app with
  | .joinPublish status => status = .ok
  | .close status => status = .ok ∧ s.impl.mPublishThread ≠ none
  | .freed status => status = .ok ∧ s.impl.mPublishThread ≠ none
  | .returned status => status = .ok ∧ s.impl.mPublishThread ≠ none
  | _ => True

/-- After the joins the dispatch thread has ended, so nothing is created any
more. -/
theorem Threads.Succeeds.keep (hInv : s.Inv) (h : s.Succeeds) (hKeeps : s.Keeps s') :
    s'.Succeeds := by
  have hSame : ∀ status, s.Joined status → status = .ok ∧ s.impl.mPublishThread ≠ none →
      status = .ok ∧ s'.impl.mPublishThread ≠ none := by
    rintro status hJoined ⟨rfl, hHandle⟩
    rw [(hKeeps.ended ((if_pos rfl).mp hJoined).1).2]
    exact ⟨rfl, hHandle⟩
  have hPhase := hInv.phase
  unfold Threads.Phase at hPhase
  unfold Threads.Succeeds at h ⊢
  rw [hKeeps.app]
  cases hPc : s.app <;> rw [hPc] at h hPhase
  case close status => exact hSame status hPhase h
  case freed status => exact hSame status hPhase h
  case returned status => exact hSame status hPhase h
  all_goals exact h

theorem Threads.Succeeds.destroy (hInv : s.Inv) (hSucceeds : s.Succeeds) {ok : Bool}
    (hMeets : s.Meets (.destroy ok)) (h : s.destroy ok = some s') : s'.Succeeds := by
  unfold Threads.destroy at h
  unfold Threads.Succeeds at hSucceeds
  unfold Threads.Meets at hMeets
  cases hPc : s.app <;> simp only [hPc] at h hSucceeds hMeets
  case disconnect =>
    split at h
    · rename_i hNaming
      rw [hMeets hNaming] at h
      cases h
      trivial
    · cases h
      trivial
  case exit =>
    rw [hMeets] at h
    cases h
    trivial
  case joinPublish status =>
    have hHandle := hInv.handles.last.mpr hMeets
    split at h
    · cases h
      exact ⟨hSucceeds, hHandle⟩
    · split at h <;> cases h
      exact ⟨hSucceeds, hHandle⟩
  case joinDispatch =>
    split at h <;> cases h
    exact rfl
  case close status =>
    cases h
    cases ok <;> exact hSucceeds
  case ready =>
    split at h <;> cases h
    trivial
  all_goals cases h
  all_goals trivial

theorem Threads.Succeeds.step (h : s.Succeeds) (hInv : s.Inv) {a : ThreadsAct}
    (hMeets : s.Meets a) (hStep : s.step a = some s') : s'.Succeeds := by
  by_cases ha : ∃ ok, a = .destroy ok
  · obtain ⟨ok, rfl⟩ := ha
    exact h.destroy hInv hMeets hStep
  · exact h.keep hInv (Threads.keeps_of_step (not_exists.mp ha) hStep)

theorem Threads.EarlierDone.frame (h : s.EarlierDone) (hFrame : s.Frame s') :
    s'.EarlierDone := by
  intro i hi
  rw [hFrame.length] at hi
  exact hFrame.finished i (h i hi)

/-- A new thread is created when the others have ended. -/
theorem Threads.EarlierDone.recvNaming (h : s.EarlierDone) {calls : NamingCalls}
    {pMsg : NamingMsg} (hMeets : s.Meets (.naming calls pMsg))
    (hStep : s.recvNaming calls pMsg = some s') : s'.EarlierDone := by
  have hKeeps := Threads.keeps_recvNaming hStep
  unfold Threads.recvNaming at hStep
  split at hStep
  · dsimp only at hStep
    split at hStep
    · cases hStep
      exact h.frame ⟨rfl, rfl, rfl, rfl, fun _ hi => hi⟩
    · cases hStep
      exact h
    · rename_i hThread
      have hAll := hMeets (dispatchNamingMsg_thread hThread)
      cases hStep
      intro i hi
      have hLt : i < s.publish.length := by
        have hLength : i + 1 < (s.publish ++ [PublishPc.reset]).length := hi
        rw [List.length_append, List.length_singleton] at hLength
        omega
      refine hKeeps.finished i ?_
      rw [List.getElem?_eq_getElem hLt, hAll _ (List.getElem_mem hLt)]
  · cases hStep

theorem Threads.EarlierDone.step (h : s.EarlierDone) {a : ThreadsAct} (hMeets : s.Meets a)
    (hStep : s.step a = some s') : s'.EarlierDone := by
  by_cases ha : ∃ calls pMsg, a = .naming calls pMsg
  · obtain ⟨calls, pMsg, rfl⟩ := ha
    exact h.recvNaming hMeets hStep
  · refine h.frame (Threads.frame_of_step (fun calls pMsg hEq => ?_) hStep)
    exact ha ⟨calls, pMsg, hEq⟩

/-- What was joined so far, whatever `destroy` is at. -/
theorem Threads.Inv.safe (hInv : s.Inv) (hSucceeds : s.Succeeds) (hEarlier : s.EarlierDone) :
    s.Safe := by
  have hClosed : ∀ {status}, s.Joined status → status = .ok ∧ s.impl.mPublishThread ≠ none →
      s.Safe := by
    rintro status hJoined ⟨rfl, hHandle⟩
    exact ⟨fun _ => ⟨((if_pos rfl).mp hJoined).1, hInv.all_done hJoined hHandle hEarlier⟩,
      hInv.joins_ok hJoined hHandle⟩
  have hOpen : s.app.isFreed = false → s.joins = [] → s.Safe := by
    intro hApp hJoins
    rw [Threads.Safe, hApp, hJoins]
    exact ⟨fun h => absurd h Bool.false_ne_true, List.forall_mem_nil _, List.nodup_nil⟩
  have hPhase := hInv.phase
  unfold Threads.Phase at hPhase
  unfold Threads.Succeeds at hSucceeds
  cases hPc : s.app <;> rw [hPc] at hPhase hSucceeds
  case close status => exact hClosed hPhase hSucceeds
  case freed status => exact hClosed hPhase hSucceeds
  case returned status => exact hClosed hPhase hSucceeds
  case joinDispatch => exact hOpen (by rw [hPc]; rfl) hPhase
  case joinPublish status =>
    obtain ⟨-, hJoins⟩ := (if_pos hSucceeds).mp hPhase
    rw [Threads.Safe, hPc, hJoins]
    refine ⟨fun h => absurd h Bool.false_ne_true, fun handle hMem => ?_,
      List.nodup_singleton _⟩
    rw [List.mem_singleton.mp hMem]
    trivial
  all_goals exact hOpen (by rw [hPc]; rfl) hPhase.2

end Phases

/-- A naming transport with four attempts to publish its endpoint. -/
def namingThreads : Threads := Threads.init true 0 [1] [2] 4

/-- A welcome message. -/
def welcome : ThreadsAct := .naming .allOk ⟨typeWelcome, [9], [3]⟩

/-- The dispatch thread up to its naming messages, with no beacon due. -/
def startDispatch : List ThreadsAct :=
  [.dispatch true, .dispatch true, .dispatch true, .dispatch true, .dispatch true,
    .dispatch false, .dispatch true]

/-- The dispatch thread handles the 'X' and ends. -/
def endDispatch : List ThreadsAct :=
  [.dispatch true, .dispatch true, .dispatch true, .dispatch true, .dispatch true, .control,
    .dispatch true, .dispatch true, .dispatch true, .dispatch true]

/-- `stop`, up to the join of the dispatch thread. -/
def startStop : List ThreadsAct :=
  [.destroy true, .destroy true, .destroy true, .destroy true]

/-- One welcome message, and a `publishEndpoints` thread that gives up when
dispatching ends. -/
def oneWelcome : List ThreadsAct :=
  startDispatch ++ [welcome, .publish 0 true, .publish 0 true, .publish 0 true,
    .publish 0 true] ++ startStop ++ endDispatch ++
    [.destroy true, .publish 0 true, .destroy true, .destroy true]

/-- A run of `destroy` with nothing to publish. -/
def noWelcome : List ThreadsAct :=
  startDispatch ++ startStop ++ endDispatch ++ [.destroy true, .destroy true, .destroy true]

/-- The second thread ends, the first has not begun. -/
def twoWelcomes : List ThreadsAct :=
  startDispatch ++ [welcome, welcome] ++ startStop ++ endDispatch ++
    [.destroy true, .publish 1 true, .publish 1 true, .destroy true, .destroy true]

end ZmqBridge
