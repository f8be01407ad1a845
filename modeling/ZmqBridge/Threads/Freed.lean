import ZmqBridge.Threads.Close

/-!
# ZmqBridge — is a transport freed under its threads?

The threads of a transport with the locks of its sockets, in any interleaving, with any
number of welcome messages and any outcome of the calls they make. If `stop` fails,
`zmqBridgeMamaTransport_destroy` goes on without the dispatch thread having ended; but
once that thread has its locks, `destroy` waits for them forever and frees nothing.

* `transport_outlives_threads` — when the threads have ended as the transport is freed: a
  send of `stop` only fails when the dispatch thread has its locks, the last attempt to
  create a `publishEndpoints` thread succeeded, and each such thread had ended before the
  next was created;
* `transport_freed_early`      — none of this is enforced.
-/

namespace ZmqBridge

open Lib

variable {κ : Type}

/-- `destroy` is about to send in `zmqBridgeMamaTransportImpl_stop`. -/
def Threads.Stopping (s : Threads) : ThreadsAct → Prop
  | .destroy _ => s.app = .disconnect ∨ s.app = .exit
  | _ => False

instance (s : Threads) (a : ThreadsAct) : Decidable (s.Stopping a) :=
  match a with
  | .destroy _ => inferInstanceAs (Decidable (_ ∨ _))
  | .dispatch _ => isFalse id
  | .control => isFalse id
  | .naming _ _ => isFalse id
  | .publish _ _ => isFalse id
  | .command _ => isFalse id

/-- As `Threads.Meets`, except that a send of `stop` may fail once the dispatch thread has
its locks. -/
def LockedThreads.Spares (s : LockedThreads κ) : LockedAct κ → Prop
  | .effect t => ∀ a ∈ (s.pending t).map Prod.fst,
      s.threads.Meets a ∨ (s.threads.Stopping a ∧ s.threads.dispatch.locked = true)
  | _ => True

instance (s : LockedThreads κ) (act : LockedAct κ) : Decidable (s.Spares act) :=
  match act with
  | .begin _ _ => isTrue trivial
  | .publish _ => isTrue trivial
  | .exec _ => isTrue trivial
  | .effect _ => inferInstanceAs (Decidable (∀ _ ∈ Option.map _ _, _))

-- ---------------------------------------------------------------------------
-- Steps of the threads
-- ---------------------------------------------------------------------------

section Steps

variable {s s' : Threads} {a : ThreadsAct}

theorem Threads.Stopping.eq_destroy (h : s.Stopping a) : ∃ ok, a = .destroy ok := by
  cases a with
  | destroy ok => exact ⟨ok, rfl⟩
  | dispatch ok => exact h.elim
  | control => exact h.elim
  | naming calls pMsg => exact h.elim
  | publish i ok => exact h.elim
  | command msg => exact h.elim

/-- A send of `stop` succeeds, or `destroy` goes on with its status. -/
theorem Threads.stop_step {ok : Bool} (hApp : s.app = .disconnect ∨ s.app = .exit)
    (h : s.destroy ok = some s') :
    s'.joins = s.joins ∧
      (s'.Succeeds ∨ ∃ status, status ≠ .ok ∧ s'.app = .joinPublish status) := by
  unfold Threads.destroy at h
  rcases hApp with hApp | hApp <;> simp only [hApp] at h
  · split at h
    · split at h
      · rename_i hFailed
        cases h
        exact ⟨rfl, Or.inr ⟨_, hFailed, rfl⟩⟩
      · cases h
        exact ⟨rfl, Or.inl trivial⟩
    · cases h
      exact ⟨rfl, Or.inl trivial⟩
  · split at h
    · rename_i hFailed
      cases h
      exact ⟨rfl, Or.inr ⟨_, hFailed, rfl⟩⟩
    · cases h
      exact ⟨rfl, Or.inl trivial⟩

/-- Threads are never forgotten. -/
theorem Threads.publish_length_le (h : s.step a = some s') :
    s.publish.length ≤ s'.publish.length := by
  by_cases ha : ∃ calls pMsg, a = .naming calls pMsg
  · obtain ⟨calls, pMsg, rfl⟩ := ha
    simp only [Threads.step, Threads.recvNaming] at h
    split at h
    · split at h <;> cases h <;> simp
    · cases h
  · exact (Threads.frame_of_step (fun calls pMsg hEq => ha ⟨calls, pMsg, hEq⟩) h).length.ge

theorem Threads.Created.step {handle : Option ThreadId} (h : s.Created handle)
    (hStep : s.step a = some s') : s'.Created handle := by
  rcases handle with _ | _ | i
  · exact h
  · exact h
  · exact Nat.lt_of_lt_of_le h (Threads.publish_length_le hStep)

/-- The handle that is joined is that of a thread if the last one was created. -/
theorem Threads.Inv.join (hInv : s.Inv) {ok : Bool} {status : MamaStatus}
    (hApp : s.app = .joinPublish status) (hStatus : status ≠ .ok)
    (hLast : s.creations.getLast? = some true) (h : s.step (.destroy ok) = some s') :
    ∀ handle ∈ s'.joins, s'.Created handle := by
  have hJoins : s.joins = [] := by
    have hPhase := hInv.phase
    unfold Threads.Phase at hPhase
    rw [hApp] at hPhase
    exact ((if_neg hStatus).mp hPhase).2
  obtain ⟨i, hi⟩ := Option.ne_none_iff_exists'.mp (hInv.handles.last.mpr hLast)
  have hNewest := hInv.handles.newest i hi
  simp only [Threads.step, Threads.destroy, hApp, hi] at h
  split at h <;> cases h
  intro handle hMem
  rw [hJoins] at hMem
  obtain rfl := List.mem_singleton.mp hMem
  show i < s.publish.length
  omega

end Steps

-- ---------------------------------------------------------------------------
-- Runs that meet the condition
-- ---------------------------------------------------------------------------

section Runs

variable [DecidableEq κ] {s s' : LockedThreads κ}

/-- `destroy` hangs and has only joined threads. -/
def LockedThreads.Hung (s : LockedThreads κ) : Prop :=
  ∃ status, status ≠ .ok ∧ s.Stuck status ∧
    ∀ handle ∈ s.threads.joins, s.threads.Created handle

theorem LockedThreads.Hung.safe (h : s.Hung) (hInv : s.Inv) : s.threads.Safe := by
  obtain ⟨status, hStatus, hStuck, hCreated⟩ := h
  have hPhase := hInv.threads.phase
  unfold Threads.Phase Threads.Joined at hPhase
  unfold Threads.Safe
  rcases hStuck.app with hJoin | ⟨hClose, -⟩
  · rw [hJoin] at hPhase ⊢
    rw [((if_neg hStatus).mp hPhase).2] at hCreated ⊢
    exact ⟨fun hFreed => absurd hFreed Bool.false_ne_true, hCreated, List.nodup_nil⟩
  · rw [hClose] at hPhase ⊢
    obtain ⟨handle, hJoins⟩ := ((if_neg hStatus).mp hPhase).2
    rw [hJoins] at hCreated ⊢
    exact ⟨fun hFreed => absurd hFreed Bool.false_ne_true, hCreated, List.nodup_singleton handle⟩

/-- A `destroy` that hangs does so for good. -/
theorem LockedThreads.Hung.move (h : s.Hung) (hInv : s.Inv) {act : LockedAct κ}
    (hSpares : s.Spares act) (hMove : s.Moves act s') : s'.Hung := by
  obtain ⟨status, hStatus, hStuck, hCreated⟩ := h
  refine ⟨status, hStatus, hStuck.move hInv hStatus hMove, ?_⟩
  cases hMove with
  | begin hTodo hPending hSome => exact hCreated
  | publish hTodo hPending => exact hCreated
  | undefined hTodo hExec => exact hCreated
  | exec hTodo hExec => exact hCreated
  | @effect t a ops threads hTodo hPending hStep =>
    obtain ⟨k, hOwner⟩ := hInv.ordered.owner t a ops hPending
    by_cases ht : t = .app
    · subst ht
      obtain ⟨ok, rfl⟩ := ThreadsAct.eq_destroy hOwner
      rcases hStuck.app with hJoin | ⟨-, hNone | hAll⟩
      · refine hInv.threads.join hJoin hStatus ?_ hStep
        rcases hSpares _ (by rw [hPending]; rfl) with hMeets | ⟨hStopping, -⟩
        · simpa only [Threads.Meets, hJoin] using hMeets
        · rcases hStopping with hApp | hApp <;> rw [hJoin] at hApp <;> cases hApp
      · rw [hPending] at hNone
        cases hNone
      · rw [hTodo] at hAll
        cases hAll
    · have hNot : ∀ ok, a ≠ .destroy ok := by
        rintro ok rfl
        exact ht hOwner.symm
      intro handle hMem
      rw [(Threads.keeps_of_step hNot hStep).joins] at hMem
      exact (hCreated handle hMem).step hStep

theorem LockedThreads.earlierDone_move (hEarlier : s.threads.EarlierDone) {act : LockedAct κ}
    (hSpares : s.Spares act) (hMove : s.Moves act s') : s'.threads.EarlierDone := by
  cases hMove with
  | begin hTodo hPending hSome => exact hEarlier
  | publish hTodo hPending => exact hEarlier
  | undefined hTodo hExec => exact hEarlier
  | exec hTodo hExec => exact hEarlier
  | @effect t a ops threads hTodo hPending hStep =>
    rcases hSpares a (by rw [hPending]; rfl) with hMeets | ⟨hStopping, -⟩
    · exact hEarlier.step hMeets hStep
    · obtain ⟨ok, rfl⟩ := hStopping.eq_destroy
      exact hEarlier.frame (Threads.frame_destroy hStep)

/-- `stop` goes on without a failure, or it fails and `destroy` hangs. -/
theorem LockedThreads.succeeds_move (hInv : s.Inv) (hSucceeds : s.threads.Succeeds)
    {act : LockedAct κ} (hSpares : s.Spares act) (hMove : s.Moves act s') :
    s'.threads.Succeeds ∨ s'.Hung := by
  cases hMove with
  | begin hTodo hPending hSome => exact Or.inl hSucceeds
  | publish hTodo hPending => exact Or.inl hSucceeds
  | undefined hTodo hExec => exact Or.inl hSucceeds
  | exec hTodo hExec => exact Or.inl hSucceeds
  | @effect t a ops threads hTodo hPending hStep =>
    rcases hSpares a (by rw [hPending]; rfl) with hMeets | ⟨hStopping, hLocked⟩
    · exact Or.inl (hSucceeds.step hInv.threads hMeets hStep)
    · obtain ⟨ok, rfl⟩ := hStopping.eq_destroy
      obtain ⟨hJoins, hOk | ⟨status, hStatus, hApp⟩⟩ := Threads.stop_step hStopping hStep
      · exact Or.inl hOk
      · have hNil : s.threads.joins = [] := by
          have hPhase := hInv.threads.phase
          unfold Threads.Phase at hPhase
          rcases hStopping with hPc | hPc <;> rw [hPc] at hPhase <;> exact hPhase.2
        refine Or.inr ⟨status, hStatus, ⟨?_, Or.inl hApp⟩, ?_⟩
        · exact (Threads.destroy_frame hStep).1.symm ▸ hLocked
        · show ∀ handle ∈ threads.joins, _
          rw [hJoins, hNil]
          exact List.forall_mem_nil _

/-- **One step**: the earlier threads have ended, and `stop` has not failed or `destroy`
hangs. -/
theorem LockedThreads.spared_step (hInv : s.Inv) (hEarlier : s.threads.EarlierDone)
    (h : s.threads.Succeeds ∨ s.Hung) {act : LockedAct κ} (hSpares : s.Spares act)
    (hMove : s.Moves act s') :
    s'.threads.EarlierDone ∧ (s'.threads.Succeeds ∨ s'.Hung) := by
  refine ⟨LockedThreads.earlierDone_move hEarlier hSpares hMove, ?_⟩
  rcases h with hSucceeds | hHung
  · exact LockedThreads.succeeds_move hInv hSucceeds hSpares hMove
  · exact Or.inr (hHung.move hInv hSpares hMove)

variable {mIsNaming : Bool} {mBeaconInterval : Nat} {mUuid mPubEndpoint : List Byte}
  {mNamingConnectRetries : Int} {as : List (LockedAct κ)}

/--
**When a transport outlives its threads.** In every run in which the sends of `stop`
succeed, or fail when the dispatch thread has its locks, each `publishEndpoints` thread is
created when the earlier ones have ended, and the last `wthread_create` before the join
succeeded, the threads have ended when the transport is freed, and only threads are
joined, each once.

In any run that frees the transport this is so exactly if `stop` succeeded, the last
`wthread_create` succeeded (so the transport is a naming transport that got a welcome
message) and all `publishEndpoints` threads but the newest have ended: nothing but the
sends and the last thread is waited for.
-/
theorem transport_outlives_threads
    (hRun : run LockedThreads.step (.start mIsNaming mBeaconInterval mUuid mPubEndpoint
      mNamingConnectRetries) as = some s) :
    (StepsMeet LockedThreads.step LockedThreads.Spares (.start mIsNaming mBeaconInterval mUuid
        mPubEndpoint mNamingConnectRetries) as →
      Along LockedThreads.step (fun s => s.threads.Safe) (.start mIsNaming mBeaconInterval
        mUuid mPubEndpoint mNamingConnectRetries) as) ∧
    (∀ status, s.threads.app = .freed status →
      (s.threads.Safe ↔
        status = .ok ∧ s.threads.creations.getLast? = some true ∧ s.threads.EarlierDone)) ∧
    (s.threads.creations ≠ [] → s.threads.impl.mIsNaming = true) := by
  have hInv := (LockedThreads.inv_of_run hRun).threads
  refine ⟨fun hMeet => along_of_stepsMeet (fun {as s} hRun hMeet => ?_) hMeet,
    fun status hFreed => hInv.freed_safe_iff hFreed, hInv.handles.naming⟩
  obtain ⟨hEarlier, hSucceeds | hHung⟩ :
      s.threads.EarlierDone ∧ (s.threads.Succeeds ∨ s.Hung) := by
    refine run_induction_meet
      (P := fun _ s => s.threads.EarlierDone ∧ (s.threads.Succeeds ∨ s.Hung))
      ⟨fun i hi => absurd hi (Nat.not_lt_zero _), Or.inl trivial⟩ ?_ hRun hMeet
    rintro as s act s' hAs ⟨hEarlier, h⟩ hSpares hStep
    exact LockedThreads.spared_step (LockedThreads.inv_of_run hAs) hEarlier h hSpares
      (LockedThreads.moves_of_step hStep).2
  · exact (LockedThreads.inv_of_run hRun).threads.safe hSucceeds hEarlier
  · exact hHung.safe (LockedThreads.inv_of_run hRun)

end Runs

theorem outlives_oneWelcome :
    (∃ s, run LockedThreads.step (.start true 0 [1] [2] 4) (inTurn namingThreads oneWelcome) =
        some s ∧ s.threads.app = .freed .ok) ∧
      Along LockedThreads.step (fun s => s.threads.Safe) (.start true 0 [1] [2] 4)
        (inTurn namingThreads oneWelcome) := by
  obtain ⟨s, hRun, hFreed⟩ : ∃ s, run LockedThreads.step (.start true 0 [1] [2] 4)
      (inTurn namingThreads oneWelcome) = some s ∧ s.threads.app = .freed .ok :=
    exists_run (by decide +kernel)
  exact ⟨⟨s, hRun, hFreed⟩, (transport_outlives_threads hRun).1
    (stepsMeet_of_meetsAll (by decide +kernel))⟩

/-- The 'D' cannot be sent, before the dispatch thread takes its locks. -/
def disconnectUnsentEarly : List ThreadsAct :=
  [.dispatch true, .dispatch true, .destroy true, .destroy true, .destroy false, .destroy true,
    .destroy true]

/-- **A transport is freed under its threads.** The handle that is joined is not that of a
thread if the transport is not a naming transport, or got no welcome message; if the 'D'
or the 'X' cannot be sent, the dispatch thread may be about to take its locks; with two
welcome messages the first `publishEndpoints` thread may still be running. -/
theorem transport_freed_early :
    (∃ s, run LockedThreads.step (.start false 0 [1] [2] 4)
        (inTurn (Threads.init false 0 [1] [2] 4) noWelcome) = some s ∧
      none ∈ s.threads.joins ∧ ¬ s.threads.Safe) ∧
    (∃ s, run LockedThreads.step (.start true 0 [1] [2] 4) (inTurn namingThreads noWelcome) =
        some s ∧ none ∈ s.threads.joins ∧ ¬ s.threads.Safe) ∧
    (∃ s, run LockedThreads.step (.start true 0 [1] [2] 4)
        (inTurn namingThreads disconnectUnsentEarly) = some s ∧
      s.threads.app = .freed .platform ∧ s.threads.dispatch = .setBeacon ∧ ¬ s.threads.Safe) ∧
    (∃ s, run LockedThreads.step (.start true 0 [1] [2] 4)
        (inTurn namingThreads exitUnsentEarly) = some s ∧
      s.threads.app = .freed .platform ∧ s.threads.dispatch = .setBeacon ∧ ¬ s.threads.Safe) ∧
    ∃ s, run LockedThreads.step (.start true 0 [1] [2] 4) (inTurn namingThreads twoWelcomes) =
        some s ∧ s.threads.app = .freed .ok ∧ s.threads.publish = [.reset, .done] ∧
      ¬ s.threads.Safe :=
  ⟨exists_run (by decide +kernel), exists_run (by decide +kernel),
    exists_run (by decide +kernel), exists_run (by decide +kernel),
    exists_run (by decide +kernel)⟩

end ZmqBridge
