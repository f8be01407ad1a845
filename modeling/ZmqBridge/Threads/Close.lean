import ZmqBridge.Threads.Sockets

/-!
# ZmqBridge — destroying a transport whose sockets are locked

`zmqBridgeMamaTransport_destroy` closes the sockets whatever became of the threads, but
it takes the lock of each, and the dispatch thread has that of the data socket for as
long as it runs. So what a failed `stop` leads to depends on which of the two was first.

* `destroy_hangs`          — if the dispatch thread was, `destroy` never returns;
* `destroy_before_locks`   — so if `destroy` does return, the dispatch thread has ended,
  or has not taken its locks;
* `sockets_outlive_users`  — if `stop` succeeds and nobody else uses the transport any
  more, no socket is used after it is closed.
-/

namespace ZmqBridge

open Lib

variable {κ : Type}

-- ---------------------------------------------------------------------------
-- Steps in turn
-- ---------------------------------------------------------------------------

/-- The threads take their steps one after another, each with what it does to the
sockets. -/
def inTurn : Threads → List ThreadsAct → List (LockedAct Unit)
  | _, [] => []
  | s, a :: as =>
    match s.step a with
    | none => []
    | some s' =>
      .begin a () :: (s.socketOps a).before.map (fun _ => .exec (a.thread ())) ++
        .effect (a.thread ()) :: (s.socketOps a).after.map (fun _ => .exec (a.thread ())) ++
        inTurn s' as

-- ---------------------------------------------------------------------------
-- The dispatch thread keeps its locks
-- ---------------------------------------------------------------------------

theorem Threads.Live.dispatching_of_locked {s : Threads} (h : s.Live)
    (hLocked : s.dispatch.locked = true) : s.impl.naming.mIsDispatching = true := by
  refine h.dispatching.resolve_left fun hStart => ?_
  rw [hStart] at hLocked
  cases hLocked

/-- A dispatch thread that nobody stopped does not give its locks back. -/
theorem Threads.willLock_of_locked {s : Threads} (hLocked : s.dispatch.locked = true)
    (hOn : s.impl.naming.mIsDispatching = true) :
    s.willLock (.dispatch : SocketThread κ) = true := by
  unfold Threads.willLock
  cases hPc : s.dispatch <;> rw [hPc] at hLocked <;> first | exact hOn | exact hLocked

section Locks

variable [DecidableEq κ] {s s' : LockedThreads κ} {status : MamaStatus}

theorem LockedThreads.Ordered.has_dataSub (h : s.Ordered)
    (hLocked : s.threads.dispatch.locked = true)
    (hOn : s.threads.impl.naming.mIsDispatching = true) :
    0 < s.sync.depth .dispatch .dataSub := by
  have hWill : s.willLock .dispatch = true := by
    unfold LockedThreads.willLock
    split
    · exact Threads.willLock_of_locked hLocked hOn
    · exact hLocked
  have hLow := (h.orderly .dispatch).low_le .dataSub
  have hOne : ∀ n, lockCounts n true .dataSub = 1 := by decide
  rw [hWill, show s.threads.locked (.dispatch : SocketThread κ) = true from hLocked, min_self,
    hOne] at hLow
  exact hLow

/-- `stop` has failed and the dispatch thread goes on. -/
theorem Threads.Inv.live {s : Threads} (h : s.Inv) (hStatus : status ≠ .ok)
    (hApp : s.app = .joinPublish status ∨ s.app = .close status ∨ s.app = .freed status ∨
      s.app = .returned status) : s.Live := by
  have hPhase := h.phase
  unfold Threads.Phase Threads.Joined at hPhase
  rcases hApp with hApp | hApp | hApp | hApp <;> simp only [hApp, if_neg hStatus] at hPhase <;>
    exact hPhase.1

end Locks

section Hang

variable [DecidableEq κ] {mIsNaming : Bool} {mBeaconInterval : Nat}
  {mUuid mPubEndpoint : List Byte} {mNamingConnectRetries : Int} {as bs : List (LockedAct κ)}
  {s s' : LockedThreads κ} {status : MamaStatus}

/-- `stop` has failed, and the dispatch thread has the lock of the socket that `destroy`
is going to close first. -/
structure LockedThreads.Stuck (s : LockedThreads κ) (status : MamaStatus) : Prop where
  locked : s.threads.dispatch.locked = true
  app : s.threads.app = .joinPublish status ∨ (s.threads.app = .close status ∧
    (s.pending .app = none ∨ s.todo .app = closeOps s.threads.impl.mIsNaming))

theorem LockedThreads.Stuck.live (h : s.Stuck status) (hInv : s.Inv) (hStatus : status ≠ .ok) :
    s.threads.Live :=
  hInv.threads.live hStatus (h.app.imp_right fun hClose => Or.inl hClose.1)

/-- `destroy` waits for the first lock. -/
theorem LockedThreads.Stuck.waits (h : s.Stuck status) (hInv : s.Inv) (hStatus : status ≠ .ok)
    (hTodo : s.todo .app = closeOps s.threads.impl.mIsNaming) {op : SyncOp SocketName}
    {ops : List (SyncOp SocketName)} (hOp : s.todo .app = op :: ops) :
    op = .lock .dataSub ∧ s.sync.exec .app op = .waits := by
  have hFirst : ∀ n, ∃ rest, closeOps n = .lock .dataSub :: rest := by
    intro n
    exact ⟨_, rfl⟩
  obtain ⟨rest, hRest⟩ := hFirst s.threads.impl.mIsNaming
  rw [hTodo, hRest, List.cons.injEq] at hOp
  obtain ⟨n, hHeld⟩ := held_of_depth_pos (hInv.ordered.has_dataSub h.locked
    ((h.live hInv hStatus).dispatching_of_locked h.locked))
  rw [← hOp.1]
  exact ⟨rfl, by simp [Sync.exec, hHeld]⟩

/-- Whatever happens next, it stays so. -/
theorem LockedThreads.Stuck.move (h : s.Stuck status) (hInv : s.Inv) (hStatus : status ≠ .ok)
    {act : LockedAct κ} (hMove : s.Moves act s') : s'.Stuck status := by
  cases hMove with
  | @begin a k hTodo hPending hSome =>
    refine ⟨h.locked, h.app.imp_right fun ⟨hClose, hIdle⟩ => ⟨hClose, ?_⟩⟩
    by_cases hApp : a.thread k = .app
    · obtain ⟨ok, rfl⟩ := ThreadsAct.eq_destroy hApp
      refine Or.inr ?_
      simp only [ThreadsAct.thread, Function.update_self, Threads.socketOps, Threads.destroyOps,
        hClose]
      rfl
    · simp only [Function.update_of_ne (Ne.symm hApp)]
      exact hIdle
  | @publish k hTodo hPending =>
    refine ⟨h.locked, h.app.imp_right fun ⟨hClose, hIdle⟩ => ⟨hClose, ?_⟩⟩
    simpa using hIdle
  | undefined hTodo hExec => exact ⟨h.locked, h.app⟩
  | @exec t op ops sync hTodo hExec =>
    refine ⟨h.locked, h.app.imp_right fun ⟨hClose, hIdle⟩ => ⟨hClose, ?_⟩⟩
    by_cases ht : t = .app
    · subst ht
      rcases hIdle with hNone | hAll
      · exact Or.inl hNone
      · rw [(h.waits hInv hStatus hAll hTodo).2] at hExec
        cases hExec
    · simp only [Function.update_of_ne (Ne.symm ht)]
      exact hIdle
  | @effect t a ops threads hTodo hPending hStep =>
    obtain ⟨k, hOwner⟩ := hInv.ordered.owner t a ops hPending
    have hOn := (h.live hInv hStatus).dispatching_of_locked h.locked
    have hLocked : threads.dispatch.locked = true := by
      by_cases ht : t = .dispatch
      · have hWill := Threads.locked_step k hStep
        rw [hOwner, ht, Threads.willLock_of_locked h.locked hOn] at hWill
        exact hWill
      · rw [(Threads.dispatch_of_other (hOwner ▸ ht) hStep).1]
        exact h.locked
    refine ⟨hLocked, ?_⟩
    by_cases ht : t = .app
    · subst ht
      obtain ⟨ok, rfl⟩ := ThreadsAct.eq_destroy hOwner
      rcases h.app with hJoin | ⟨hClose, hNone | hAll⟩
      · rcases Threads.app_step hStep with ⟨status', hPc, hPc'⟩ | ⟨status', hPc, -⟩ |
          ⟨-, -, hNot, -⟩
        · rw [hJoin] at hPc
          cases hPc
          exact Or.inr ⟨hPc', Or.inl (by simp)⟩
        · rw [hJoin] at hPc
          cases hPc
        · exact absurd hJoin (hNot status)
      · rw [hPending] at hNone
        cases hNone
      · rw [hTodo] at hAll
        cases hAll
    · have hSame := Threads.app_of_other (hOwner ▸ ht) hStep
      simp only [hSame, Threads.mIsNaming_step hStep, Function.update_of_ne (Ne.symm ht)]
      exact h.app

/-- A `destroy` that is closing the sockets has all of them before it. -/
theorem LockedThreads.Stuck.closeOps_of_todo (h : s.Stuck status) (hInv : s.Inv)
    (hClose : s.threads.app = .close status) (hTodo : s.todo .app ≠ []) :
    s.todo .app = closeOps s.threads.impl.mIsNaming := by
  rcases h.app with hJoin | ⟨-, hNone | hAll⟩
  · rw [hClose] at hJoin
    cases hJoin
  · have hPhase := hInv.scope.app
    unfold LockedThreads.AppPhase at hPhase
    rw [hClose] at hPhase
    rcases hPhase with ⟨hNil, -⟩ | ⟨a, done, hSome, -⟩
    · exact absurd hNil hTodo
    · rw [hNone] at hSome
      cases hSome
  · exact hAll

/--
**A failed stop can hang.** If a send of `zmqBridgeMamaTransportImpl_stop` fails when the
dispatch thread has taken its locks, `zmqBridgeMamaTransport_destroy` goes on to close the
sockets and waits for the first lock forever: in no run does it get any further, since
nothing tells the dispatch thread to end.
-/
theorem destroy_hangs
    (hRun : run LockedThreads.step (.start mIsNaming mBeaconInterval mUuid mPubEndpoint
      mNamingConnectRetries) as = some s) (hStatus : status ≠ .ok)
    (hApp : s.threads.app = .joinPublish status ∨
      (s.threads.app = .close status ∧ s.pending .app = none))
    (hLocked : s.threads.dispatch.locked = true)
    (hMore : run LockedThreads.step s bs = some s') :
    s'.Stuck status ∧
      (s'.threads.app = .joinPublish status ∨
        (s'.threads.app = .close status ∧ ∀ op ∈ (s'.todo .app).head?,
          op = .lock .dataSub ∧ s'.sync.exec .app op = .waits)) := by
  have hStuck : s.Stuck status := ⟨hLocked, hApp.imp_right fun h => ⟨h.1, Or.inl h.2⟩⟩
  obtain ⟨⟨as', hRun'⟩, hStuck'⟩ : (∃ as, run LockedThreads.step (.start mIsNaming
      mBeaconInterval mUuid mPubEndpoint mNamingConnectRetries) as = some s') ∧
        s'.Stuck status := by
    refine run_invariant (J := fun s => (∃ as, run LockedThreads.step (.start mIsNaming
      mBeaconInterval mUuid mPubEndpoint mNamingConnectRetries) as = some s) ∧ s.Stuck status)
      (fun s act s' h hStep => ?_) ⟨⟨as, hRun⟩, hStuck⟩ hMore
    obtain ⟨⟨as, hAs⟩, hStuck⟩ := h
    exact ⟨⟨as ++ [act], run_snoc_of hAs hStep⟩,
      hStuck.move (LockedThreads.inv_of_run hAs) hStatus (LockedThreads.moves_of_step hStep).2⟩
  have hInv := LockedThreads.inv_of_run hRun'
  refine ⟨hStuck', hStuck'.app.imp_right fun ⟨hClose, _⟩ => ⟨hClose, fun op hOp => ?_⟩⟩
  obtain ⟨ops, hTodo⟩ := List.head?_eq_some_iff.mp hOp
  have hAll := hStuck'.closeOps_of_todo hInv hClose (by rw [hTodo]; simp)
  exact hStuck'.waits hInv hStatus hAll hTodo

/-- The 'X' cannot be sent. -/
def exitUnsent : List ThreadsAct :=
  startDispatch ++ [.destroy true, .destroy true, .destroy true, .destroy false]

theorem destroy_hangs_exitUnsent :
    ∃ s, run LockedThreads.step (.start true 0 [1] [2] 4) (inTurn namingThreads exitUnsent) =
      some s ∧ ∀ bs s', run LockedThreads.step s bs = some s' → s'.Stuck .platform ∧
        (s'.threads.app = .joinPublish .platform ∨
          (s'.threads.app = .close .platform ∧ ∀ op ∈ (s'.todo .app).head?,
            op = .lock .dataSub ∧ s'.sync.exec .app op = .waits)) := by
  obtain ⟨s, hRun, hApp, hLocked⟩ : ∃ s, run LockedThreads.step (.start true 0 [1] [2] 4)
      (inTurn namingThreads exitUnsent) = some s ∧ s.threads.app = .joinPublish .platform ∧
        s.threads.dispatch.locked = true := exists_run (by decide +kernel)
  exact ⟨s, hRun, fun _ _ hMore =>
    destroy_hangs hRun (by decide) (Or.inl hApp) hLocked hMore⟩

/--
**Destroyed in time.** When `zmqBridgeMamaTransport_destroy` has returned, `stop` had
succeeded and the dispatch thread has ended, or `stop` had failed and the dispatch thread
has not taken its locks yet: it is going to take one that no longer exists.
-/
theorem destroy_before_locks
    (hRun : run LockedThreads.step (.start mIsNaming mBeaconInterval mUuid mPubEndpoint
      mNamingConnectRetries) as = some s)
    (hApp : s.threads.app = .freed status ∨ s.threads.app = .returned status) :
    (status = .ok ∧ s.threads.dispatch = .done) ∨
      (status ≠ .ok ∧ s.threads.dispatch ≠ .done ∧ s.threads.dispatch.locked = false ∧
        s.sync.lock .dataSub = .destroyed) := by
  have hInv := LockedThreads.inv_of_run hRun
  have hJoined : s.threads.Joined status := by
    have hPhase := hInv.threads.phase
    unfold Threads.Phase at hPhase
    rcases hApp with hApp | hApp <;> rw [hApp] at hPhase <;> exact hPhase
  have hGone : s.sync.lock .dataSub = .destroyed := by
    have hFirst : ∀ n, SyncOp.destroy SocketName.dataSub ∈ closeOps n := by decide
    have hPhase := hInv.scope.app
    unfold LockedThreads.AppPhase at hPhase
    rcases hApp with hApp | hApp <;> rw [hApp] at hPhase <;>
      exact (hPhase.2.2.lock _).mpr (hFirst _)
  by_cases hStatus : status = .ok
  · exact Or.inl ⟨hStatus, ((if_pos hStatus).mp hJoined).1⟩
  · have hLive := ((if_neg hStatus).mp hJoined).1
    refine Or.inr ⟨hStatus, hLive.dispatch, ?_, hGone⟩
    by_contra hNot
    have hLocked := Bool.eq_true_of_not_eq_false hNot
    obtain ⟨n, hHeld⟩ := held_of_depth_pos
      (hInv.ordered.has_dataSub hLocked (hLive.dispatching_of_locked hLocked))
    rw [hGone] at hHeld
    cases hHeld

/-- The 'X' cannot be sent, before the dispatch thread takes its locks. -/
def exitUnsentEarly : List ThreadsAct :=
  [.dispatch true, .dispatch true, .destroy true, .destroy true, .destroy true, .destroy false,
    .destroy true, .destroy true]

theorem destroy_before_exitUnsentEarly :
    ∃ s, run LockedThreads.step (.start true 0 [1] [2] 4)
      (inTurn namingThreads exitUnsentEarly) = some s ∧ s.threads.app = .freed .platform ∧
        s.threads.dispatch ≠ .done ∧ s.sync.lock .dataSub = .destroyed := by
  obtain ⟨s, hRun, hFreed⟩ : ∃ s, run LockedThreads.step (.start true 0 [1] [2] 4)
      (inTurn namingThreads exitUnsentEarly) = some s ∧ s.threads.app = .freed .platform :=
    exists_run (by decide +kernel)
  obtain ⟨-, hRunning, -, hGone⟩ :=
    (destroy_before_locks hRun (Or.inl hFreed)).resolve_left (by simp)
  exact ⟨s, hRun, hFreed, hRunning, hGone⟩

end Hang

-- ---------------------------------------------------------------------------
-- When nothing undefined happens
-- ---------------------------------------------------------------------------

/-- The threads meet their condition; the application's threads have returned from their
calls when `destroy` is called, and make no more. -/
def LockedThreads.Meets (s : LockedThreads κ) : LockedAct κ → Prop
  | .begin a _ =>
    match a with
    | .destroy _ => s.threads.app = .running → ∀ k, s.idle (.client k) = true
    | .command _ => s.threads.app = .running ∧ s.pending .app = none
    | _ => True
  | .publish _ => s.threads.app = .running ∧ s.pending .app = none
  | .exec _ => True
  | .effect t => ∀ a ∈ (s.pending t).map Prod.fst, s.threads.Meets a

/-- A thread that has ended does nothing any more. -/
structure LockedThreads.Quiet (s : LockedThreads κ) : Prop where
  clients : s.threads.app ≠ .running ∨ s.pending .app ≠ none →
    ∀ k, s.todo (.client k) = [] ∧ s.pending (.client k) = none
  dispatch : s.threads.dispatch = .done → s.todo .dispatch = [] ∧ s.pending .dispatch = none
  publish : ∀ i : Nat, (∀ pc ∈ s.threads.publish[i]?, pc = .done) →
    s.todo (.publish i) = [] ∧ s.pending (.publish i) = none
  last : ∀ i a ops, s.pending (.publish i) = some (a, ops) →
    (∃ retries, s.threads.publish[i]? = some (.send retries)) ∨ ops = []

section Ends

variable {s s' : Threads} {a : ThreadsAct}

/-- The dispatch thread ends from the head of its loop. -/
theorem Threads.loop_of_done {k : κ} (h : s.step a = some s') (hDone : s'.dispatch = .done) :
    s.dispatch = .done ∨ s.dispatch = .loop := by
  by_cases ha : a.thread k = .dispatch
  · cases a with
    | dispatch ok =>
      simp only [Threads.step, Threads.dispatchThread] at h
      cases hPc : s.dispatch
      case done => exact Or.inl rfl
      case loop => exact Or.inr rfl
      case poll =>
        simp only [hPc] at h
        cases h
        cases ok <;> cases hDone
      case beacon =>
        simp only [hPc] at h
        cases h
        dsimp only at hDone
        split at hDone <;> cases hDone
      all_goals
        simp only [hPc] at h
        cases h
        cases hDone
    | control =>
      simp only [Threads.step, Threads.recvControl] at h
      split at h <;> cases h
      exact Or.inl hDone
    | naming calls pMsg =>
      simp only [Threads.step, Threads.recvNaming] at h
      split at h
      · split at h <;> cases h <;> exact Or.inl hDone
      · cases h
    | destroy ok => cases ha
    | publish i ok => cases ha
    | command msg => cases ha
  · rw [(Threads.dispatch_of_other ha h).1] at hDone
    exact Or.inl hDone

/-- A dispatch thread that has ended takes no step. -/
theorem Threads.step_of_done {k : κ} (ha : a.thread k = .dispatch) (hDone : s.dispatch = .done) :
    s.step a = none := by
  cases a with
  | dispatch ok => simp [Threads.step, Threads.dispatchThread, hDone]
  | control => simp [Threads.step, Threads.recvControl, hDone]
  | naming calls pMsg => simp [Threads.step, Threads.recvNaming, hDone]
  | destroy ok => cases ha
  | publish i ok => cases ha
  | command msg => cases ha

/-- To a `publishEndpoints` thread the others only add new ones. -/
theorem Threads.publish_of_other {k : κ} {i : Nat} (ha : a.thread k ≠ .publish i)
    (h : s.step a = some s') :
    s'.publish[i]? = s.publish[i]? ∨
      (s.publish[i]? = none ∧ s'.publish[i]? = some .reset) := by
  cases a with
  | destroy ok => exact Or.inl (by rw [(Threads.destroy_frame h).2.2])
  | dispatch ok =>
    simp only [Threads.step, Threads.dispatchThread] at h
    split at h <;> cases h <;> exact Or.inl rfl
  | control =>
    simp only [Threads.step, Threads.recvControl] at h
    split at h <;> cases h
    exact Or.inl rfl
  | naming calls pMsg =>
    simp only [Threads.step, Threads.recvNaming] at h
    split at h
    · split at h <;> cases h
      · exact Or.inl rfl
      · exact Or.inl rfl
      · show (s.publish ++ [PublishPc.reset])[i]? = _ ∨ _ ∧ (s.publish ++ [PublishPc.reset])[i]? = _
        rcases Nat.lt_trichotomy i s.publish.length with hi | hi | hi
        · exact Or.inl (List.getElem?_append_left hi)
        · subst hi
          exact Or.inr ⟨List.getElem?_eq_none le_rfl, by simp⟩
        · refine Or.inl ?_
          rw [List.getElem?_eq_none, List.getElem?_eq_none hi.le]
          rw [List.length_append, List.length_singleton]
          omega
    · cases h
  | publish j ok =>
    have hij : j ≠ i := fun hEq => ha (by rw [hEq]; rfl)
    simp only [Threads.step, Threads.publishEndpoints] at h
    split at h <;> cases h
    exact Or.inl (List.getElem?_set_ne hij)
  | command msg =>
    simp only [Threads.step] at h
    split at h <;> cases h
    exact Or.inl rfl

/-- A `publishEndpoints` thread does not end right after a send. -/
theorem Threads.publish_of_send {i : Nat} {ok : Bool} {retries : Int}
    (hSend : s.publish[i]? = some (.send retries)) (h : s.step (.publish i ok) = some s') :
    s'.publish[i]? = some (.check retries) := by
  simp only [Threads.step, Threads.publishEndpoints, hSend] at h
  cases h
  show (s.publish.set i (.check retries))[i]? = _
  rw [List.getElem?_set_self (List.getElem?_eq_some_iff.mp hSend).1]

theorem Threads.publish_isSome {i : Nat} {ok : Bool} (h : (s.step (.publish i ok)).isSome) :
    ∃ pc, s.publish[i]? = some pc ∧ pc ≠ .done := by
  simp only [Threads.step, Threads.publishEndpoints] at h
  split at h
  · cases h
  · cases h
  · rename_i pc hNotDone hPc
    exact ⟨pc, hPc, hNotDone⟩

end Ends

section Quiet

variable [DecidableEq κ] {s s' : LockedThreads κ} {t : SocketThread κ}

omit [DecidableEq κ] in
theorem LockedThreads.quiet_init (threads : Threads) :
    (LockedThreads.init threads : LockedThreads κ).Quiet where
  clients _ _ := ⟨rfl, rfl⟩
  dispatch _ := ⟨rfl, rfl⟩
  publish _ _ := ⟨rfl, rfl⟩
  last i a ops h := by cases h

theorem LockedThreads.Quiet.begin (h : s.Quiet) {a : ThreadsAct} {k : κ}
    (hSome : (s.threads.step a).isSome) (hMeets : s.Meets (.begin a k)) :
    LockedThreads.Quiet { s with
      todo := Function.update s.todo (a.thread k) (s.threads.socketOps a).before
      pending := Function.update s.pending (a.thread k)
        (some (a, (s.threads.socketOps a).after)) } where
  clients hApp k' := by
    have hOther : SocketThread.client k' ≠ a.thread k →
        s.todo (.client k') = [] ∧ s.pending (.client k') = none →
        Function.update s.todo (a.thread k) (s.threads.socketOps a).before (.client k') = [] ∧
        Function.update s.pending (a.thread k) (some (a, (s.threads.socketOps a).after))
          (.client k') = none := by
      intro hNe hIdle
      rwa [Function.update_of_ne hNe, Function.update_of_ne hNe]
    by_cases hDestroy : a.thread k = .app
    · obtain ⟨ok, rfl⟩ := ThreadsAct.eq_destroy hDestroy
      refine hOther (by rw [hDestroy]; simp) ?_
      by_cases hRunning : s.threads.app = .running
      · exact LockedThreads.idle_iff.mp (hMeets hRunning k')
      · exact h.clients (Or.inl hRunning) k'
    · have hOld : s.threads.app ≠ .running ∨ s.pending .app ≠ none := by
        simpa only [Function.update_of_ne (Ne.symm hDestroy)] using hApp
      refine hOther (fun hEq => ?_) (h.clients hOld k')
      cases a with
      | command msg =>
        rcases hOld with hOld | hOld
        · exact absurd hMeets.1 hOld
        · exact absurd hMeets.2 hOld
      | destroy ok => cases hEq
      | dispatch ok => cases hEq
      | control => cases hEq
      | naming calls pMsg => cases hEq
      | publish i ok => cases hEq
  dispatch hDone := by
    have hNe : SocketThread.dispatch ≠ a.thread k := by
      intro hEq
      rw [Threads.step_of_done hEq.symm hDone] at hSome
      cases hSome
    simp only [Function.update_of_ne hNe]
    exact h.dispatch hDone
  publish i hDone := by
    have hNe : SocketThread.publish i ≠ a.thread k := by
      intro hEq
      cases a with
      | publish j ok =>
        cases hEq
        obtain ⟨pc, hPc, hNotDone⟩ := Threads.publish_isSome hSome
        exact hNotDone (hDone pc hPc)
      | destroy ok => cases hEq
      | dispatch ok => cases hEq
      | control => cases hEq
      | naming calls pMsg => cases hEq
      | command msg => cases hEq
    simp only [Function.update_of_ne hNe]
    exact h.publish i hDone
  last i b ops hb := by
    by_cases hEq : SocketThread.publish i = a.thread k
    · simp only [← hEq, Function.update_self, Option.some.injEq, Prod.mk.injEq] at hb
      rw [← hb.2]
      cases a with
      | publish j ok =>
        cases hEq
        simp only [Threads.socketOps, Threads.publishOps]
        split
        · rename_i retries hSend
          exact Or.inl ⟨retries, hSend⟩
        · exact Or.inr rfl
      | destroy ok => cases hEq
      | dispatch ok => cases hEq
      | control => cases hEq
      | naming calls pMsg => cases hEq
      | command msg => cases hEq
    · simp only [Function.update_of_ne hEq] at hb
      exact h.last i b ops hb

theorem LockedThreads.Quiet.exec (h : s.Quiet) {op : SyncOp SocketName}
    {ops : List (SyncOp SocketName)} {sync : Sync (SocketThread κ) SocketName}
    (hTodo : s.todo t = op :: ops) :
    LockedThreads.Quiet { s with sync, todo := Function.update s.todo t ops } := by
  -- a thread with something to do is none of those that are quiet
  have hOther : ∀ u, s.todo u = [] ∧ s.pending u = none →
      Function.update s.todo t ops u = [] ∧ s.pending u = none := by
    rintro u ⟨hNil, hNone⟩
    have hNe : u ≠ t := by
      rintro rfl
      rw [hTodo] at hNil
      cases hNil
    rw [Function.update_of_ne hNe]
    exact ⟨hNil, hNone⟩
  exact ⟨fun hApp k => hOther _ (h.clients hApp k), fun hDone => hOther _ (h.dispatch hDone),
    fun i hDone => hOther _ (h.publish i hDone), h.last⟩

theorem LockedThreads.Quiet.effect (h : s.Quiet) (hOrdered : s.Ordered) {a : ThreadsAct}
    {ops : List (SyncOp SocketName)} {threads : Threads} (hPending : s.pending t = some (a, ops))
    (hStep : s.threads.step a = some threads) :
    LockedThreads.Quiet { s with
      threads
      todo := Function.update s.todo t ops
      pending := Function.update s.pending t none } := by
  obtain ⟨k, hOwner⟩ := hOrdered.owner t a ops hPending
  -- a thread with a step pending is none of those that are quiet
  have hOther : ∀ u, s.todo u = [] ∧ s.pending u = none →
      Function.update s.todo t ops u = [] ∧ Function.update s.pending t none u = none := by
    rintro u ⟨hNil, hNone⟩
    have hNe : u ≠ t := by
      rintro rfl
      rw [hPending] at hNone
      cases hNone
    rw [Function.update_of_ne hNe, Function.update_of_ne hNe]
    exact ⟨hNil, hNone⟩
  refine ⟨fun hApp k' => hOther _ (h.clients ?_ k'), fun hDone => ?_, fun i hDone => ?_,
    fun i b ops' hb => ?_⟩
  · by_cases ht : t = .app
    · subst ht
      exact Or.inr (by rw [hPending]; simp)
    · simpa [Threads.app_of_other (hOwner ▸ ht) hStep, Function.update_of_ne (Ne.symm ht)]
        using hApp
  · by_cases ht : t = .dispatch
    · subst ht
      rcases Threads.loop_of_done (k := k) hStep hDone with hOld | hLoop
      · rw [(h.dispatch hOld).2] at hPending
        cases hPending
      · rw [hOrdered.last a ops hPending (Or.inr hLoop)]
        simp
    · rw [(Threads.dispatch_of_other (hOwner ▸ ht) hStep).1] at hDone
      exact hOther _ (h.dispatch hDone)
  · by_cases ht : t = .publish i
    · subst ht
      obtain ⟨ok, rfl⟩ : ∃ ok, a = .publish i ok := by
        cases a <;> cases hOwner
        exact ⟨_, rfl⟩
      rcases h.last i _ ops hPending with ⟨retries, hSend⟩ | rfl
      · have hCheck := hDone _ (Threads.publish_of_send hSend hStep)
        cases hCheck
      · simp
    · rcases Threads.publish_of_other (hOwner ▸ ht) hStep with hSame | ⟨-, hNew⟩
      · exact hOther _ (h.publish i (hSame ▸ hDone))
      · have hReset := hDone _ hNew
        cases hReset
  · by_cases ht : SocketThread.publish i = t
    · subst ht
      simp at hb
    · simp only [Function.update_of_ne ht] at hb
      rcases Threads.publish_of_other (hOwner ▸ Ne.symm ht) hStep with hSame | ⟨hNone, -⟩
      · show (∃ retries, threads.publish[i]? = _) ∨ _
        rw [hSame]
        exact h.last i b ops' hb
      · rw [(h.publish i (by rw [hNone]; simp)).2] at hb
        cases hb

theorem LockedThreads.Quiet.move (h : s.Quiet) (hOrdered : s.Ordered) {act : LockedAct κ}
    (hMeets : s.Meets act) (hMove : s.Moves act s') : s'.Quiet := by
  cases hMove with
  | begin hTodo hPending hSome => exact h.begin hSome hMeets
  | @publish k hTodo hPending =>
    refine ⟨fun hApp => ?_, fun hDone => ?_, fun i hDone => ?_, h.last⟩
    · rcases hApp with hApp | hApp
      · exact absurd hMeets.1 hApp
      · exact absurd hMeets.2 hApp
    · simpa using h.dispatch hDone
    · simpa using h.publish i hDone
  | undefined hTodo hExec => exact ⟨h.clients, h.dispatch, h.publish, h.last⟩
  | exec hTodo hExec => exact h.exec hTodo
  | effect hTodo hPending hStep => exact h.effect hOrdered hPending hStep

/-- When the sockets are being closed, all other threads have ended and have no locks. -/
theorem LockedThreads.Quiet.others (h : s.Quiet) (hInv : s.Inv) (hSucceeds : s.threads.Succeeds)
    (hEarlier : s.threads.EarlierDone) {status : MamaStatus}
    (hApp : s.threads.app = .close status ∨ s.threads.app = .freed status ∨
      s.threads.app = .returned status) (ht : t ≠ .app) :
    s.todo t = [] ∧ ∀ x, s.sync.depth t x = 0 := by
  have hPhase := hInv.threads.phase
  unfold Threads.Phase at hPhase
  unfold Threads.Succeeds at hSucceeds
  obtain ⟨⟨rfl, hHandle⟩, hJoined⟩ : (status = .ok ∧ s.threads.impl.mPublishThread ≠ none) ∧
      s.threads.Joined status := by
    rcases hApp with hApp | hApp | hApp <;> rw [hApp] at hPhase hSucceeds <;>
      exact ⟨hSucceeds, hPhase⟩
  have hDispatch := ((if_pos rfl).mp hJoined).1
  have hIdle : s.todo t = [] ∧ s.pending t = none := by
    cases t with
    | app => exact absurd rfl ht
    | dispatch => exact h.dispatch hDispatch
    | publish i =>
      refine h.publish i fun pc hPc => ?_
      exact hInv.threads.all_done hJoined hHandle hEarlier pc (List.mem_of_getElem? hPc)
    | client k =>
      refine h.clients (Or.inl ?_) k
      rcases hApp with hApp | hApp | hApp <;> rw [hApp] <;> simp
  have hLocked : s.threads.locked t = false := by
    cases t with
    | dispatch => rw [Threads.locked, hDispatch]; rfl
    | app => rfl
    | publish i => rfl
    | client k => rfl
  refine ⟨hIdle.1, fun x => ?_⟩
  rw [(hInv.ordered.orderly t).depth_of_idle hIdle.1 hIdle.2, hLocked]
  simp [lockCounts]

/-- While nothing is closed, nothing undefined can happen. -/
theorem LockedThreads.Inv.defined_of_open (h : s.Inv) (hOpen : s.sync.Ended [])
    {op : SyncOp SocketName} {ops : List (SyncOp SocketName)} (hTodo : s.todo t = op :: ops)
    (hEnds : op.ends = false) : s.sync.exec t op ≠ .undefined := by
  intro hExec
  have hAt := h.ordered.orderly t
  unfold LockedThreads.OrderlyAt at hAt
  rw [hTodo, List.cons_append] at hAt
  rcases hAt.of_undefined hExec with ⟨x, -, hGone⟩ | ⟨x, -, hClosed⟩ | ⟨x, rfl, -⟩
  · exact absurd ((hOpen.lock x).mp hGone) List.not_mem_nil
  · exact absurd ((hOpen.closed x).mp hClosed) List.not_mem_nil
  · cases hEnds

/-- Nor does it happen when only `destroy` is left. -/
theorem LockedThreads.Inv.defined_of_closing (h : s.Inv) {done : List (SyncOp SocketName)}
    (hDone : done ++ s.todo .app = closeOps s.threads.impl.mIsNaming)
    (hEnded : s.sync.Ended done)
    (hOthers : ∀ t ≠ .app, ∀ x, s.sync.depth t x = 0) {op : SyncOp SocketName}
    {ops : List (SyncOp SocketName)} (hTodo : s.todo .app = op :: ops) :
    s.sync.exec .app op ≠ .undefined := by
  intro hExec
  have hAt := h.ordered.orderly .app
  unfold LockedThreads.OrderlyAt at hAt
  rw [hTodo, List.cons_append] at hAt
  obtain ⟨hLive, hOpen, -⟩ := closeOps_split (hTodo ▸ hDone)
  rcases hAt.of_undefined hExec with ⟨x, rfl, hGone⟩ | ⟨x, hUses, hClosed⟩ |
    ⟨x, rfl, hGone | ⟨u, hu, hPos⟩⟩
  · exact hLive x (List.mem_singleton_self x) ((hEnded.lock x).mp hGone)
  · exact hOpen x hUses ((hEnded.closed x).mp hClosed)
  · exact hLive x (List.mem_singleton_self x) ((hEnded.lock x).mp hGone)
  · exact absurd (hOthers u hu x) (Nat.ne_of_gt hPos)

theorem LockedThreads.Quiet.defined (h : s.Quiet) (hInv : s.Inv)
    (hSucceeds : s.threads.Succeeds) (hEarlier : s.threads.EarlierDone)
    {op : SyncOp SocketName} {ops : List (SyncOp SocketName)} (hTodo : s.todo t = op :: ops) :
    s.sync.exec t op ≠ .undefined := by
  have hPhase := hInv.scope.app
  unfold LockedThreads.AppPhase at hPhase
  have hOther : ∀ hNot : t ≠ .app, op.ends = false := by
    intro hNot
    have hWithin := hInv.scope.others t hNot
    rw [hTodo, List.cons_append] at hWithin
    exact (staysWithin_cons hWithin).1
  -- with the sockets being closed, the thread is that of `destroy`
  have hApp {status : MamaStatus} (hClose : s.threads.app = .close status ∨
      s.threads.app = .freed status ∨ s.threads.app = .returned status) : t = .app := by
    by_contra hNot
    rw [(h.others hInv hSucceeds hEarlier hClose hNot).1] at hTodo
    cases hTodo
  cases hPc : s.threads.app <;> simp only [hPc] at hPhase
  case close status =>
    obtain rfl := hApp (Or.inl hPc)
    rcases hPhase with ⟨hNil, -⟩ | ⟨a, done, -, hDone, hEnded⟩
    · rw [hNil] at hTodo
      cases hTodo
    · exact hInv.defined_of_closing hDone hEnded
        (fun u hu => (h.others hInv hSucceeds hEarlier (Or.inl hPc) hu).2) hTodo
  case freed status =>
    obtain rfl := hApp (Or.inr (Or.inl hPc))
    rw [hPhase.1] at hTodo
    cases hTodo
  case returned status =>
    obtain rfl := hApp (Or.inr (Or.inr hPc))
    rw [hPhase.1] at hTodo
    cases hTodo
  all_goals
    refine hInv.defined_of_open hPhase.1 hTodo ?_
    by_cases ht : t = .app
    · subst ht
      have hWithin := hPhase.2
      rw [hTodo, List.cons_append] at hWithin
      exact (staysWithin_cons hWithin).1
    · exact hOther ht

/--
**Sockets outlive their users.** If the application's threads have returned from their
calls when `zmqBridgeMamaTransport_destroy` is called and make no more, the sends of
`stop` succeed, each `publishEndpoints` thread ends before the next is created and the last
is created, then nothing undefined ever happens: no lock is taken or given back after it
is destroyed, no socket is used after it is closed, none is closed twice. When `destroy`
is through, every socket of the transport is closed and every lock destroyed.
-/
theorem sockets_outlive_users {mIsNaming : Bool} {mBeaconInterval : Nat}
    {mUuid mPubEndpoint : List Byte} {mNamingConnectRetries : Int} {as : List (LockedAct κ)}
    (hRun : run LockedThreads.step (.start mIsNaming mBeaconInterval mUuid mPubEndpoint
      mNamingConnectRetries) as = some s)
    (hMeet : StepsMeet LockedThreads.step LockedThreads.Meets (.start mIsNaming mBeaconInterval
      mUuid mPubEndpoint mNamingConnectRetries) as) :
    s.undefined = false ∧
      ∀ status, s.threads.app = .freed status ∨ s.threads.app = .returned status →
        ∀ x ∈ transportSockets s.threads.impl.mIsNaming,
          s.sync.closed x = true ∧ s.sync.lock x = .destroyed := by
  constructor
  · have hAll : s.Quiet ∧ s.threads.Succeeds ∧ s.threads.EarlierDone ∧ s.undefined = false := by
      refine run_induction_meet (P := fun _ s => s.Quiet ∧ s.threads.Succeeds ∧
        s.threads.EarlierDone ∧ s.undefined = false)
        ⟨LockedThreads.quiet_init _, trivial, fun i hi => absurd hi (Nat.not_lt_zero _), rfl⟩
        ?_ hRun hMeet
      rintro as s act s' hAs ⟨hQuiet, hSucceeds, hEarlier, hDefined⟩ hMeets hStep
      have hInv := LockedThreads.inv_of_run hAs
      obtain ⟨-, hMove⟩ := LockedThreads.moves_of_step hStep
      refine ⟨hQuiet.move hInv.ordered hMeets hMove, ?_⟩
      cases hMove with
      | begin hTodo hPending hSome => exact ⟨hSucceeds, hEarlier, hDefined⟩
      | publish hTodo hPending => exact ⟨hSucceeds, hEarlier, hDefined⟩
      | exec hTodo hExec => exact ⟨hSucceeds, hEarlier, hDefined⟩
      | undefined hTodo hExec =>
        exact absurd hExec (hQuiet.defined hInv hSucceeds hEarlier hTodo)
      | @effect t a ops threads hTodo hPending hEffect =>
        have hMeets' : s.threads.Meets a := hMeets a (by rw [hPending]; rfl)
        exact ⟨hSucceeds.step hInv.threads hMeets' hEffect, hEarlier.step hMeets' hEffect,
          hDefined⟩
    exact hAll.2.2.2
  · intro status hApp x hx
    have hPhase := (LockedThreads.inv_of_run hRun).scope.app
    have hMem : .close x ∈ closeOps s.threads.impl.mIsNaming ∧
        .destroy x ∈ closeOps s.threads.impl.mIsNaming := by
      simp only [closeOps, List.mem_flatMap]
      exact ⟨⟨x, hx, by simp [destroySocketOps]⟩, ⟨x, hx, by simp [destroySocketOps]⟩⟩
    unfold LockedThreads.AppPhase at hPhase
    rcases hApp with hApp | hApp <;> rw [hApp] at hPhase <;>
      exact ⟨(hPhase.2.2.closed x).mpr hMem.1, (hPhase.2.2.lock x).mpr hMem.2⟩

end Quiet

instance [Fintype κ] (s : LockedThreads κ) (act : LockedAct κ) : Decidable (s.Meets act) :=
  match act with
  | .begin (.destroy _) _ => inferInstanceAs (Decidable (_ → ∀ _ : κ, _ = true))
  | .begin (.command _) _ => inferInstanceAs (Decidable (_ ∧ _))
  | .begin (.dispatch _) _ => isTrue trivial
  | .begin .control _ => isTrue trivial
  | .begin (.naming _ _) _ => isTrue trivial
  | .begin (.publish _ _) _ => isTrue trivial
  | .publish _ => inferInstanceAs (Decidable (_ ∧ _))
  | .exec _ => isTrue trivial
  | .effect _ => inferInstanceAs (Decidable (∀ _ ∈ Option.map _ _, _))

theorem sockets_outlive_oneWelcome :
    ∃ s, run LockedThreads.step (.start true 0 [1] [2] 4) (inTurn namingThreads oneWelcome) =
      some s ∧ s.threads.app = .freed .ok ∧ s.undefined = false := by
  obtain ⟨s, hRun, hFreed⟩ : ∃ s, run LockedThreads.step (.start true 0 [1] [2] 4)
      (inTurn namingThreads oneWelcome) = some s ∧ s.threads.app = .freed .ok :=
    exists_run (by decide +kernel)
  exact ⟨s, hRun, hFreed, (sockets_outlive_users hRun
    (stepsMeet_of_meetsAll (by decide +kernel))).1⟩

end ZmqBridge
