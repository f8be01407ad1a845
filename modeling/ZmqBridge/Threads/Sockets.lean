import ZmqBridge.Threads.Locks

/-!
# ZmqBridge — one thread at a time on each socket

A socket is used with its lock, so two threads are never inside calls on it. The exception
is the socket that commands are read from: the dispatch thread does not lock it, and
`zmqBridgeMamaTransport_destroy` locks it only against itself. There it is the order in
which `destroy` closes the sockets that counts, and that nobody else goes near it.

* `closeOps_order`     — that order;
* `sockets_exclusive`  — one thread at a time on each socket.
-/

namespace ZmqBridge

open Lib

variable {κ : Type}

-- ---------------------------------------------------------------------------
-- Who closes sockets, and who reads commands
-- ---------------------------------------------------------------------------

/-- What `destroy` does to the sockets when it closes them. -/
def closeOps (mIsNaming : Bool) : List (SyncOp SocketName) :=
  (transportSockets mIsNaming).flatMap destroySocketOps

def AppPc.isClose : AppPc → Bool
  | .close _ => true
  | _ => false

section Scope

variable {s s' : Threads} {a : ThreadsAct}

theorem destroyOps_staysWithin (h : s.app.isClose = false) :
    staysWithin false s.destroyOps.all = true := by
  unfold Threads.destroyOps
  generalize s.impl.mIsNaming = n
  cases hPc : s.app
  case close status =>
    rw [hPc] at h
    cases h
  all_goals dsimp only; revert n; decide

theorem Threads.app_of_other {k : κ} (ha : a.thread k ≠ .app) (h : s.step a = some s') :
    s'.app = s.app :=
  (Threads.keeps_of_step (fun ok hEq => ha (by rw [hEq]; rfl)) h).app

/-- Where `destroy` goes to. -/
theorem Threads.app_step {ok : Bool} (h : s.destroy ok = some s') :
    (∃ status, s.app = .joinPublish status ∧ s'.app = .close status) ∨
    (∃ status, s.app = .close status ∧
      (s'.app = .freed status ∨ s'.app = .returned status)) ∨
    (s.app.isClose = false ∧ s'.app.isClose = false ∧ (∀ status, s.app ≠ .joinPublish status) ∧
      (∀ status, s'.app ≠ .freed status) ∧ ∀ status, s'.app ≠ .returned status) := by
  unfold Threads.destroy at h
  cases hPc : s.app <;> simp only [hPc] at h
  case joinPublish status =>
    refine Or.inl ⟨status, rfl, ?_⟩
    split at h
    · cases h
      rfl
    · split at h <;> cases h
      rfl
  case close status =>
    refine Or.inr (Or.inl ⟨status, rfl, ?_⟩)
    cases h
    cases ok
    · exact Or.inr rfl
    · exact Or.inl rfl
  case freed => cases h
  case returned => cases h
  case disconnect =>
    split at h
    · split at h <;> cases h <;> exact Or.inr (Or.inr ⟨rfl, rfl, by simp, by simp, by simp⟩)
    · cases h
      exact Or.inr (Or.inr ⟨rfl, rfl, by simp, by simp, by simp⟩)
  all_goals try split at h
  all_goals cases h
  all_goals exact Or.inr (Or.inr ⟨rfl, rfl, by simp, by simp, by simp⟩)

end Scope

/-- What the application thread has done to the sockets, by its place. -/
def LockedThreads.AppPhase (s : LockedThreads κ) : Prop :=
  match s.threads.app with
  | .close _ =>
    (s.todo .app = [] ∧ s.pending .app = none ∧ s.sync.Ended []) ∨
      ∃ a done, s.pending .app = some (a, []) ∧
        done ++ s.todo .app = closeOps s.threads.impl.mIsNaming ∧ s.sync.Ended done
  | .freed _ =>
    s.todo .app = [] ∧ s.pending .app = none ∧
      s.sync.Ended (closeOps s.threads.impl.mIsNaming)
  | .returned _ =>
    s.todo .app = [] ∧ s.pending .app = none ∧
      s.sync.Ended (closeOps s.threads.impl.mIsNaming)
  | _ => s.sync.Ended [] ∧ staysWithin false (s.todo .app ++ s.rest .app) = true

/-- Only `destroy` closes sockets, and only the dispatch thread reads commands. -/
structure LockedThreads.Scoped (s : LockedThreads κ) : Prop where
  app : s.AppPhase
  after : ∀ a ops, s.pending .app = some (a, ops) → ops = s.threads.destroyOps.after
  others : ∀ t, t ≠ .app → staysWithin t.reads (s.todo t ++ s.rest t) = true

section Scoped

variable {s s' : LockedThreads κ} {t : SocketThread κ}

theorem LockedThreads.scoped_init (threads : Threads) (hRunning : threads.app = .running) :
    (LockedThreads.init threads : LockedThreads κ).Scoped where
  app := by
    unfold LockedThreads.AppPhase
    simp only [LockedThreads.init, hRunning]
    exact ⟨⟨by simp, by simp⟩, rfl⟩
  after a ops h := by cases h
  others t _ := rfl

/-- The other threads close nothing. -/
theorem LockedThreads.AppPhase.congr (h : s.AppPhase) (hApp : s'.threads.app = s.threads.app)
    (hNaming : s'.threads.impl.mIsNaming = s.threads.impl.mIsNaming)
    (hTodo : s'.todo .app = s.todo .app) (hPending : s'.pending .app = s.pending .app)
    (hEnded : ∀ done, s.sync.Ended done → s'.sync.Ended done) : s'.AppPhase := by
  unfold LockedThreads.AppPhase LockedThreads.rest at h ⊢
  rw [hApp, hNaming, hTodo, hPending]
  cases hPc : s.threads.app <;> simp only [hPc] at h ⊢
  case close status =>
    rcases h with ⟨hNil, hNone, hOld⟩ | ⟨a, done, hSome, hDone, hOld⟩
    · exact Or.inl ⟨hNil, hNone, hEnded _ hOld⟩
    · exact Or.inr ⟨a, done, hSome, hDone, hEnded _ hOld⟩
  case freed => exact ⟨h.1, h.2.1, hEnded _ h.2.2⟩
  case returned => exact ⟨h.1, h.2.1, hEnded _ h.2.2⟩
  all_goals exact ⟨hEnded _ h.1, h.2⟩

theorem destroyOps_congr {s s' : Threads} (hApp : s'.app = s.app)
    (hNaming : s'.impl.mIsNaming = s.impl.mIsNaming) : s'.destroyOps = s.destroyOps := by
  unfold Threads.destroyOps
  rw [hApp, hNaming]

theorem ThreadsAct.eq_destroy {a : ThreadsAct} {k : κ} (h : a.thread k = .app) :
    ∃ ok, a = .destroy ok := by
  cases a with
  | destroy ok => exact ⟨ok, rfl⟩
  | dispatch ok => cases h
  | control => cases h
  | naming calls pMsg => cases h
  | publish i ok => cases h
  | command msg => cases h

variable [DecidableEq κ]

/-- The application thread begins a step. -/
theorem LockedThreads.AppPhase.begin (h : s.AppPhase) {ok : Bool}
    (hPending : s.pending .app = none) (hSome : (s.threads.step (.destroy ok)).isSome) :
    LockedThreads.AppPhase { s with
      todo := Function.update s.todo .app s.threads.destroyOps.before
      pending := Function.update s.pending .app
        (some (.destroy ok, s.threads.destroyOps.after)) } := by
  unfold LockedThreads.AppPhase at h ⊢
  unfold LockedThreads.rest
  simp only [Function.update_self]
  cases hPc : s.threads.app <;> simp only [hPc] at h ⊢
  case close status =>
    rcases h with ⟨-, -, hEnded⟩ | ⟨a, done, hSome, -⟩
    · refine Or.inr ⟨.destroy ok, [], ?_, ?_, hEnded⟩
      · rw [Threads.destroyOps, hPc]
      · rw [Threads.destroyOps, hPc]
        rfl
    · rw [hPending] at hSome
      cases hSome
  case freed => simp [Threads.step, Threads.destroy, hPc] at hSome
  case returned => simp [Threads.step, Threads.destroy, hPc] at hSome
  all_goals exact ⟨h.1, destroyOps_staysWithin (by rw [hPc]; rfl)⟩

/-- It performs an operation. -/
theorem LockedThreads.AppPhase.exec (h : s.AppPhase) {op : SyncOp SocketName}
    {ops : List (SyncOp SocketName)} {sync : Sync (SocketThread κ) SocketName}
    (hTodo : s.todo .app = op :: ops) (hExec : s.sync.exec .app op = .next sync) :
    LockedThreads.AppPhase { s with sync, todo := Function.update s.todo .app ops } := by
  unfold LockedThreads.AppPhase LockedThreads.rest at h ⊢
  simp only [hTodo, Function.update_self] at h ⊢
  cases hPc : s.threads.app <;> simp only [hPc] at h ⊢
  case close status =>
    rcases h with ⟨hNil, -⟩ | ⟨a, done, hSome, hDone, hEnded⟩
    · cases hNil
    · refine Or.inr ⟨a, done ++ [op], hSome, ?_, hEnded.exec hExec⟩
      rw [List.append_assoc]
      exact hDone
  case freed => cases h.1
  case returned => cases h.1
  all_goals
    obtain ⟨hEnds, -, hWithin⟩ := staysWithin_cons h.2
    exact ⟨h.1.exec_of_ends hExec hEnds, hWithin⟩

/-- A step of it takes effect. -/
theorem LockedThreads.AppPhase.effect (h : s.AppPhase) {ok : Bool}
    {ops : List (SyncOp SocketName)} {threads : Threads} (hTodo : s.todo .app = [])
    (hPending : s.pending .app = some (.destroy ok, ops))
    (hAfter : ops = s.threads.destroyOps.after)
    (hStep : s.threads.step (.destroy ok) = some threads) :
    LockedThreads.AppPhase { s with
      threads
      todo := Function.update s.todo .app ops
      pending := Function.update s.pending .app none } := by
  have hNaming := Threads.mIsNaming_step hStep
  unfold LockedThreads.AppPhase LockedThreads.rest at h ⊢
  simp only [hTodo, hPending, Function.update_self, hNaming, Option.map_some, Option.getD_some,
    Option.map_none, Option.getD_none, List.nil_append, List.append_nil] at h ⊢
  rcases Threads.app_step hStep with ⟨status, hPc, hPc'⟩ | ⟨status, hPc, hPc'⟩ |
    ⟨hOpen, hOpen', -, hFreed, hReturned⟩
  · -- nothing is left to do when the sockets are going to be closed
    simp only [hPc] at h
    simp only [hPc']
    refine Or.inl ⟨?_, trivial, h.1⟩
    rw [hAfter, Threads.destroyOps, hPc]
    rfl
  · simp only [hPc] at h
    rcases h with ⟨-, hNone, -⟩ | ⟨a, done, hSome, hDone, hEnded⟩
    · cases hNone
    · rw [Option.some.injEq, Prod.mk.injEq] at hSome
      rw [← hDone, hSome.2]
      rcases hPc' with hPc' | hPc' <;> simp only [hPc'] <;> exact ⟨trivial, trivial, hEnded⟩
  · have hOld : s.sync.Ended [] ∧ staysWithin false ops = true := by
      cases hPc : s.threads.app <;> simp only [hPc] at h
      case close status =>
        rw [hPc] at hOpen
        cases hOpen
      case freed => cases h.2.1
      case returned => cases h.2.1
      all_goals exact h
    cases hPc' : threads.app <;> dsimp only
    case close status =>
      rw [hPc'] at hOpen'
      cases hOpen'
    case freed status => exact absurd hPc' (hFreed status)
    case returned status => exact absurd hPc' (hReturned status)
    all_goals exact hOld

theorem LockedThreads.Scoped.begin (h : s.Scoped) {a : ThreadsAct} {k : κ}
    (hPending : s.pending (a.thread k) = none) (hSome : (s.threads.step a).isSome) :
    LockedThreads.Scoped { s with
      todo := Function.update s.todo (a.thread k) (s.threads.socketOps a).before
      pending := Function.update s.pending (a.thread k)
        (some (a, (s.threads.socketOps a).after)) } := by
  by_cases hApp : a.thread k = .app
  · obtain ⟨ok, rfl⟩ := ThreadsAct.eq_destroy hApp
    refine ⟨h.app.begin hPending hSome, fun b ops hb => ?_, fun t ht => ?_⟩
    · simp only [ThreadsAct.thread, Function.update_self, Option.some.injEq, Prod.mk.injEq] at hb
      exact hb.2.symm
    · unfold LockedThreads.rest
      simp only [ThreadsAct.thread, Function.update_of_ne ht]
      exact h.others t ht
  · refine ⟨h.app.congr rfl rfl (Function.update_of_ne (Ne.symm hApp) _ _)
      (Function.update_of_ne (Ne.symm hApp) _ _) fun _ => id, fun b ops hb => ?_,
      fun t ht => ?_⟩
    · simp only [Function.update_of_ne (Ne.symm hApp)] at hb
      exact h.after b ops hb
    · unfold LockedThreads.rest
      by_cases hEq : t = a.thread k
      · subst hEq
        simp only [Function.update_self, Option.map_some, Option.getD_some]
        exact (socketOps_ok k hSome).2 hApp
      · simp only [Function.update_of_ne hEq]
        exact h.others t ht

theorem LockedThreads.Scoped.exec (h : s.Scoped) {op : SyncOp SocketName}
    {ops : List (SyncOp SocketName)} {sync : Sync (SocketThread κ) SocketName}
    (hTodo : s.todo t = op :: ops) (hExec : s.sync.exec t op = .next sync) :
    LockedThreads.Scoped { s with sync, todo := Function.update s.todo t ops } := by
  have hOthers : ∀ u, u ≠ .app →
      staysWithin u.reads (Function.update s.todo t ops u ++ s.rest u) = true := by
    intro u hu
    by_cases hut : u = t
    · subst hut
      have hOld := h.others u hu
      rw [hTodo, List.cons_append] at hOld
      rw [Function.update_self]
      exact (staysWithin_cons hOld).2.2
    · rw [Function.update_of_ne hut]
      exact h.others u hu
  by_cases ht : t = .app
  · subst ht
    exact ⟨h.app.exec hTodo hExec, h.after, hOthers⟩
  · have hOld := h.others t ht
    rw [hTodo, List.cons_append] at hOld
    exact ⟨h.app.congr rfl rfl (Function.update_of_ne (Ne.symm ht) _ _) rfl
      fun _ hEnded => hEnded.exec_of_ends hExec (staysWithin_cons hOld).1, h.after, hOthers⟩

theorem LockedThreads.Scoped.effect (h : s.Scoped) (hOrdered : s.Ordered) {a : ThreadsAct}
    {ops : List (SyncOp SocketName)} {threads : Threads} (hTodo : s.todo t = [])
    (hPending : s.pending t = some (a, ops)) (hStep : s.threads.step a = some threads) :
    LockedThreads.Scoped { s with
      threads
      todo := Function.update s.todo t ops
      pending := Function.update s.pending t none } := by
  obtain ⟨k, hOwner⟩ := hOrdered.owner t a ops hPending
  have hOthers : ∀ u, u ≠ .app → staysWithin u.reads (Function.update s.todo t ops u ++
      ((Function.update s.pending t none u).map Prod.snd).getD []) = true := by
    intro u hu
    have hOld := h.others u hu
    unfold LockedThreads.rest at hOld
    by_cases hut : u = t
    · subst hut
      rw [hTodo, hPending] at hOld
      rw [Function.update_self, Function.update_self]
      simpa using hOld
    · rw [Function.update_of_ne hut, Function.update_of_ne hut]
      exact hOld
  by_cases ht : t = .app
  · subst ht
    obtain ⟨ok, rfl⟩ := ThreadsAct.eq_destroy hOwner
    refine ⟨h.app.effect hTodo hPending (h.after _ _ hPending) hStep, fun b ops' hb => ?_,
      hOthers⟩
    simp at hb
  · have hNot : a.thread k ≠ .app := hOwner ▸ ht
    have hApp := Threads.app_of_other hNot hStep
    have hNaming := Threads.mIsNaming_step hStep
    refine ⟨h.app.congr hApp hNaming (Function.update_of_ne (Ne.symm ht) _ _)
      (Function.update_of_ne (Ne.symm ht) _ _) fun _ => id, fun b ops' hb => ?_, hOthers⟩
    simp only [Function.update_of_ne (Ne.symm ht)] at hb
    rw [destroyOps_congr hApp hNaming]
    exact h.after b ops' hb

theorem LockedThreads.Scoped.move (h : s.Scoped) (hOrdered : s.Ordered) {act : LockedAct κ}
    (hMove : s.Moves act s') : s'.Scoped := by
  cases hMove with
  | begin hTodo hPending hSome => exact h.begin hPending hSome
  | @publish k hTodo hPending =>
    have hNe : (SocketThread.app : SocketThread κ) ≠ .client k := by simp
    refine ⟨h.app.congr rfl rfl (Function.update_of_ne hNe (useOps .dataPub) s.todo) rfl
      fun _ => id, h.after, fun t ht => ?_⟩
    by_cases htk : t = .client k
    · subst htk
      simp only [LockedThreads.rest, hPending, Function.update_self]
      show staysWithin false (useOps .dataPub) = true
      decide
    · have hOld := h.others t ht
      unfold LockedThreads.rest at hOld ⊢
      simp only [Function.update_of_ne htk]
      exact hOld
  | undefined hTodo hExec => exact ⟨h.app, h.after, h.others⟩
  | exec hTodo hExec => exact h.exec hTodo hExec
  | effect hTodo hPending hStep => exact h.effect hOrdered hTodo hPending hStep

end Scoped

-- ---------------------------------------------------------------------------
-- Runs
-- ---------------------------------------------------------------------------

/-- What holds in every run. -/
structure LockedThreads.Inv [DecidableEq κ] (s : LockedThreads κ) : Prop where
  threads : s.threads.Inv
  ordered : s.Ordered
  scope : s.Scoped

section Runs

variable [DecidableEq κ] {mIsNaming : Bool} {mBeaconInterval : Nat}
  {mUuid mPubEndpoint : List Byte} {mNamingConnectRetries : Int} {as : List (LockedAct κ)}
  {s s' : LockedThreads κ}

theorem LockedThreads.inv_of_run
    (hRun : run LockedThreads.step (.start mIsNaming mBeaconInterval mUuid mPubEndpoint
      mNamingConnectRetries) as = some s) : s.Inv := by
  obtain ⟨bs, hBs⟩ := threads_of_run hRun
  have hThreads := run_invariant (J := Threads.Inv) (fun _ _ _ h hStep => h.step hStep)
    (Threads.inv_init mIsNaming mBeaconInterval mUuid mPubEndpoint mNamingConnectRetries) hBs
  have hSockets : s.Ordered ∧ s.Scoped := by
    refine run_invariant (J := fun s => s.Ordered ∧ s.Scoped) (fun s act s' h hStep => ?_)
      ⟨LockedThreads.ordered_init _ rfl, LockedThreads.scoped_init _ rfl⟩ hRun
    obtain ⟨-, hMove⟩ := LockedThreads.moves_of_step hStep
    exact ⟨h.1.move hMove, h.2.move h.1 hMove⟩
  exact ⟨hThreads, hSockets.1, hSockets.2⟩

/-- The thread is inside a call that uses the socket. -/
def LockedThreads.Inside (s : LockedThreads κ) (t : SocketThread κ) (x : SocketName) : Prop :=
  ∃ op ops, s.todo t = op :: ops ∧ x ∈ op.uses

/-- A socket is used with its lock, except for the one commands are read from. -/
theorem LockedThreads.Ordered.of_inside (h : s.Ordered) {t : SocketThread κ} {x : SocketName}
    (hInside : s.Inside t x) :
    0 < s.sync.depth t x ∨
      (t = .dispatch ∧ x = .controlSub ∧ 0 < s.sync.depth t .dataSub) := by
  obtain ⟨op, ops, hTodo, hUses⟩ := hInside
  have hAt := h.orderly t
  unfold LockedThreads.OrderlyAt at hAt
  rw [hTodo, List.cons_append] at hAt
  rcases hAt.has_of_uses hUses with ⟨-, hPos⟩ | ⟨-, hPos⟩
  · exact Or.inl hPos
  · cases t with
    | dispatch =>
      by_cases hx : x = .controlSub
      · subst hx
        exact Or.inr ⟨rfl, rfl, hPos⟩
      · have hGuard : dispatchGuard x = x := by
          cases x <;> first | rfl | exact absurd rfl hx
        exact Or.inl (hGuard ▸ hPos)
    | app => exact Or.inl hPos
    | publish i => exact Or.inl hPos
    | client k => exact Or.inl hPos

/-- The order in which `destroy` closes the sockets: of what is closed, destroyed or
locked, nothing is closed or destroyed before, and the data socket comes first. -/
theorem closeOps_order : ∀ n, ∀ i : Fin 24, ∀ op ∈ (closeOps n)[i.val]?,
    (∀ x ∈ op.objects, .destroy x ∉ (closeOps n).take i) ∧
    (∀ x ∈ op.uses, .close x ∉ (closeOps n).take i) ∧
    (.controlSub ∈ op.uses → .destroy .dataSub ∈ (closeOps n).take i) := by
  decide +kernel

theorem closeOps_split {n : Bool} {done ops : List (SyncOp SocketName)}
    {op : SyncOp SocketName} (h : done ++ op :: ops = closeOps n) :
    (∀ x ∈ op.objects, .destroy x ∉ done) ∧ (∀ x ∈ op.uses, .close x ∉ done) ∧
      (.controlSub ∈ op.uses → .destroy .dataSub ∈ done) := by
  have hLength : ∀ n, (closeOps n).length ≤ 24 := by decide
  have hLt : done.length < 24 := by
    have := hLength n
    rw [← h, List.length_append, List.length_cons] at this
    omega
  have hOrder := closeOps_order n ⟨done.length, hLt⟩ op (by rw [← h]; simp)
  rwa [← h, List.take_left] at hOrder

omit [DecidableEq κ] in
/-- The application thread closes the socket commands are read from when the dispatch
thread cannot have its locks. -/
theorem LockedThreads.Scoped.dataSub_destroyed (h : s.Scoped)
    (hInside : s.Inside .app .controlSub) : s.sync.lock .dataSub = .destroyed := by
  obtain ⟨op, ops, hTodo, hUses⟩ := hInside
  have hObjects : SocketName.controlSub ∈ op.objects := by
    cases op <;> first | exact hUses | cases hUses
  have hApp := h.app
  unfold LockedThreads.AppPhase at hApp
  cases hPc : s.threads.app <;> simp only [hPc, hTodo] at hApp
  case close status =>
    rcases hApp with ⟨hNil, -⟩ | ⟨a, done, -, hDone, hEnded⟩
    · cases hNil
    · exact (hEnded.lock _).mpr ((closeOps_split hDone).2.2 hUses)
  case freed => cases hApp.1
  case returned => cases hApp.1
  all_goals exact absurd hObjects ((staysWithin_cons hApp.2).2.1 rfl)

/-- Apart from the application thread, only the dispatch thread is ever there. -/
theorem LockedThreads.Scoped.inside_controlSub (h : s.Scoped) {t : SocketThread κ}
    (hInside : s.Inside t .controlSub) : t = .dispatch ∨ t = .app := by
  by_contra hNot
  obtain ⟨hDispatch, hApp⟩ := not_or.mp hNot
  obtain ⟨op, ops, hTodo, hUses⟩ := hInside
  have hObjects : SocketName.controlSub ∈ op.objects := by
    cases op <;> first | exact hUses | cases hUses
  have hWithin := h.others t hApp
  rw [hTodo, List.cons_append] at hWithin
  refine absurd hObjects ((staysWithin_cons hWithin).2.1 ?_)
  cases t with
  | dispatch => exact absurd rfl hDispatch
  | app => rfl
  | publish i => rfl
  | client k => rfl

/--
**One thread at a time on each socket.** Any number of application threads publish, post
commands and destroy the transport, next to its dispatch thread and its
`publishEndpoints` threads. As long as nothing undefined has happened, two threads are
never inside calls on the same socket, `zmq_close` included. For the socket that commands
are read from this is not due to its lock, which only `destroy` takes, but to the order in
which `destroy` closes the sockets.
-/
theorem sockets_exclusive
    (hRun : run LockedThreads.step (.start mIsNaming mBeaconInterval mUuid mPubEndpoint
      mNamingConnectRetries) as = some s)
    {t u : SocketThread κ} {x : SocketName} (ht : s.Inside t x) (hu : s.Inside u x) :
    t = u := by
  have hInv := LockedThreads.inv_of_run hRun
  -- the lock of the data socket keeps `destroy` off while commands are read
  have hControl : ∀ u, s.Inside u .controlSub → 0 < s.sync.depth .dispatch .dataSub →
      u = .dispatch := by
    intro u hu hPos
    rcases hInv.scope.inside_controlSub hu with rfl | rfl
    · rfl
    · obtain ⟨n, hHeld⟩ := held_of_depth_pos hPos
      rw [hInv.scope.dataSub_destroyed hu] at hHeld
      cases hHeld
  rcases hInv.ordered.of_inside ht with hPos | ⟨rfl, rfl, hPos⟩
  · rcases hInv.ordered.of_inside hu with hPos' | ⟨rfl, rfl, hPos'⟩
    · exact depth_unique hPos hPos'
    · exact hControl t ht hPos'
  · exact (hControl u hu hPos).symm

end Runs

/-- A transport without naming up to the first `zmq_poll` of its dispatch thread. -/
def untilPoll : List (LockedAct Bool) :=
  [.begin (.dispatch true) true, .effect .dispatch,
   .begin (.dispatch true) true, .effect .dispatch,
   .begin (.dispatch true) true, .exec .dispatch, .effect .dispatch,
   .begin (.dispatch true) true, .effect .dispatch,
   .begin (.dispatch true) true]

theorem sockets_exclusive_poll :
    ∃ s, run LockedThreads.step (.start false 0 [] [] 0) untilPoll = some s ∧
      s.Inside .dispatch .controlSub ∧ ∀ u, s.Inside u .controlSub → u = .dispatch := by
  obtain ⟨s, hRun, hTodo⟩ : ∃ s, run LockedThreads.step (.start false 0 [] [] 0) untilPoll =
      some s ∧ s.todo .dispatch = [.call [.controlSub, .dataSub]] :=
    exists_run (by decide +kernel)
  have hInside : s.Inside .dispatch .controlSub := ⟨_, _, hTodo, by decide⟩
  exact ⟨s, hRun, hInside, fun u hu => sockets_exclusive hRun hu hInside⟩

end ZmqBridge
