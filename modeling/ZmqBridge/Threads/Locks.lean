import ZmqBridge.Model.Sockets
import ZmqBridge.Threads.Shutdown

/-!
# ZmqBridge — the locks of the sockets

The threads of a transport and those of the application share its sockets, in any
interleaving of their operations. Each step is checked for itself: it uses a socket with
the lock that guards it, takes the locks in one order and gives back what it took. Only
the dispatch thread has locks from one step to the next.

* `socketOps_ok`         — every step, checked;
* `threads_of_run`       — the locks only hold the threads up;
* `sockets_no_deadlock`  — and never in a circle.
-/

namespace ZmqBridge

open Lib

instance : Fintype SocketName where
  elems := {.controlSub, .controlPub, .dataPub, .dataSub, .namingPub, .namingSub, .monitorSub,
    .monitorPub}
  complete s := by cases s <;> decide

variable {κ : Type}

-- ---------------------------------------------------------------------------
-- The locks a thread has between two steps
-- ---------------------------------------------------------------------------

/-- The socket commands are read from is not locked: the dispatch thread uses it while it
has the lock of the data socket. -/
def dispatchGuard : SocketName → SocketName
  | .controlSub => .dataSub
  | s => s

def SocketThread.guard : SocketThread κ → SocketName → SocketName
  | .dispatch => dispatchGuard
  | _ => id

/-- The order in which locks are taken. -/
def lockRank : SocketName → Nat
  | .dataSub => 0
  | .namingSub => 1
  | _ => 2

/-- How often the dispatch thread has each lock. -/
def lockCounts (mIsNaming locked : Bool) (s : SocketName) : Nat :=
  if locked = true ∧ s ∈ dispatchLocks mIsNaming then 1 else 0

def DispatchPc.locked : DispatchPc → Bool
  | .start | .post | .setBeacon | .done => false
  | _ => true

/-- Whether the thread has the locks of the dispatch thread. -/
def Threads.locked (s : Threads) : SocketThread κ → Bool
  | .dispatch => s.dispatch.locked
  | _ => false

/-- Whether it has them after its next step. -/
def Threads.willLock (s : Threads) : SocketThread κ → Bool
  | .dispatch =>
    match s.dispatch with
    | .setBeacon => true
    | .loop => s.impl.naming.mIsDispatching
    | pc => pc.locked
  | _ => false

/-- The operations take a thread that has the locks `has` on from `locked` to `willLock`,
and it keeps what both have. -/
abbrev Leads (guard : SocketName → SocketName) (mIsNaming locked willLock : Bool)
    (has : SocketName → Nat) (ops : List (SyncOp SocketName)) : Prop :=
  Orderly guard lockRank
    (fun s => min (lockCounts mIsNaming locked s) (lockCounts mIsNaming willLock s))
    has ops (lockCounts mIsNaming willLock)

/-- All that is done for one step. -/
abbrev Passes (guard : SocketName → SocketName) (mIsNaming locked willLock : Bool)
    (ops : List (SyncOp SocketName)) : Prop :=
  Leads guard mIsNaming locked willLock (lockCounts mIsNaming locked) ops

/-- Nothing is closed, and the socket commands are read from is left to those who read. -/
def staysWithin (reads : Bool) (ops : List (SyncOp SocketName)) : Bool :=
  ops.all fun op => !op.ends && (reads || !op.objects.contains .controlSub)

theorem staysWithin_cons {reads : Bool} {op : SyncOp SocketName} {ops : List (SyncOp SocketName)}
    (h : staysWithin reads (op :: ops) = true) :
    op.ends = false ∧ (reads = false → .controlSub ∉ op.objects) ∧
      staysWithin reads ops = true := by
  simp only [staysWithin, List.all_cons, Bool.and_eq_true, Bool.not_eq_true', Bool.or_eq_true]
    at h
  refine ⟨h.1.1, fun hReads => ?_, h.2⟩
  simpa [hReads] using h.1.2

def SocketThread.reads : SocketThread κ → Bool
  | .dispatch => true
  | _ => false

/-- Before and after together. -/
def SocketOps.all (ops : SocketOps) : List (SyncOp SocketName) := ops.before ++ ops.after

section Ops

variable {s s' : Threads} {a : ThreadsAct}

theorem destroyOps_passes : Passes id s.impl.mIsNaming false false s.destroyOps.all := by
  unfold Threads.destroyOps
  generalize s.impl.mIsNaming = n
  cases s.app <;> dsimp only <;> revert n <;> decide

theorem dispatchOps_ok {ok : Bool} (h : s.dispatch ≠ .done) :
    Passes dispatchGuard s.impl.mIsNaming (s.locked (.dispatch : SocketThread κ))
      (s.willLock (.dispatch : SocketThread κ)) (s.dispatchOps ok).all ∧
    staysWithin true (s.dispatchOps ok).all = true := by
  unfold Threads.dispatchOps Threads.locked Threads.willLock
  generalize s.impl.mIsNaming = n
  generalize s.impl.naming.mIsDispatching = d
  cases hPc : s.dispatch
  case done => exact absurd hPc h
  all_goals dsimp only; revert n d ok; decide

theorem controlOps_ok : ∀ n, Passes dispatchGuard n true true s.controlOps.all ∧
    staysWithin true s.controlOps.all = true := by
  unfold Threads.controlOps
  cases s.impl.control with
  | nil => decide
  | cons pMsg control =>
    dsimp only
    split <;> decide

theorem namingOps_ok {calls : NamingCalls} {pMsg : NamingMsg} :
    Passes dispatchGuard true true true (s.namingOps calls pMsg).all ∧
      staysWithin true (s.namingOps calls pMsg).all = true := by
  unfold Threads.namingOps
  split
  · split
    · decide
    · split <;> decide
  · split
    · decide
    · split <;> decide

theorem publishOps_ok {i : Nat} : ∀ n, Passes id n false false (s.publishOps i).all ∧
    staysWithin false (s.publishOps i).all = true := by
  unfold Threads.publishOps
  split <;> decide

/-- **Every step is orderly** in what it does to the sockets. -/
theorem socketOps_ok (k : κ) (h : (s.step a).isSome) :
    Passes (a.thread k).guard s.impl.mIsNaming (s.locked (a.thread k))
      (s.willLock (a.thread k)) (s.socketOps a).all ∧
    (a.thread k ≠ .app → staysWithin (a.thread k).reads (s.socketOps a).all = true) := by
  cases a with
  | destroy ok => exact ⟨destroyOps_passes, fun hApp => absurd rfl hApp⟩
  | dispatch ok =>
    have hNotDone : s.dispatch ≠ .done := by
      intro hDone
      simp [Threads.step, Threads.dispatchThread, hDone] at h
    exact (dispatchOps_ok hNotDone).imp_right fun hWithin _ => hWithin
  | control =>
    obtain ⟨s', hs'⟩ := Option.isSome_iff_exists.mp h
    simp only [Threads.step, Threads.recvControl] at hs'
    split at hs'
    · rename_i hPc hControl
      simp only [ThreadsAct.thread, Threads.locked, Threads.willLock, hPc, DispatchPc.locked]
      exact (controlOps_ok _).imp_right fun hWithin _ => hWithin
    · cases hs'
  | naming calls pMsg =>
    obtain ⟨s', hs'⟩ := Option.isSome_iff_exists.mp h
    simp only [Threads.step, Threads.recvNaming] at hs'
    split at hs'
    · rename_i hGuard
      simp only [ThreadsAct.thread, Threads.locked, Threads.willLock, hGuard.1, hGuard.2,
        DispatchPc.locked]
      exact namingOps_ok.imp_right fun hWithin _ => hWithin
    · cases hs'
  | publish i ok => exact (publishOps_ok _).imp_right fun hWithin _ => hWithin
  | command msg =>
    have hSend : ∀ n, Passes id n false false (sendOps .controlPub).all ∧
        staysWithin false (sendOps .controlPub).all = true := by decide
    exact (hSend _).imp_right fun hWithin _ => hWithin

theorem Threads.mIsNaming_step (h : s.step a = some s') :
    s'.impl.mIsNaming = s.impl.mIsNaming := by
  by_cases ha : ∃ calls pMsg, a = .naming calls pMsg
  · obtain ⟨calls, pMsg, rfl⟩ := ha
    simp only [Threads.step, Threads.recvNaming] at h
    split at h
    · split at h <;> cases h <;> rfl
    · cases h
  · exact (Threads.frame_of_step (fun calls pMsg hEq => ha ⟨calls, pMsg, hEq⟩) h).naming

/-- A step leaves the thread with the locks it was going to have. -/
theorem Threads.locked_step (k : κ) (h : s.step a = some s') :
    s'.locked (a.thread k) = s.willLock (a.thread k) := by
  cases a with
  | dispatch ok =>
    simp only [Threads.step, Threads.dispatchThread] at h
    simp only [ThreadsAct.thread, Threads.locked, Threads.willLock]
    cases hPc : s.dispatch
    case done => simp [hPc] at h
    case loop =>
      simp only [hPc] at h
      cases h
      cases s.impl.naming.mIsDispatching <;> rfl
    case poll =>
      simp only [hPc] at h
      cases h
      cases ok <;> rfl
    case beacon =>
      simp only [hPc] at h
      cases h
      dsimp only
      split <;> rfl
    all_goals
      simp only [hPc] at h
      cases h
      rfl
  | control =>
    simp only [Threads.step, Threads.recvControl] at h
    split at h
    · rename_i hPc hControl
      cases h
      simp only [ThreadsAct.thread, Threads.locked, Threads.willLock, hPc]
    · cases h
  | naming calls pMsg =>
    simp only [Threads.step, Threads.recvNaming] at h
    split at h
    · rename_i hGuard
      split at h <;> cases h <;>
        simp only [ThreadsAct.thread, Threads.locked, Threads.willLock, hGuard.1]
    · cases h
  | destroy ok => rfl
  | publish i ok => rfl
  | command msg => rfl

/-- `destroy` leaves the other threads and the naming state alone. -/
theorem Threads.destroy_frame {ok : Bool} (h : s.destroy ok = some s') :
    s'.dispatch = s.dispatch ∧ s'.impl.naming = s.impl.naming ∧ s'.publish = s.publish := by
  unfold Threads.destroy at h
  cases hPc : s.app <;> simp only [hPc] at h
  case disconnect =>
    split at h
    · split at h <;> cases h <;> exact ⟨rfl, rfl, rfl⟩
    · cases h
      exact ⟨rfl, rfl, rfl⟩
  case joinPublish =>
    split at h
    · cases h
      exact ⟨rfl, rfl, rfl⟩
    · split at h <;> cases h
      exact ⟨rfl, rfl, rfl⟩
  all_goals try split at h
  all_goals cases h
  all_goals exact ⟨rfl, rfl, rfl⟩

/-- The other threads have no say in where the dispatch thread is. -/
theorem Threads.dispatch_of_other {k : κ} (ha : a.thread k ≠ .dispatch)
    (h : s.step a = some s') :
    s'.dispatch = s.dispatch ∧
      s'.impl.naming.mIsDispatching = s.impl.naming.mIsDispatching := by
  cases a with
  | dispatch ok => exact absurd rfl ha
  | control => exact absurd rfl ha
  | naming calls pMsg => exact absurd rfl ha
  | destroy ok =>
    obtain ⟨hPc, hNaming, -⟩ := Threads.destroy_frame h
    exact ⟨hPc, by rw [hNaming]⟩
  | publish i ok =>
    simp only [Threads.step, Threads.publishEndpoints] at h
    split at h <;> cases h
    exact ⟨rfl, publishEndpoints_mIsDispatching _ _⟩
  | command msg =>
    simp only [Threads.step] at h
    split at h <;> cases h
    exact ⟨rfl, rfl⟩

theorem Threads.locked_of_other {k : κ} {t : SocketThread κ} (ht : t ≠ a.thread k)
    (h : s.step a = some s') :
    s'.locked t = s.locked t ∧ s'.willLock t = s.willLock t := by
  cases t with
  | dispatch =>
    obtain ⟨hPc, hDispatching⟩ := Threads.dispatch_of_other ht.symm h
    simp only [Threads.locked, Threads.willLock, hPc, hDispatching, and_self]
  | app => exact ⟨rfl, rfl⟩
  | publish i => exact ⟨rfl, rfl⟩
  | client k' => exact ⟨rfl, rfl⟩

/-- A thread that is going to have more locks than it has is the dispatch thread, before
it takes them. -/
theorem Threads.setBeacon_of_willLock {t : SocketThread κ} (hLocked : s.locked t = false)
    (hWill : s.willLock t = true) : t = .dispatch ∧ s.dispatch = .setBeacon := by
  cases t with
  | dispatch =>
    refine ⟨rfl, ?_⟩
    unfold Threads.locked at hLocked
    unfold Threads.willLock at hWill
    cases hPc : s.dispatch <;> simp [hPc, DispatchPc.locked] at hLocked hWill ⊢
  | app => cases hWill
  | publish i => cases hWill
  | client k => cases hWill

end Ops

-- ---------------------------------------------------------------------------
-- Moves
-- ---------------------------------------------------------------------------

theorem LockedThreads.idle_iff {s : LockedThreads κ} {t : SocketThread κ} :
    s.idle t = true ↔ s.todo t = [] ∧ s.pending t = none := by
  simp [LockedThreads.idle]

section Moves

variable [DecidableEq κ] {s s' : LockedThreads κ} {act : LockedAct κ}

/-- What a step of a transport with its sockets can be. -/
inductive LockedThreads.Moves (s : LockedThreads κ) : LockedAct κ → LockedThreads κ → Prop
  | begin {a : ThreadsAct} {k : κ} (hTodo : s.todo (a.thread k) = [])
      (hPending : s.pending (a.thread k) = none) (hSome : (s.threads.step a).isSome) :
      s.Moves (.begin a k) { s with
        todo := Function.update s.todo (a.thread k) (s.threads.socketOps a).before
        pending := Function.update s.pending (a.thread k)
          (some (a, (s.threads.socketOps a).after)) }
  | publish {k : κ} (hTodo : s.todo (.client k) = []) (hPending : s.pending (.client k) = none) :
      s.Moves (.publish k)
        { s with todo := Function.update s.todo (.client k) (useOps .dataPub) }
  | undefined {t : SocketThread κ} {op : SyncOp SocketName} {ops : List (SyncOp SocketName)}
      (hTodo : s.todo t = op :: ops) (hExec : s.sync.exec t op = .undefined) :
      s.Moves (.exec t) { s with undefined := true }
  | exec {t : SocketThread κ} {op : SyncOp SocketName} {ops : List (SyncOp SocketName)}
      {sync : Sync (SocketThread κ) SocketName} (hTodo : s.todo t = op :: ops)
      (hExec : s.sync.exec t op = .next sync) :
      s.Moves (.exec t) { s with sync, todo := Function.update s.todo t ops }
  | effect {t : SocketThread κ} {a : ThreadsAct} {ops : List (SyncOp SocketName)}
      {threads : Threads} (hTodo : s.todo t = []) (hPending : s.pending t = some (a, ops))
      (hStep : s.threads.step a = some threads) :
      s.Moves (.effect t) { s with
        threads
        todo := Function.update s.todo t ops
        pending := Function.update s.pending t none }

theorem LockedThreads.moves_of_step (h : s.step act = some s') :
    s.undefined = false ∧ s.Moves act s' := by
  unfold LockedThreads.step at h
  split at h
  · cases h
  · rename_i hDefined
    refine ⟨Bool.eq_false_of_not_eq_true hDefined, ?_⟩
    cases act with
    | begin a k =>
      simp only [Option.ite_none_right_eq_some] at h
      obtain ⟨⟨hIdle, hSome⟩, hs⟩ := h
      cases hs
      obtain ⟨hTodo, hPending⟩ := LockedThreads.idle_iff.mp hIdle
      exact .begin hTodo hPending hSome
    | publish k =>
      simp only [Option.ite_none_right_eq_some] at h
      obtain ⟨hIdle, hs⟩ := h
      cases hs
      obtain ⟨hTodo, hPending⟩ := LockedThreads.idle_iff.mp hIdle
      exact .publish hTodo hPending
    | exec t =>
      simp only [LockedThreads.exec] at h
      split at h
      · cases h
      · rename_i op ops hTodo
        split at h
        · cases h
        · rename_i hExec
          cases h
          exact .undefined hTodo hExec
        · rename_i sync hExec
          cases h
          exact .exec hTodo hExec
    | effect t =>
      simp only [LockedThreads.effect] at h
      split at h
      · rename_i a ops hTodo hPending
        split at h
        · cases h
        · rename_i threads hStep
          cases h
          exact .effect hTodo hPending hStep
      · cases h

end Moves

-- ---------------------------------------------------------------------------
-- Every thread is orderly
-- ---------------------------------------------------------------------------

/-- What is left to do after the pending step. -/
def LockedThreads.rest (s : LockedThreads κ) (t : SocketThread κ) : List (SyncOp SocketName) :=
  ((s.pending t).map Prod.snd).getD []

/-- Whether the thread has the locks of the dispatch thread when all is done. -/
def LockedThreads.willLock (s : LockedThreads κ) (t : SocketThread κ) : Bool :=
  if (s.pending t).isSome then s.threads.willLock t else s.threads.locked t

section Orderly

variable [DecidableEq κ] {s s' : LockedThreads κ} {t : SocketThread κ}

/-- The thread does the rest of its step in an orderly way. -/
def LockedThreads.OrderlyAt (s : LockedThreads κ) (t : SocketThread κ) : Prop :=
  Leads t.guard s.threads.impl.mIsNaming (s.threads.locked t) (s.willLock t) (s.sync.depth t)
    (s.todo t ++ s.rest t)

/-- What does not concern a thread. -/
theorem LockedThreads.OrderlyAt.congr (h : s.OrderlyAt t)
    (hDepth : s'.sync.depth t = s.sync.depth t) (hTodo : s'.todo t = s.todo t)
    (hPending : s'.pending t = s.pending t)
    (hNaming : s'.threads.impl.mIsNaming = s.threads.impl.mIsNaming)
    (hLocked : s'.threads.locked t = s.threads.locked t)
    (hWill : s'.threads.willLock t = s.threads.willLock t) : s'.OrderlyAt t := by
  unfold LockedThreads.OrderlyAt LockedThreads.rest LockedThreads.willLock at h ⊢
  rw [hDepth, hTodo, hPending, hNaming, hLocked, hWill]
  exact h

/-- Between two steps a thread has the locks of its place. -/
theorem LockedThreads.OrderlyAt.depth_of_idle (h : s.OrderlyAt t) (hTodo : s.todo t = [])
    (hPending : s.pending t = none) :
    s.sync.depth t = lockCounts s.threads.impl.mIsNaming (s.threads.locked t) := by
  unfold LockedThreads.OrderlyAt LockedThreads.rest LockedThreads.willLock at h
  rw [hTodo, hPending] at h
  funext x
  exact h.2 x

/-- The steps that are pending are the threads' own; when the dispatch thread takes or gives
back its locks, nothing is left to do after its step. -/
structure LockedThreads.Ordered (s : LockedThreads κ) : Prop where
  orderly : ∀ t, s.OrderlyAt t
  owner : ∀ t a ops, s.pending t = some (a, ops) → ∃ k : κ, a.thread k = t
  last : ∀ a ops, s.pending .dispatch = some (a, ops) →
    s.threads.dispatch = .setBeacon ∨ s.threads.dispatch = .loop → ops = []

theorem LockedThreads.ordered_init (threads : Threads) (hStart : threads.dispatch = .start) :
    (LockedThreads.init threads : LockedThreads κ).Ordered where
  orderly t := by
    have hLocked : threads.locked t = false := by
      cases t with
      | dispatch => rw [Threads.locked, hStart]; rfl
      | app => rfl
      | publish i => rfl
      | client k => rfl
    show Leads t.guard _ _ _ _ []
    refine ⟨fun x => ?_, fun x => ?_⟩
    · simp [LockedThreads.init, hLocked, lockCounts]
    · simp [LockedThreads.init, LockedThreads.willLock, hLocked, lockCounts, Sync.depth,
        RecLock.depth]
  owner t a ops h := by cases h
  last a ops h := by cases h

/-- A thread begins a step. -/
theorem LockedThreads.Ordered.begin (h : s.Ordered) {a : ThreadsAct} {k : κ}
    (hTodo : s.todo (a.thread k) = []) (hPending : s.pending (a.thread k) = none)
    (hSome : (s.threads.step a).isSome) :
    LockedThreads.Ordered { s with
      todo := Function.update s.todo (a.thread k) (s.threads.socketOps a).before
      pending := Function.update s.pending (a.thread k)
        (some (a, (s.threads.socketOps a).after)) } where
  orderly t := by
    by_cases ht : t = a.thread k
    · subst ht
      have hDepth := (h.orderly _).depth_of_idle hTodo hPending
      unfold LockedThreads.OrderlyAt LockedThreads.rest LockedThreads.willLock
      simp only [Function.update_self, hDepth, Option.map_some, Option.getD_some,
        Option.isSome_some, if_true]
      exact (socketOps_ok k hSome).1
    · exact (h.orderly t).congr rfl (Function.update_of_ne ht _ _)
        (Function.update_of_ne ht _ _) rfl rfl rfl
  owner t b ops hb := by
    by_cases ht : t = a.thread k
    · subst ht
      simp only [Function.update_self, Option.some.injEq, Prod.mk.injEq] at hb
      exact ⟨k, by rw [hb.1]⟩
    · simp only [Function.update_of_ne ht] at hb
      exact h.owner t b ops hb
  last b ops hb hPc := by
    have hPc' : s.threads.dispatch = .setBeacon ∨ s.threads.dispatch = .loop := hPc
    by_cases ht : (SocketThread.dispatch : SocketThread κ) = a.thread k
    · simp only [ht, Function.update_self, Option.some.injEq, Prod.mk.injEq] at hb
      obtain ⟨s', hs'⟩ := Option.isSome_iff_exists.mp hSome
      rw [← hb.2]
      cases a with
      | dispatch ok =>
        rw [Threads.socketOps, Threads.dispatchOps]
        rcases hPc' with hPc' | hPc' <;> rw [hPc']
        cases s.threads.impl.naming.mIsDispatching <;> rfl
      | control =>
        rcases hPc' with hPc' | hPc' <;> simp [Threads.step, Threads.recvControl, hPc'] at hs'
      | naming calls pMsg =>
        rcases hPc' with hPc' | hPc' <;> simp [Threads.step, Threads.recvNaming, hPc'] at hs'
      | destroy ok => cases ht
      | publish i ok => cases ht
      | command msg => cases ht
    · simp only [Function.update_of_ne ht] at hb
      exact h.last b ops hb hPc'

/-- A client begins to publish. -/
theorem LockedThreads.Ordered.publish (h : s.Ordered) {k : κ}
    (hTodo : s.todo (.client k) = []) (hPending : s.pending (.client k) = none) :
    LockedThreads.Ordered
      { s with todo := Function.update s.todo (.client k) (useOps .dataPub) } where
  orderly t := by
    by_cases ht : t = .client k
    · subst ht
      have hPasses : ∀ n, Passes id n false false (useOps .dataPub ++ []) := by decide
      have hDepth := (h.orderly _).depth_of_idle hTodo hPending
      unfold LockedThreads.OrderlyAt LockedThreads.rest LockedThreads.willLock
      simp only [Function.update_self, hPending, hDepth]
      exact hPasses _
    · exact (h.orderly t).congr rfl (Function.update_of_ne ht _ _) rfl rfl rfl rfl
  owner := h.owner
  last := h.last

/-- A thread performs an operation. -/
theorem LockedThreads.Ordered.exec (h : s.Ordered) {op : SyncOp SocketName}
    {ops : List (SyncOp SocketName)} {sync : Sync (SocketThread κ) SocketName}
    (hTodo : s.todo t = op :: ops) (hExec : s.sync.exec t op = .next sync) :
    LockedThreads.Ordered { s with sync, todo := Function.update s.todo t ops } where
  orderly u := by
    by_cases hu : u = t
    · subst hu
      have hAt := h.orderly u
      unfold LockedThreads.OrderlyAt LockedThreads.rest LockedThreads.willLock at hAt ⊢
      rw [hTodo, List.cons_append] at hAt
      simpa using hAt.exec hExec
    · exact (h.orderly u).congr (exec_depth_ne hExec hu) (Function.update_of_ne hu _ _) rfl rfl
        rfl rfl
  owner := h.owner
  last := h.last

/-- The rest of a step, once it has taken effect. -/
theorem leads_after {guard : SocketName → SocketName} {n locked will : Bool}
    {has : SocketName → Nat} {ops : List (SyncOp SocketName)}
    (h : Leads guard n locked will has ops)
    (hNil : locked = false → will = true → ops = []) : Leads guard n will will has ops := by
  by_cases hGain : locked = false ∧ will = true
  · obtain rfl := hNil hGain.1 hGain.2
    exact ⟨fun x => (min_le_left _ _).trans (h.2 x).ge, h.2⟩
  · refine h.mono fun x => le_min ((min_le_left _ _).trans ?_) (min_le_left _ _)
    -- the locks that are kept are those the thread has anyway
    cases locked
    · cases will
      · exact le_rfl
      · exact absurd ⟨rfl, rfl⟩ hGain
    · unfold lockCounts
      split <;> split <;> simp_all

/-- A step takes effect. -/
theorem LockedThreads.Ordered.effect (h : s.Ordered) {a : ThreadsAct}
    {ops : List (SyncOp SocketName)} {threads : Threads} (hTodo : s.todo t = [])
    (hPending : s.pending t = some (a, ops)) (hStep : s.threads.step a = some threads) :
    LockedThreads.Ordered { s with
      threads
      todo := Function.update s.todo t ops
      pending := Function.update s.pending t none } := by
  obtain ⟨k, hOwner⟩ := h.owner t a ops hPending
  have hNaming := Threads.mIsNaming_step hStep
  refine ⟨fun u => ?_, fun u b ops' hb => ?_, fun b ops' hb hPc => ?_⟩
  · by_cases hu : u = t
    · subst hu
      have hLocked : threads.locked u = s.threads.willLock u :=
        hOwner ▸ Threads.locked_step k hStep
      have hAt := h.orderly u
      unfold LockedThreads.OrderlyAt LockedThreads.rest LockedThreads.willLock at hAt ⊢
      simp only [hTodo, hPending, List.nil_append, Option.map_some, Option.getD_some,
        Option.isSome_some, if_true] at hAt
      simp only [Function.update_self, Option.map_none, Option.getD_none, List.append_nil,
        Option.isSome_none, Bool.false_eq_true, if_false, hNaming, hLocked]
      refine leads_after hAt fun hNot hWill => ?_
      obtain ⟨rfl, hPc⟩ := Threads.setBeacon_of_willLock hNot hWill
      exact h.last a ops hPending (Or.inl hPc)
    · obtain ⟨hLocked, hWill⟩ := Threads.locked_of_other (hOwner ▸ hu) hStep
      exact (h.orderly u).congr rfl (Function.update_of_ne hu _ _) (Function.update_of_ne hu _ _)
        hNaming hLocked hWill
  · by_cases hu : u = t
    · subst hu
      simp at hb
    · simp only [Function.update_of_ne hu] at hb
      exact h.owner u b ops' hb
  · by_cases hu : (SocketThread.dispatch : SocketThread κ) = t
    · subst hu
      simp at hb
    · simp only [Function.update_of_ne hu] at hb
      rw [← hOwner] at hu
      have hSame := (Threads.dispatch_of_other (Ne.symm hu) hStep).1
      exact h.last b ops' hb (hSame ▸ hPc)

theorem LockedThreads.Ordered.move (h : s.Ordered) {act : LockedAct κ} (hMove : s.Moves act s') :
    s'.Ordered := by
  cases hMove with
  | begin hTodo hPending hSome => exact h.begin hTodo hPending hSome
  | publish hTodo hPending => exact h.publish hTodo hPending
  | undefined hTodo hExec => exact ⟨h.orderly, h.owner, h.last⟩
  | exec hTodo hExec => exact h.exec hTodo hExec
  | effect hTodo hPending hStep => exact h.effect hTodo hPending hStep

end Orderly

-- ---------------------------------------------------------------------------
-- Runs
-- ---------------------------------------------------------------------------

/-- A transport that was just created, with its sockets. -/
def LockedThreads.start (mIsNaming : Bool) (mBeaconInterval : Nat)
    (mUuid mPubEndpoint : List Byte) (mNamingConnectRetries : Int) : LockedThreads κ :=
  .init (.init mIsNaming mBeaconInterval mUuid mPubEndpoint mNamingConnectRetries)

section Runs

variable [DecidableEq κ] {threads : Threads} {mIsNaming : Bool} {mBeaconInterval : Nat}
  {mUuid mPubEndpoint : List Byte} {mNamingConnectRetries : Int} {as : List (LockedAct κ)}
  {s : LockedThreads κ}

/-- **The locks only hold threads up**: without them, the threads make the same run. -/
theorem threads_of_run
    (hRun : run LockedThreads.step (.init threads) as = some s) :
    ∃ bs, run Threads.step threads bs = some s.threads := by
  refine run_invariant (J := fun s => ∃ bs, run Threads.step threads bs = some s.threads)
    (fun s act s' h hStep => ?_) ⟨[], rfl⟩ hRun
  obtain ⟨bs, hBs⟩ := h
  obtain ⟨-, hMove⟩ := LockedThreads.moves_of_step hStep
  cases hMove with
  | begin hTodo hPending hSome => exact ⟨bs, hBs⟩
  | publish hTodo hPending => exact ⟨bs, hBs⟩
  | undefined hTodo hExec => exact ⟨bs, hBs⟩
  | exec hTodo hExec => exact ⟨bs, hBs⟩
  | @effect t a ops threads hTodo hPending hEffect => exact ⟨bs ++ [a], run_snoc_of hBs hEffect⟩

theorem LockedThreads.ordered_of_run (hStart : threads.dispatch = .start)
    (hRun : run LockedThreads.step (.init threads) as = some s) : s.Ordered :=
  run_invariant (J := LockedThreads.Ordered)
    (fun _ _ _ h hStep => h.move (LockedThreads.moves_of_step hStep).2)
    (LockedThreads.ordered_init threads hStart) hRun

theorem lockRank_le (x : SocketName) : lockRank x ≤ 2 := by
  cases x <;> decide

/--
**No deadlock on the sockets.** No thread waits for the lock of a socket that is had by a
thread that waits for it in turn, through any number of others. A thread that waits does
so, through the owners of the locks, for one that does not wait for a lock. The dispatch
thread has up to two of them for as long as it runs, and takes others on top; nobody else
waits with a lock.
-/
theorem sockets_no_deadlock
    (hRun : run LockedThreads.step (.start mIsNaming mBeaconInterval mUuid mPubEndpoint
      mNamingConnectRetries) as = some s) (t : SocketThread κ) :
    ¬ Relation.TransGen (s.sync.WaitsFor s.todo) t t ∧
      (s.sync.Waits s.todo t →
        ∃ u, Relation.TransGen (s.sync.WaitsFor s.todo) t u ∧ ¬ s.sync.Waits s.todo u) := by
  choose mid hMid using fun t => ((LockedThreads.ordered_of_run rfl hRun).orderly t).of_append
  exact ⟨not_transGen_waitsFor hMid, exists_not_waiting hMid lockRank_le⟩

end Runs

/-- Two clients publish at once. -/
def publishTogether : List (LockedAct Bool) :=
  [.publish false, .publish true, .exec (.client false)]

theorem sockets_no_deadlock_publishTogether :
    ∃ s, run LockedThreads.step (.start false 0 [] [] 0) publishTogether = some s ∧
      s.sync.Waits s.todo (.client true) ∧
      ∃ u, Relation.TransGen (s.sync.WaitsFor s.todo) (.client true) u ∧
        ¬ s.sync.Waits s.todo u := by
  obtain ⟨s, hRun, hTodo, hLock⟩ : ∃ s, run LockedThreads.step (.start false 0 [] [] 0)
      publishTogether = some s ∧ s.todo (.client true) = useOps .dataPub ∧
        s.sync.lock .dataPub = .held (.client false) 0 :=
    exists_run (by decide +kernel)
  have hWaits : s.sync.Waits s.todo (.client true) := by
    refine ⟨_, _, hTodo, ?_⟩
    simp [Sync.exec, hLock]
  exact ⟨s, hRun, hWaits, (sockets_no_deadlock hRun (.client true)).2 hWaits⟩

end ZmqBridge
