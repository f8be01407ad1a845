import ZmqBridge.Queue.Contents

/-!
# ZmqBridge — many threads on one queue

Any number of threads put entries on a queue and dispatch from it. A dispatch is
three steps: the semaphore, the removal under the lock, the callback. An entry is
put on the list and posted under the lock, in one step, so the semaphore runs
behind by the threads that are between the first two steps of a dispatch.

* `SharedQueue.Exact` — the list is counted by the semaphore and the threads that
  got past it, and the entries were removed in the order they were accepted in;
* `sharedQueue_exact_iff` — that is so in every state of a run exactly when no
  entry is accepted while the semaphore is at `SEM_VALUE_MAX`;
* `long_queue_uncounted`  — what happens there.
-/

namespace ZmqBridge

open Lib

variable {ι C D Γ M : Type}

-- ---------------------------------------------------------------------------
-- Threads and their steps
-- ---------------------------------------------------------------------------

/-- Where a thread is in `uQueue_dispatchInt`. -/
inductive DispatcherPc (C D Γ M : Type) where
  /-- not dispatching, or inside a callback -/
  | idle
  /-- past the semaphore -/
  | passed
  /-- the lock is released, the callback is not called yet -/
  | removed (call : Option (UQCall C D Γ M))

def DispatcherPc.isPassed : DispatcherPc C D Γ M → Bool
  | .passed => true
  | _ => false

/-- The callback that is still to be called. -/
def DispatcherPc.due : DispatcherPc C D Γ M → List (UQCall C D Γ M)
  | .removed call => call.toList
  | _ => []

/-- A queue and the threads that use it; `accepted`, `removed` and `calls` record what
happened, the latter two with the thread. -/
structure SharedQueue (ι C D Γ M : Type) where
  impl : UQueueImpl C D Γ M
  pc : ι → DispatcherPc C D Γ M
  accepted : List (UQEntry C D Γ M)
  removed : List (ι × UQEntry C D Γ M)
  calls : List (ι × UQCall C D Γ M)
  faulted : Bool

def SharedQueue.init (impl : UQueueImpl C D Γ M) : SharedQueue ι C D Γ M :=
  ⟨impl, fun _ => .idle, [], [], [], false⟩

/-- The steps of a thread. A wait may fail at any time, when the time is up or on a
signal. -/
inductive SharedAct (ι C D Γ M : Type) where
  | enqueue (i : ι) (calloc : Bool) (e : UQEntry C D Γ M)
  | wait (i : ι)
  | waitFails (i : ι)
  | remove (i : ι)
  | call (i : ι)

section Step

variable [DecidableEq ι]

def SharedQueue.step (s : SharedQueue ι C D Γ M) :
    SharedAct ι C D Γ M → Option (SharedQueue ι C D Γ M)
  | .enqueue i calloc e =>
    match s.pc i with
    | .idle =>
      match UQueue.enqueue s.impl calloc e with
      | .error _ => some { s with faulted := true }
      | .ok (impl, status) =>
        some { s with
          impl, accepted := if status = .ok then s.accepted ++ [e] else s.accepted }
    | _ => none
  | .wait i =>
    match s.pc i with
    | .idle =>
      if s.impl.mSem = 0 then none
      else some { s with
        impl := { s.impl with mSem := s.impl.mSem - 1 }
        pc := Function.update s.pc i .passed }
    | _ => none
  | .waitFails i =>
    match s.pc i with
    | .idle => some s
    | _ => none
  | .remove i =>
    match s.pc i with
    | .passed =>
      match UQueue.dispatchInt s.impl with
      | .error _ => some { s with faulted := true }
      | .ok (impl, _, call) =>
        some { s with
          impl
          pc := Function.update s.pc i (.removed call)
          removed := s.removed ++ (s.impl.pending.head?.map fun e => (i, e)).toList }
    | _ => none
  | .call i =>
    match s.pc i with
    | .removed call =>
      some { s with
        pc := Function.update s.pc i .idle
        calls := s.calls ++ (call.map fun c => (i, c)).toList }
    | _ => none

/-- The number of threads between the semaphore and the lock. -/
def passed [Fintype ι] (pc : ι → DispatcherPc C D Γ M) : Nat :=
  (Finset.univ.filter fun i => (pc i).isPassed = true).card

/-- What the thread did, of a record of what all threads did. -/
def ofThread {α : Type} (i : ι) (log : List (ι × α)) : List α :=
  (log.filter fun p => p.1 = i).map Prod.snd

/-- **Every entry is removed once, in order, and nobody finds the list empty.** -/
structure SharedQueue.Exact [Fintype ι] (s : SharedQueue ι C D Γ M) : Prop where
  notFaulted : s.faulted = false
  counted : s.impl.pending.length = s.impl.mSem + passed s.pc
  finds : ∀ i, (s.pc i).isPassed = true → (s.impl.items .head).mNext ≠ some .tail
  inOrder : s.accepted = s.removed.map Prod.snd ++ s.impl.pending
  called : ∀ i, ofThread i s.calls ++ (s.pc i).due =
    (ofThread i s.removed).filterMap UQEntry.call

/-- An entry that is accepted can be posted. -/
def SharedQueue.CountsFit (s : SharedQueue ι C D Γ M) : SharedAct ι C D Γ M → Prop
  | .enqueue _ calloc _ => s.impl.Exhausted calloc ∨ s.impl.mSem < semValueMax
  | _ => True

-- ---------------------------------------------------------------------------
-- What one step does
-- ---------------------------------------------------------------------------

/-- What holds in every run, also when the semaphore lost a count. -/
structure SharedQueue.Inv (s : SharedQueue ι C D Γ M) : Prop where
  notFaulted : s.faulted = false
  sound : s.impl.Sound
  mSem_le : s.impl.mSem ≤ semValueMax

/-- **Everything a step can do.** -/
inductive SharedQueue.Moves (s : SharedQueue ι C D Γ M) :
    SharedAct ι C D Γ M → SharedQueue ι C D Γ M → Prop where
  | refused {i : ι} {calloc : Bool} {e : UQEntry C D Γ M} (hFull : s.impl.Exhausted calloc) :
    s.Moves (.enqueue i calloc e) s
  | accepted {i : ι} {calloc : Bool} {e : UQEntry C D Γ M} {impl : UQueueImpl C D Γ M}
      (hRoom : ¬ s.impl.Exhausted calloc) (hSound : impl.Sound)
      (hPending : impl.pending = s.impl.pending ++ [e])
      (hSem : impl.mSem = wsemPost s.impl.mSem) :
    s.Moves (.enqueue i calloc e) { s with impl, accepted := s.accepted ++ [e] }
  | wait {i : ι} (hPc : s.pc i = .idle) (hSem : s.impl.mSem ≠ 0) :
    s.Moves (.wait i) { s with
      impl := { s.impl with mSem := s.impl.mSem - 1 }
      pc := Function.update s.pc i .passed }
  | waitFails {i : ι} : s.Moves (.waitFails i) s
  | found {i : ι} {e : UQEntry C D Γ M} {rest : List (UQEntry C D Γ M)}
      {impl : UQueueImpl C D Γ M} (hPc : s.pc i = .passed) (hFront : s.impl.pending = e :: rest)
      (hSound : impl.Sound) (hPending : impl.pending = rest) (hSem : impl.mSem = s.impl.mSem) :
    s.Moves (.remove i) { s with
      impl
      pc := Function.update s.pc i (.removed e.call)
      removed := s.removed ++ [(i, e)] }
  | missed {i : ι} (hPc : s.pc i = .passed) (hNil : s.impl.pending = []) :
    s.Moves (.remove i) { s with pc := Function.update s.pc i (.removed none) }
  | call {i : ι} {call : Option (UQCall C D Γ M)} (hPc : s.pc i = .removed call) :
    s.Moves (.call i) { s with
      pc := Function.update s.pc i .idle
      calls := s.calls ++ (call.map fun c => (i, c)).toList }

theorem SharedQueue.Inv.moves {s s' : SharedQueue ι C D Γ M} (hInv : s.Inv)
    {a : SharedAct ι C D Γ M} (h : s.step a = some s') : s.Moves a s' := by
  cases a with
  | enqueue i calloc e =>
    simp only [SharedQueue.step] at h
    split at h
    · by_cases hFull : s.impl.Exhausted calloc
      · rw [enqueue_full hFull] at h
        cases h
        exact .refused hFull
      · obtain ⟨impl, hEnq, hSound, hPending, hSem⟩ := hInv.sound.enqueue hFull e
        rw [hEnq] at h
        cases h
        exact .accepted hFull hSound hPending hSem
    · cases h
  | wait i =>
    simp only [SharedQueue.step] at h
    split at h
    · rename_i hPc
      split at h
      · cases h
      · rename_i hSem
        cases h
        exact .wait hPc hSem
    · cases h
  | waitFails i =>
    simp only [SharedQueue.step] at h
    split at h
    · cases h
      exact .waitFails
    · cases h
  | remove i =>
    simp only [SharedQueue.step] at h
    split at h
    · rename_i hPc
      cases hFront : s.impl.pending with
      | nil =>
        rw [hInv.sound.dispatchInt_nil hFront, hFront] at h
        cases h
        simpa using SharedQueue.Moves.missed hPc hFront
      | cons e rest =>
        obtain ⟨impl, hOut, hSound, hPending, hSem⟩ := hInv.sound.dispatchInt hFront
        rw [hOut, hFront] at h
        cases h
        exact .found hPc hFront hSound hPending hSem
    · cases h
  | call i =>
    simp only [SharedQueue.step] at h
    split at h
    · rename_i call hPc
      cases h
      exact .call hPc
    · cases h

theorem SharedQueue.Inv.step {s s' : SharedQueue ι C D Γ M} (hInv : s.Inv)
    {a : SharedAct ι C D Γ M} (h : s.step a = some s') : s'.Inv := by
  cases hInv.moves h with
  | refused hFull => exact hInv
  | accepted hRoom hSound hPending hSem =>
    refine ⟨hInv.notFaulted, hSound, ?_⟩
    show _ ≤ _
    rw [hSem]
    exact wsemPost_le hInv.mSem_le
  | wait hPc hSem =>
    exact ⟨hInv.notFaulted, hInv.sound.withSem _, (Nat.sub_le _ _).trans hInv.mSem_le⟩
  | waitFails => exact hInv
  | found hPc hFront hSound hPending hSem =>
    refine ⟨hInv.notFaulted, hSound, ?_⟩
    show _ ≤ _
    rw [hSem]
    exact hInv.mSem_le
  | missed hPc hNil => exact ⟨hInv.notFaulted, hInv.sound, hInv.mSem_le⟩
  | call hPc => exact ⟨hInv.notFaulted, hInv.sound, hInv.mSem_le⟩

-- ---------------------------------------------------------------------------
-- Counting
-- ---------------------------------------------------------------------------

theorem ofThread_append {α : Type} (i : ι) (log more : List (ι × α)) :
    ofThread i (log ++ more) = ofThread i log ++ ofThread i more := by
  rw [ofThread, List.filter_append, List.map_append]
  rfl

theorem ofThread_self {α : Type} (i : ι) (x : Option α) :
    ofThread i (x.map fun x => (i, x)).toList = x.toList := by
  cases x with
  | none => rfl
  | some x => simp [ofThread]

theorem ofThread_of_ne {α : Type} {i j : ι} (h : i ≠ j) (x : Option α) :
    ofThread j (x.map fun x => (i, x)).toList = [] := by
  cases x with
  | none => rfl
  | some x => simp [ofThread, h]

/-- A list with entries does not end where it begins. -/
theorem head_ne_tail {impl : UQueueImpl C D Γ M} (h : impl.pending ≠ []) :
    (impl.items .head).mNext ≠ some .tail := by
  intro hTail
  apply h
  rw [UQueueImpl.pending, hTail]
  cases impl.blocks.sum with
  | zero => rfl
  | succ n =>
    rw [Links.walk, if_pos rfl]
    rfl

variable [Fintype ι]

/-- Moving one thread changes the number by that thread alone. -/
theorem passed_update (pc : ι → DispatcherPc C D Γ M) (i : ι) (p : DispatcherPc C D Γ M) :
    passed (Function.update pc i p) + (if (pc i).isPassed = true then 1 else 0) =
      passed pc + if p.isPassed = true then 1 else 0 := by
  have hRest : ∀ q : ι → DispatcherPc C D Γ M, passed q =
      ((Finset.univ.erase i).filter fun j => (q j).isPassed = true).card +
        if (q i).isPassed = true then 1 else 0 := by
    intro q
    rw [passed, Finset.card_filter, Finset.card_filter,
      ← Finset.sum_erase_add _ _ (Finset.mem_univ i)]
  have hSame : ((Finset.univ.erase i).filter fun j =>
      (Function.update pc i p j).isPassed = true) =
        (Finset.univ.erase i).filter fun j => (pc j).isPassed = true := by
    refine Finset.filter_congr fun j hj => ?_
    rw [Function.update_of_ne (Finset.ne_of_mem_erase hj)]
  rw [hRest (Function.update pc i p), hRest pc, hSame, Function.update_self]
  omega

omit [DecidableEq ι] in
theorem passed_pos {pc : ι → DispatcherPc C D Γ M} {i : ι} (h : (pc i).isPassed = true) :
    0 < passed pc :=
  Finset.card_pos.mpr ⟨i, Finset.mem_filter.mpr ⟨Finset.mem_univ i, h⟩⟩

omit [DecidableEq ι] in
/-- Who got past the semaphore finds an entry, when the count is right. -/
theorem SharedQueue.pending_ne_nil {s : SharedQueue ι C D Γ M}
    (hCounted : s.impl.pending.length = s.impl.mSem + passed s.pc) {i : ι}
    (h : (s.pc i).isPassed = true) : s.impl.pending ≠ [] := by
  intro hNil
  have hPos := passed_pos h
  rw [hNil, List.length_nil] at hCounted
  omega

theorem SharedQueue.Exact.of_counted {s : SharedQueue ι C D Γ M} (hFaulted : s.faulted = false)
    (hCounted : s.impl.pending.length = s.impl.mSem + passed s.pc)
    (hOrder : s.accepted = s.removed.map Prod.snd ++ s.impl.pending)
    (hCalled : ∀ i, ofThread i s.calls ++ (s.pc i).due =
      (ofThread i s.removed).filterMap UQEntry.call) : s.Exact :=
  ⟨hFaulted, hCounted,
    fun _ h => head_ne_tail (SharedQueue.pending_ne_nil hCounted h), hOrder, hCalled⟩

section Keeps

variable {s : SharedQueue ι C D Γ M} {i : ι} (hExact : s.Exact)
include hExact

theorem SharedQueue.Exact.accepted_iff {e : UQEntry C D Γ M} {impl : UQueueImpl C D Γ M}
    (hPending : impl.pending = s.impl.pending ++ [e])
    (hSem : impl.mSem = wsemPost s.impl.mSem) :
    SharedQueue.Exact { s with impl, accepted := s.accepted ++ [e] } ↔
      s.impl.mSem < semValueMax := by
  have hCounted := hExact.counted
  have hLen : impl.pending.length = s.impl.pending.length + 1 := by
    rw [hPending, List.length_append, List.length_singleton]
  constructor
  · intro hNew
    by_contra hMax
    have hNewCounted : impl.pending.length = impl.mSem + passed s.pc := hNew.counted
    rw [hSem, wsemPost, if_neg hMax] at hNewCounted
    omega
  · intro hLt
    refine .of_counted hExact.notFaulted ?_ ?_ hExact.called
    · show impl.pending.length = impl.mSem + passed s.pc
      rw [hSem, wsemPost, if_pos hLt]
      omega
    · show s.accepted ++ [e] = s.removed.map Prod.snd ++ impl.pending
      rw [hExact.inOrder, hPending, List.append_assoc]

theorem SharedQueue.Exact.wait (hPc : s.pc i = .idle) (hSem : s.impl.mSem ≠ 0) :
    SharedQueue.Exact { s with
      impl := { s.impl with mSem := s.impl.mSem - 1 }
      pc := Function.update s.pc i .passed } := by
  have hCounted := hExact.counted
  refine .of_counted hExact.notFaulted ?_ hExact.inOrder ?_
  · have hPassed := passed_update s.pc i .passed
    rw [hPc] at hPassed
    simp only [DispatcherPc.isPassed, Bool.false_eq_true, if_false, if_true] at hPassed
    show s.impl.pending.length = s.impl.mSem - 1 + passed (Function.update s.pc i .passed)
    omega
  · intro j
    have hCalled := hExact.called j
    by_cases hji : j = i
    · subst hji
      rw [hPc] at hCalled
      show ofThread j s.calls ++ (Function.update s.pc j .passed j).due = _
      rw [Function.update_self]
      exact hCalled
    · show ofThread j s.calls ++ (Function.update s.pc i .passed j).due = _
      rw [Function.update_of_ne hji]
      exact hCalled

theorem SharedQueue.Exact.found {e : UQEntry C D Γ M} {rest : List (UQEntry C D Γ M)}
    {impl : UQueueImpl C D Γ M} (hPc : s.pc i = .passed)
    (hFront : s.impl.pending = e :: rest) (hPending : impl.pending = rest)
    (hSem : impl.mSem = s.impl.mSem) :
    SharedQueue.Exact { s with
      impl
      pc := Function.update s.pc i (.removed e.call)
      removed := s.removed ++ [(i, e)] } := by
  have hCounted := hExact.counted
  refine .of_counted hExact.notFaulted ?_ ?_ ?_
  · have hPassed := passed_update s.pc i (.removed e.call)
    rw [hPc] at hPassed
    simp only [DispatcherPc.isPassed, Bool.false_eq_true, if_false, if_true] at hPassed
    rw [hFront, List.length_cons] at hCounted
    show impl.pending.length =
      impl.mSem + passed (Function.update s.pc i (.removed e.call))
    rw [hPending, hSem]
    omega
  · show s.accepted = (s.removed ++ [(i, e)]).map Prod.snd ++ impl.pending
    rw [hExact.inOrder, hFront, hPending, List.map_append, List.append_assoc]
    rfl
  · intro j
    have hCalled := hExact.called j
    show ofThread j s.calls ++ (Function.update s.pc i (.removed e.call) j).due =
      (ofThread j (s.removed ++ ((some e).map fun e => (i, e)).toList)).filterMap UQEntry.call
    rw [ofThread_append, List.filterMap_append]
    by_cases hji : j = i
    · subst hji
      rw [hPc, DispatcherPc.due, List.append_nil] at hCalled
      rw [Function.update_self, ofThread_self, hCalled, DispatcherPc.due]
      congr 1
      cases e.call with
      | none => simp
      | some c => simp
    · rw [Function.update_of_ne hji, ofThread_of_ne (Ne.symm hji), hCalled, List.filterMap_nil,
        List.append_nil]

theorem SharedQueue.Exact.call {call : Option (UQCall C D Γ M)}
    (hPc : s.pc i = .removed call) :
    SharedQueue.Exact { s with
      pc := Function.update s.pc i .idle
      calls := s.calls ++ (call.map fun c => (i, c)).toList } := by
  have hCounted := hExact.counted
  refine .of_counted hExact.notFaulted ?_ hExact.inOrder ?_
  · have hPassed := passed_update s.pc i .idle
    rw [hPc] at hPassed
    simp only [DispatcherPc.isPassed, Bool.false_eq_true, if_false] at hPassed
    show s.impl.pending.length = s.impl.mSem + passed (Function.update s.pc i .idle)
    omega
  · intro j
    have hCalled := hExact.called j
    show ofThread j (s.calls ++ (call.map fun c => (i, c)).toList) ++
      (Function.update s.pc i .idle j).due = _
    rw [ofThread_append]
    by_cases hji : j = i
    · subst hji
      rw [hPc] at hCalled
      rw [Function.update_self, ofThread_self, ← hCalled]
      exact List.append_nil _
    · rw [Function.update_of_ne hji, ofThread_of_ne (Ne.symm hji), List.append_nil]
      exact hCalled

/-- **One step** keeps everything exactly when its entry can be posted. -/
theorem SharedQueue.Exact.step (hInv : s.Inv) {a : SharedAct ι C D Γ M}
    {s' : SharedQueue ι C D Γ M} (h : s.step a = some s') : s'.Exact ↔ s.CountsFit a := by
  cases hInv.moves h with
  | refused hFull => exact iff_of_true hExact (Or.inl hFull)
  | accepted hRoom hSound hPending hSem =>
    rw [hExact.accepted_iff hPending hSem]
    exact ⟨Or.inr, fun hFits => hFits.resolve_left hRoom⟩
  | wait hPc hSem => exact iff_of_true (hExact.wait hPc hSem) trivial
  | waitFails => exact iff_of_true hExact trivial
  | found hPc hFront hSound hPending hSem =>
    exact iff_of_true (hExact.found hPc hFront hPending hSem) trivial
  | missed hPc hNil =>
    exact absurd hNil (SharedQueue.pending_ne_nil hExact.counted (by rw [hPc]; rfl))
  | call hPc => exact iff_of_true (hExact.call hPc) trivial

end Keeps

end Step

-- ---------------------------------------------------------------------------
-- Runs
-- ---------------------------------------------------------------------------

/-- A wait and a removal with nothing in between are a call of `uQueue_dispatch`. -/
theorem SharedQueue.wait_remove [DecidableEq ι] {s : SharedQueue ι C D Γ M} {i : ι}
    (hPc : s.pc i = .idle) {impl : UQueueImpl C D Γ M} {status : WombatQueueStatus}
    {call : Option (UQCall C D Γ M)}
    (h : UQueue.dispatch s.impl = some (.ok (impl, status, call))) :
    ∃ s', run SharedQueue.step s [.wait i, .remove i] = some s' ∧ s'.impl = impl ∧
      s'.pc i = .removed call := by
  rw [UQueue.dispatch] at h
  split at h
  · cases h
  · rename_i hSem
    have hOut := Option.some.inj h
    let t : SharedQueue ι C D Γ M := { s with
      impl := { s.impl with mSem := s.impl.mSem - 1 }
      pc := Function.update s.pc i .passed }
    have hWait : s.step (.wait i) = some t := by
      simp only [SharedQueue.step, hPc, if_neg hSem]
      rfl
    have hPassed : t.pc i = .passed := Function.update_self ..
    let u : SharedQueue ι C D Γ M := { t with
      impl
      pc := Function.update t.pc i (.removed call)
      removed := t.removed ++ (t.impl.pending.head?.map fun e => (i, e)).toList }
    have hRemove : t.step (.remove i) = some u := by
      simp only [SharedQueue.step, hPassed]
      rw [show UQueue.dispatchInt t.impl = _ from hOut]
    refine ⟨u, ?_, rfl, Function.update_self ..⟩
    rw [run_cons, hWait, Option.bind_some, run_cons, hRemove]
    rfl

/-- A dispatch that times out leaves the queue as it is. -/
theorem timedDispatch_timeout {impl impl' : UQueueImpl C D Γ M} {interrupted : Bool}
    {call : Option (UQCall C D Γ M)} (hSound : impl.Sound)
    (h : UQueue.timedDispatch impl interrupted = .ok (impl', .timeout, call)) :
    impl' = impl ∧ call = none := by
  rw [UQueue.timedDispatch] at h
  split at h
  · cases h
    exact ⟨rfl, rfl⟩
  · have hSound' := hSound.withSem (impl.mSem - 1)
    cases hFront : impl.pending with
    | nil =>
      rw [hSound'.dispatchInt_nil ((pending_withSem ..).trans hFront)] at h
      cases h
    | cons e rest =>
      obtain ⟨impl', hOut, -⟩ := hSound'.dispatchInt ((pending_withSem ..).trans hFront)
      rw [hOut] at h
      cases h

section Runs

variable [Fintype ι] [DecidableEq ι] {impl : UQueueImpl C D Γ M} {size : Nat}

omit [Fintype ι] [DecidableEq ι] in
theorem SharedQueue.inv_init (hFresh : Fresh impl size) :
    (SharedQueue.init impl : SharedQueue ι C D Γ M).Inv := by
  refine ⟨rfl, hFresh.sound, ?_⟩
  show impl.mSem ≤ semValueMax
  rw [hFresh.mSem]
  exact Nat.zero_le _

theorem SharedQueue.exact_init (hFresh : Fresh impl size) :
    (SharedQueue.init impl : SharedQueue ι C D Γ M).Exact := by
  refine .of_counted rfl ?_ ?_ ?_
  · have hPassed : passed (fun _ : ι => (DispatcherPc.idle : DispatcherPc C D Γ M)) = 0 := by
      simp [passed, DispatcherPc.isPassed]
    show impl.pending.length = impl.mSem + passed fun _ => .idle
    rw [hFresh.pending, hFresh.mSem, hPassed]
    rfl
  · show [] = [] ++ impl.pending
    rw [hFresh.pending]
    rfl
  · intro i
    rfl

/--
**Dispatchers share a queue without losing or doubling an entry.** For every queue
`uQueue_create` accepts, any number of threads and every interleaving of their steps:

* the list has as many entries as the semaphore and the threads past it say, nobody
  past the semaphore finds it empty, and what was accepted is what was removed, by one
  thread each and in order, followed by what is on the list, in every state of the run,
  if and only if no entry is accepted while the semaphore is at `SEM_VALUE_MAX`;
* a timed dispatch that times out changes nothing.
-/
theorem sharedQueue_exact_iff {d : QueueDefaults}
    {maxSize initialSize growBySize : Fin (2 ^ 32)} {semInit callocOk : Bool}
    (hCreate : UQueue.create d (UQueue.allocate d) maxSize initialSize growBySize semInit
      callocOk = .ok (impl, .ok))
    {as : List (SharedAct ι C D Γ M)} {s : SharedQueue ι C D Γ M}
    (hRun : run SharedQueue.step (SharedQueue.init impl) as = some s) :
    (Along SharedQueue.step SharedQueue.Exact (SharedQueue.init impl) as ↔
      StepsMeet SharedQueue.step SharedQueue.CountsFit (SharedQueue.init impl) as) ∧
    ∀ interrupted impl' call,
      UQueue.timedDispatch s.impl interrupted = .ok (impl', .timeout, call) →
      impl' = s.impl ∧ call = none := by
  have hFresh := fresh_of_create hCreate
  have hInv : s.Inv := run_invariant (J := SharedQueue.Inv)
    (fun s a s' hs h => hs.step h) (SharedQueue.inv_init hFresh) hRun
  constructor
  · refine along_iff_stepsMeet (J := fun s => s.Inv ∧ s.Exact)
      ⟨SharedQueue.inv_init hFresh, SharedQueue.exact_init hFresh⟩ (fun s hJ => hJ.2) ?_ ?_ hRun
    · exact fun s a s' hJ hOk h => ⟨hJ.1.step h, (hJ.2.step hJ.1 h).mpr hOk⟩
    · exact fun s a s' hJ h hExact => (hJ.2.step hJ.1 h).mp hExact
  · exact fun interrupted impl' call h => timedDispatch_timeout hInv.sound h

end Runs

/-- Two threads get past the semaphore one after the other and take their entries off
the other way round. -/
def overtaking : List (SharedAct Bool Nat Nat Nat Nat) :=
  [.enqueue false true (tick 1), .waitFails true, .enqueue true true (note 2), .wait false,
    .wait true, .remove true, .call true, .enqueue true true (tick 3), .remove false]

theorem sharedQueue_exact_overtaking :
    ∃ s, run SharedQueue.step (SharedQueue.init smallQueue) overtaking = some s ∧
      s.removed = [(true, tick 1), (false, note 2)] ∧
      (Along SharedQueue.step SharedQueue.Exact (SharedQueue.init smallQueue) overtaking ↔
        StepsMeet SharedQueue.step SharedQueue.CountsFit (SharedQueue.init smallQueue)
          overtaking) := by
  have hCreate : UQueue.create smallDefaults (UQueue.allocate smallDefaults) 3 2 1 true true =
      .ok (smallQueue, .ok) := rfl
  have hRun : run SharedQueue.step (SharedQueue.init smallQueue) overtaking = some _ := rfl
  exact ⟨_, hRun, rfl, (sharedQueue_exact_iff hCreate hRun).1⟩

/-- Enqueues of an idle thread, next to those of a queue with no threads. -/
theorem SharedQueue.run_enqueues [DecidableEq ι] {i : ι} (e : UQEntry C D Γ M) (n : Nat)
    {w w' : EventQueue C D Γ M} {s : SharedQueue ι C D Γ M} (hPc : s.pc i = .idle)
    (hImpl : s.impl = w.impl)
    (h : run EventQueue.step w (List.replicate n (.enqueue true e)) = some w') :
    ∃ s', run SharedQueue.step s (List.replicate n (.enqueue i true e)) = some s' ∧
      s'.impl = w'.impl ∧ s'.pc = s.pc := by
  induction n generalizing w s with
  | zero =>
    cases h
    exact ⟨s, rfl, hImpl, rfl⟩
  | succ n ih =>
    rw [List.replicate_succ, run_cons] at h
    obtain ⟨v, hStep, hRest⟩ := Option.bind_eq_some_iff.mp h
    have hMirror : ∃ t, s.step (.enqueue i true e) = some t ∧ t.impl = v.impl ∧
        t.pc = s.pc := by
      rw [EventQueue.step, ← hImpl] at hStep
      simp only [SharedQueue.step, hPc]
      cases hOut : UQueue.enqueue s.impl true e with
      | error f =>
        rw [hOut] at hStep
        cases hStep
        exact ⟨_, rfl, rfl, rfl⟩
      | ok out =>
        rw [hOut] at hStep
        cases hStep
        exact ⟨_, rfl, rfl, rfl⟩
    obtain ⟨t, hStep', hImpl', hPc'⟩ := hMirror
    obtain ⟨s', hRun, hImpl'', hPc''⟩ := ih (by rw [hPc', hPc]) hImpl' hRest
    refine ⟨s', ?_, hImpl'', hPc''.trans hPc'⟩
    rw [List.replicate_succ, run_cons, hStep', Option.bind_some]
    exact hRun

/-- **The semaphore stops counting.** One thread puts `2 ^ 31` entries on a queue before
anybody dispatches; the last of them is on the list and not in the semaphore. -/
theorem long_queue_uncounted :
    ∃ impl s, UQueue.create smallDefaults (UQueue.allocate smallDefaults)
        (Fin.ofNat _ (2 ^ 32 - 1)) (Fin.ofNat _ (2 ^ 31)) 0 true true = .ok (impl, .ok) ∧
      run SharedQueue.step (SharedQueue.init impl : SharedQueue Bool Nat Nat Nat Nat)
        (List.replicate (2 ^ 31) (.enqueue false true (tick 1))) = some s ∧
      s.impl.pending.length ≠ s.impl.mSem + passed s.pc := by
  have hFits : ¬ (UQueue.configured smallDefaults (Fin.ofNat _ (2 ^ 32 - 1)) 0 :
      UQueueImpl Nat Nat Nat Nat).TooBig
        (smallDefaults.firstChunk (Fin.ofNat _ (2 ^ 31))) := by decide
  obtain ⟨impl, hCreate, hFresh⟩ := create_fresh _ hFits
  have hSize : smallDefaults.firstChunk (Fin.ofNat _ (2 ^ 31)) = 2 ^ 31 := by decide
  rw [hSize] at hFresh
  obtain ⟨w, queue, free, hFill, hShape, hLen⟩ := run_fill hFresh.shape
    (w := EventQueue.init impl) rfl (tick 1) (n := 2 ^ 31) (by
      rw [chunkNodes, List.length_map, List.length_range])
  obtain ⟨s, hRun, hImpl, hPc⟩ := SharedQueue.run_enqueues (i := false) (tick 1) (2 ^ 31)
    (s := SharedQueue.init impl) rfl rfl hFill
  refine ⟨impl, s, hCreate, hRun, ?_⟩
  have hInv : s.Inv := run_invariant (J := SharedQueue.Inv)
    (fun s a s' hs h => hs.step h) (SharedQueue.inv_init hFresh) hRun
  have hMax := hInv.mSem_le
  have hPassed : passed s.pc = 0 := by
    rw [hPc]
    rfl
  have hPending : s.impl.pending.length = 2 ^ 31 := by
    rw [hImpl, hShape.pending_eq, UQueueImpl.entries, List.length_map, hLen]
    rfl
  rw [hPending, hPassed]
  rw [semValueMax] at hMax
  omega

end ZmqBridge
