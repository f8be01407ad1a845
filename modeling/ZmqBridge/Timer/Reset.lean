import ZmqBridge.Model.Timer

/-!
# ZmqBridge — resetting a timer from many threads

Any number of threads call `zmqBridgeMamaTimer_reset` and `setInterval`, elements
fire on the heap's thread, and one thread calls `zmqBridgeMamaTimer_destroy`. Each
read and write of `mDestroying` is a step, and so is each section under
`lockTimerHeap`. The heap's thread may or may not hold the lock while it calls
`timerCallback`, and may or may not take a fired element off the heap: every
interleaving is a run.

* `SharedTimer.Pending` — the heap has at most one element of the timer, the one the
  timer knows, and none once `destroy` has left its section;
* `timer_pending_iff` — that is so in every state of a run exactly when no `reset`
  adds an element after the section of `destroy`;
* `meets_of_quiet` — which is so if nobody is past the test of `mDestroying` when
  `destroy` takes the lock;
* `late_reset_schedules` — and need not be so otherwise.
-/

namespace ZmqBridge

open Lib

variable {ι : Type}

-- ---------------------------------------------------------------------------
-- Threads and their steps
-- ---------------------------------------------------------------------------

/-- Where a thread is in `zmqBridgeMamaTimerImpl_reset`: outside, or past the test of
`mDestroying` and in front of the lock. -/
inductive ResetPc where
  | idle
  | tested
  deriving DecidableEq, Repr

/-- Where the one call of `zmqBridgeMamaTimer_destroy` is. -/
inductive DestroyPc where
  | notCalled
  | lock
  | enqueue
  | returned
  deriving DecidableEq, Repr

/-- `destroy` has left its section under the lock. -/
def DestroyPc.unlocked : DestroyPc → Bool
  | .enqueue | .returned => true
  | _ => false

/-- A timer, the elements of the heap whose closure it is, and the threads. -/
structure SharedTimer (ι : Type) where
  timer : ZmqTimerImpl
  heap : TimerHeap
  pc : ι → ResetPc
  heapPc : HeapPc
  destroyPc : DestroyPc

/-- What `zmqBridgeMamaTimer_create` leaves; `createOk` tells whether `createTimer`
succeeded. -/
def SharedTimer.init (createOk : Bool) : SharedTimer ι where
  timer := ⟨if createOk then some 0 else none, false, true⟩
  heap := ⟨if createOk then [0] else [], 1, none⟩
  pc := fun _ => .idle
  heapPc := .idle
  destroyPc := .notCalled

inductive SharedTimerAct (ι : Type) where
  | reset (i : ι)
  | resetLocked (i : ι) (createOk : Bool)
  | fire (element : Nat) (removed : Bool)
  | heapStep (createOk : Bool)
  | destroy
  | destroyLocked
  | destroyEnqueue

section Step

variable [DecidableEq ι]

/-- The next step of `zmqBridgeMamaTimerImpl_timerCallback`. -/
def SharedTimer.heapStep (s : SharedTimer ι) (createOk : Bool) : Option (SharedTimer ι) :=
  match s.heapPc with
  | .idle => none
  | .test => some { s with heapPc := if s.timer.mDestroying then .leave else .resetTest }
  | .resetTest =>
    some { s with heapPc := if s.timer.mDestroying then .enqueue else .resetLocked }
  | .resetLocked =>
    let (timer, heap) := TimerImpl.resetLocked s.timer s.heap createOk
    some { s with timer, heap, heapPc := .enqueue }
  | .enqueue => some { s with heapPc := .leave }
  | .leave => some { s with heapPc := .idle }

def SharedTimer.step (s : SharedTimer ι) : SharedTimerAct ι → Option (SharedTimer ι)
  | .reset i =>
    if s.pc i = .idle then
      -- a timer that is being destroyed is not reset
      some (if s.timer.mDestroying then s else { s with pc := Function.update s.pc i .tested })
    else none
  | .resetLocked i createOk =>
    if s.pc i = .tested then
      let (timer, heap) := TimerImpl.resetLocked s.timer s.heap createOk
      some { s with timer, heap, pc := Function.update s.pc i .idle }
    else none
  | .fire element removed =>
    if s.heapPc = .idle ∧ element ∈ s.heap.elements then
      some { s with
        heapPc := .test, heap := if removed then s.heap.destroyTimer element else s.heap }
    else none
  | .heapStep createOk => s.heapStep createOk
  | .destroy =>
    if s.destroyPc = .notCalled then
      some { s with
        timer := { s.timer with mDestroying := true, mAction := false }, destroyPc := .lock }
    else none
  | .destroyLocked =>
    if s.destroyPc = .lock then
      some { s with
        heap := s.heap.without s.timer
        timer := { s.timer with mTimerElement := none }
        destroyPc := .enqueue }
    else none
  | .destroyEnqueue =>
    if s.destroyPc = .enqueue then some { s with destroyPc := .returned } else none

-- ---------------------------------------------------------------------------
-- What is to be shown
-- ---------------------------------------------------------------------------

/-- **At most one element, and none after `destroy`.** -/
structure SharedTimer.Pending (s : SharedTimer ι) : Prop where
  atMostOne : s.heap.elements.length ≤ 1
  known : ∀ e ∈ s.heap.elements, s.timer.mTimerElement = some e
  gone : s.destroyPc.unlocked = true → s.heap.elements = []

/-- The step does not add an element after `destroy` has left its section. -/
def SharedTimer.NotLate (s : SharedTimer ι) : SharedTimerAct ι → Prop
  | .resetLocked _ createOk => s.destroyPc.unlocked = true → createOk = false
  | .heapStep createOk =>
    s.heapPc = .resetLocked → s.destroyPc.unlocked = true → createOk = false
  | _ => True

-- ---------------------------------------------------------------------------
-- What one step does
-- ---------------------------------------------------------------------------

/-- **Everything a step can do** to the elements of the timer. -/
inductive SharedTimer.Moves (s : SharedTimer ι) :
    SharedTimerAct ι → SharedTimer ι → Prop where
  | keeps {a : SharedTimerAct ι} {s' : SharedTimer ι} (hHeap : s'.heap = s.heap)
      (hElement : s'.timer.mTimerElement = s.timer.mTimerElement)
      (hUnlocked : s'.destroyPc.unlocked = s.destroyPc.unlocked) (hNotLate : s.NotLate a) :
    s.Moves a s'
  | replaces {a : SharedTimerAct ι} {s' : SharedTimer ι} (createOk : Bool)
      (hTimer : s'.timer = (TimerImpl.resetLocked s.timer s.heap createOk).1)
      (hHeap : s'.heap = (TimerImpl.resetLocked s.timer s.heap createOk).2)
      (hUnlocked : s'.destroyPc.unlocked = s.destroyPc.unlocked)
      (hNotLate : s.NotLate a ↔ (s.destroyPc.unlocked = true → createOk = false)) :
    s.Moves a s'
  | fires {element : Nat} {removed : Bool} {s' : SharedTimer ι}
      (hHeap : s'.heap.elements.Sublist s.heap.elements)
      (hElement : s'.timer.mTimerElement = s.timer.mTimerElement)
      (hUnlocked : s'.destroyPc.unlocked = s.destroyPc.unlocked) :
    s.Moves (.fire element removed) s'
  | destroys {s' : SharedTimer ι} (hHeap : s'.heap = s.heap.without s.timer) :
    s.Moves .destroyLocked s'

omit [DecidableEq ι] in
theorem SharedTimer.heapStep_moves {s s' : SharedTimer ι} {createOk : Bool}
    (h : s.heapStep createOk = some s') : s.Moves (.heapStep createOk) s' := by
  unfold SharedTimer.heapStep at h
  split at h
  · cases h
  · rename_i hPc
    cases h
    exact .keeps rfl rfl rfl (by intro hLocked; rw [hPc] at hLocked; cases hLocked)
  · rename_i hPc
    cases h
    exact .keeps rfl rfl rfl (by intro hLocked; rw [hPc] at hLocked; cases hLocked)
  · rename_i hPc
    cases h
    exact .replaces createOk rfl rfl rfl ⟨fun hLate => hLate hPc, fun hLate _ => hLate⟩
  · rename_i hPc
    cases h
    exact .keeps rfl rfl rfl (by intro hLocked; rw [hPc] at hLocked; cases hLocked)
  · rename_i hPc
    cases h
    exact .keeps rfl rfl rfl (by intro hLocked; rw [hPc] at hLocked; cases hLocked)

theorem SharedTimer.moves {s s' : SharedTimer ι} {a : SharedTimerAct ι}
    (h : s.step a = some s') : s.Moves a s' := by
  cases a with
  | heapStep createOk => exact SharedTimer.heapStep_moves h
  | reset i =>
    rw [SharedTimer.step] at h
    split at h
    · cases h
      split <;> exact .keeps rfl rfl rfl trivial
    · cases h
  | resetLocked i createOk =>
    rw [SharedTimer.step] at h
    split at h
    · cases h
      exact .replaces createOk rfl rfl rfl Iff.rfl
    · cases h
  | fire element removed =>
    rw [SharedTimer.step] at h
    split at h
    · cases h
      refine .fires ?_ rfl rfl
      cases removed with
      | false => exact List.Sublist.refl _
      | true => exact List.filter_sublist
    · cases h
  | destroy =>
    rw [SharedTimer.step] at h
    split at h
    · rename_i hPc
      cases h
      exact .keeps rfl rfl (by rw [hPc]; rfl) trivial
    · cases h
  | destroyLocked =>
    rw [SharedTimer.step] at h
    split at h
    · cases h
      exact .destroys rfl
    · cases h
  | destroyEnqueue =>
    rw [SharedTimer.step] at h
    split at h
    · rename_i hPc
      cases h
      exact .keeps rfl rfl (by rw [hPc]; rfl) trivial
    · cases h

omit [DecidableEq ι] in
/-- The timer's element is the only one, so removing it leaves none. -/
theorem TimerHeap.without_elements {heap : TimerHeap} {timer : ZmqTimerImpl}
    (hKnown : ∀ e ∈ heap.elements, timer.mTimerElement = some e) :
    (heap.without timer).elements = [] := by
  unfold TimerHeap.without
  split
  · rename_i hNone
    rw [List.eq_nil_iff_forall_not_mem]
    intro e he
    have hSome := hKnown e he
    rw [hNone] at hSome
    cases hSome
  · rename_i element hSome
    show heap.elements.filter (· ≠ element) = []
    rw [List.filter_eq_nil_iff]
    intro e he
    have hEq : some element = some e := hSome.symm.trans (hKnown e he)
    simp [Option.some.inj hEq]

omit [DecidableEq ι] in
/-- After `reset` there is the new element, or none if it could not be created. -/
theorem TimerImpl.resetLocked_elements {heap : TimerHeap} {timer : ZmqTimerImpl}
    (hKnown : ∀ e ∈ heap.elements, timer.mTimerElement = some e) (createOk : Bool) :
    (TimerImpl.resetLocked timer heap createOk).2.elements =
      if createOk then [(heap.without timer).next] else [] := by
  have hNil := TimerHeap.without_elements hKnown
  cases createOk with
  | false => exact hNil
  | true =>
    show (heap.without timer).elements ++ [_] = _
    rw [hNil]
    rfl

/-- **A step keeps the heap in order, if it is not a late `reset`.** -/
theorem SharedTimer.Pending.step {s s' : SharedTimer ι} (hPending : s.Pending)
    {a : SharedTimerAct ι} (h : s.step a = some s') : s'.Pending ↔ s.NotLate a := by
  cases SharedTimer.moves h with
  | keeps hHeap hElement hUnlocked hNotLate =>
    refine iff_of_true ⟨?_, ?_, ?_⟩ hNotLate
    · rw [hHeap]
      exact hPending.atMostOne
    · rw [hHeap, hElement]
      exact hPending.known
    · rw [hHeap, hUnlocked]
      exact hPending.gone
  | replaces createOk hTimer hHeap hUnlocked hNotLate =>
    have hElements := TimerImpl.resetLocked_elements hPending.known createOk
    rw [hNotLate]
    cases createOk with
    | false =>
      refine iff_of_true ⟨?_, ?_, ?_⟩ (fun _ => rfl)
      · rw [hHeap, hElements]
        exact Nat.zero_le _
      · rw [hHeap, hElements]
        exact fun e he => absurd he List.not_mem_nil
      · rw [hHeap, hElements]
        exact fun _ => rfl
    | true =>
      constructor
      · intro hAfter hGone
        have hNil := hAfter.gone (hUnlocked.trans hGone)
        rw [hHeap, hElements] at hNil
        cases hNil
      · intro hBefore
        have hLocked : s.destroyPc.unlocked ≠ true := fun hGone => by
          cases hBefore hGone
        refine ⟨?_, ?_, fun hGone => absurd (hUnlocked.symm.trans hGone) hLocked⟩
        · rw [hHeap, hElements]
          exact Nat.le_refl 1
        · rw [hHeap, hElements, hTimer]
          intro e he
          rw [List.mem_singleton.mp he]
          rfl
  | fires hHeap hElement hUnlocked =>
    refine iff_of_true ⟨?_, ?_, ?_⟩ trivial
    · exact hHeap.length_le.trans hPending.atMostOne
    · rw [hElement]
      exact fun e he => hPending.known e (hHeap.subset he)
    · rw [hUnlocked]
      intro hGone
      exact List.sublist_nil.mp (hPending.gone hGone ▸ hHeap)
  | destroys hHeap =>
    have hNil := TimerHeap.without_elements hPending.known
    refine iff_of_true ⟨?_, ?_, ?_⟩ trivial
    · rw [hHeap, hNil]
      exact Nat.zero_le _
    · rw [hHeap, hNil]
      exact fun e he => absurd he List.not_mem_nil
    · rw [hHeap]
      exact fun _ => hNil

-- ---------------------------------------------------------------------------
-- Runs
-- ---------------------------------------------------------------------------

omit [DecidableEq ι] in
theorem SharedTimer.pending_init (createOk : Bool) :
    (SharedTimer.init createOk : SharedTimer ι).Pending := by
  cases createOk with
  | false => exact ⟨Nat.zero_le _, fun e he => absurd he List.not_mem_nil, fun _ => rfl⟩
  | true =>
    refine ⟨Nat.le_refl 1, ?_, fun hGone => by cases hGone⟩
    intro e he
    rw [List.mem_singleton.mp he]
    rfl

/--
**When a timer has at most one pending element and none after `destroy`.** For any number
of threads, every interleaving of resets, firings and one `destroy`, and every outcome of
`createTimer`: the heap holds at most one element of the timer, `mTimerElement`, and none
once `destroy` has left its section, in every state of the run, if and only if no `reset`
that passed its test of `mDestroying` adds an element after that.
-/
theorem timer_pending_iff {createOk : Bool} {as : List (SharedTimerAct ι)} {s : SharedTimer ι}
    (hRun : run SharedTimer.step (SharedTimer.init createOk) as = some s) :
    Along SharedTimer.step SharedTimer.Pending (SharedTimer.init createOk) as ↔
      StepsMeet SharedTimer.step SharedTimer.NotLate (SharedTimer.init createOk) as := by
  refine along_iff_stepsMeet (J := SharedTimer.Pending) (SharedTimer.pending_init createOk)
    (fun s hs => hs) ?_ ?_ hRun
  · exact fun s a s' hs hOk h => (hs.step h).mpr hOk
  · exact fun s a s' hs h hs' => (hs.step h).mp hs'

/-- A timer that is being destroyed, and nobody is past the test. -/
structure SharedTimer.Quiet (s : SharedTimer ι) : Prop where
  destroying : s.timer.mDestroying = true
  resets : ∀ i, s.pc i = .idle
  firing : s.heapPc ≠ .resetLocked

omit [DecidableEq ι] in
theorem SharedTimer.Quiet.heapStep {s s' : SharedTimer ι} (hQuiet : s.Quiet) {createOk : Bool}
    (h : s.heapStep createOk = some s') : s'.Quiet := by
  unfold SharedTimer.heapStep at h
  rw [hQuiet.destroying] at h
  split at h
  · cases h
  · cases h
    exact ⟨hQuiet.destroying, hQuiet.resets, by simp⟩
  · cases h
    exact ⟨hQuiet.destroying, hQuiet.resets, by simp⟩
  · exact absurd ‹s.heapPc = .resetLocked› hQuiet.firing
  · cases h
    exact ⟨hQuiet.destroying, hQuiet.resets, by simp⟩
  · cases h
    exact ⟨hQuiet.destroying, hQuiet.resets, by simp⟩

theorem SharedTimer.Quiet.step {s s' : SharedTimer ι} (hQuiet : s.Quiet)
    {a : SharedTimerAct ι} (h : s.step a = some s') : s'.Quiet := by
  cases a with
  | heapStep createOk => exact hQuiet.heapStep h
  | reset i =>
    rw [SharedTimer.step, if_pos (hQuiet.resets i), hQuiet.destroying] at h
    cases h
    exact hQuiet
  | resetLocked i createOk =>
    rw [SharedTimer.step, hQuiet.resets i] at h
    cases h
  | fire element removed =>
    rw [SharedTimer.step] at h
    split at h
    · cases h
      exact ⟨hQuiet.destroying, hQuiet.resets, by simp⟩
    · cases h
  | destroy =>
    rw [SharedTimer.step] at h
    split at h
    · cases h
      exact ⟨rfl, hQuiet.resets, hQuiet.firing⟩
    · cases h
  | destroyLocked =>
    rw [SharedTimer.step] at h
    split at h
    · cases h
      exact ⟨hQuiet.destroying, hQuiet.resets, hQuiet.firing⟩
    · cases h
  | destroyEnqueue =>
    rw [SharedTimer.step] at h
    split at h
    · cases h
      exact ⟨hQuiet.destroying, hQuiet.resets, hQuiet.firing⟩
    · cases h

theorem SharedTimer.Quiet.notLate {s : SharedTimer ι} (hQuiet : s.Quiet)
    {a : SharedTimerAct ι} {s' : SharedTimer ι} (h : s.step a = some s') : s.NotLate a := by
  cases a with
  | resetLocked i createOk =>
    rw [SharedTimer.step, hQuiet.resets i] at h
    cases h
  | heapStep createOk => exact fun hPc => absurd hPc hQuiet.firing
  | reset i => trivial
  | fire element removed => trivial
  | destroy => trivial
  | destroyLocked => trivial
  | destroyEnqueue => trivial

/-- From a quiet state on no `reset` comes late. -/
theorem meets_of_quiet {s : SharedTimer ι} (hQuiet : s.Quiet) {as : List (SharedTimerAct ι)}
    {s' : SharedTimer ι} (hRun : run SharedTimer.step s as = some s') :
    StepsMeet SharedTimer.step SharedTimer.NotLate s as := by
  rintro pre a post t rfl hPre
  have hThere : t.Quiet := run_invariant (J := SharedTimer.Quiet)
    (fun s a s' hs h => hs.step h) hQuiet hPre
  rw [run_append, hPre, Option.bind_some, run_cons] at hRun
  obtain ⟨u, hStep, -⟩ := Option.bind_eq_some_iff.mp hRun
  exact hThere.notLate hStep

end Step

/-- Two threads reset a timer, an element fires, and then it is destroyed. -/
def resetAndDestroy : List (SharedTimerAct Bool) :=
  [.reset false, .reset true, .resetLocked true true, .fire 1 true, .heapStep true,
    .resetLocked false true, .heapStep true, .heapStep true, .destroy, .reset true,
    .destroyLocked, .heapStep true, .destroyEnqueue]

theorem timer_pending_resetAndDestroy :
    ∃ s, run SharedTimer.step (SharedTimer.init true) resetAndDestroy = some s ∧
      s.heap.elements = [] ∧
      (Along SharedTimer.step SharedTimer.Pending (SharedTimer.init true) resetAndDestroy ↔
        StepsMeet SharedTimer.step SharedTimer.NotLate (SharedTimer.init true)
          resetAndDestroy) := by
  have hRun : run SharedTimer.step (SharedTimer.init true) resetAndDestroy = some _ := rfl
  exact ⟨_, hRun, rfl, timer_pending_iff hRun⟩

/-- **A late reset.** A thread is past the test of `mDestroying` when the timer is
destroyed; it adds an element to the heap of a timer whose `destroyCallback` is on its
way. -/
theorem late_reset_schedules :
    ∃ s, run SharedTimer.step (SharedTimer.init true : SharedTimer Unit)
        [.reset (), .destroy, .destroyLocked, .resetLocked () true, .destroyEnqueue] = some s ∧
      s.destroyPc = .returned ∧ s.heap.elements = [1] ∧ ¬ s.Pending := by
  refine ⟨_, rfl, rfl, rfl, ?_⟩
  intro hPending
  cases hPending.gone rfl

end ZmqBridge
