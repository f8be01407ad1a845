import ZmqBridge.Queue.Dispatchers

/-!
# ZmqBridge — watermark notifications

A queue tells its parent when it fills up and when it has been drained again. The
threads of `Queue.Dispatchers` use the queue; the watermarks are set and checked at
any time, each check as one step. The event count of a check is the semaphore, so it
can jump over a mark between two checks.

* `Check.Hysteresis`      — what a check should notify the parent of;
* `alternates_of_run`     — notifications alternate, in every run;
* `watermarks_follow_iff` — every check follows the hysteresis exactly when no check
  comes before the high watermark is set, and none finds the count below the low one;
* `watermarks_misfire`    — what happens otherwise.
-/

namespace ZmqBridge

open Lib

variable {ι C D Γ M : Type}

-- ---------------------------------------------------------------------------
-- Queues with watermarks
-- ---------------------------------------------------------------------------

/-- A check of the watermarks: what it found, and what it notified the parent of. -/
structure Check where
  highSet : Bool
  marks : Watermarks
  count : Nat
  notified : Option WatermarkEvent
  deriving DecidableEq, Repr

/-- A shared queue and its watermarks. `highSet` records that the high watermark was
set, `checks` the checks so far. -/
structure MarkedQueue (ι C D Γ M : Type) where
  queue : SharedQueue ι C D Γ M
  marks : Watermarks
  highSet : Bool
  checks : List Check

def MarkedQueue.init (impl : UQueueImpl C D Γ M) : MarkedQueue ι C D Γ M :=
  ⟨SharedQueue.init impl, .init, false, []⟩

/-- What the parent was notified of. -/
def MarkedQueue.notifications (s : MarkedQueue ι C D Γ M) : List WatermarkEvent :=
  s.checks.filterMap Check.notified

inductive MarkedAct (ι C D Γ M : Type) where
  | thread (a : SharedAct ι C D Γ M)
  | setHigh (highWatermark : Nat)
  | setLow (lowWatermark : Nat)
  | check

/-- A check has been made. -/
def MarkedQueue.checked (s : MarkedQueue ι C D Γ M)
    (out : Watermarks × Option WatermarkEvent) : MarkedQueue ι C D Γ M :=
  { s with
    marks := out.1
    checks := s.checks ++ [⟨s.highSet, s.marks, Queue.getEventCount s.queue.impl, out.2⟩] }

def MarkedQueue.step [DecidableEq ι] (s : MarkedQueue ι C D Γ M) :
    MarkedAct ι C D Γ M → Option (MarkedQueue ι C D Γ M)
  | .thread a => (s.queue.step a).map fun queue => { s with queue }
  | .setHigh highWatermark =>
    let (marks, status) := Queue.setHighWatermark s.marks highWatermark
    some { s with marks, highSet := s.highSet || decide (status = .ok) }
  | .setLow lowWatermark =>
    some { s with marks := (Queue.setLowWatermark s.marks lowWatermark).1 }
  | .check => some (s.checked (Queue.checkWatermarks s.queue.impl s.marks))

-- ---------------------------------------------------------------------------
-- What is to be shown
-- ---------------------------------------------------------------------------

/-- The high notification is for a queue that reaches the high watermark, if there is
one; the low one for a queue that is back at the low watermark or below. -/
def Check.Hysteresis (c : Check) : Prop :=
  (c.notified = some .highWatermarkExceeded ↔
    c.marks.mHighWaterFired = false ∧ c.highSet = true ∧ c.marks.mHighWatermark ≤ c.count) ∧
  (c.notified = some .lowWatermarkExceeded ↔
    c.marks.mHighWaterFired = true ∧ c.count ≤ c.marks.mLowWatermark)
  deriving Decidable

/-- High and low notifications take turns, and the first is high. -/
def Alternates (l : List WatermarkEvent) : Prop :=
  ∀ i e, l[i]? = some e →
    e = if i % 2 = 0 then .highWatermarkExceeded else .lowWatermarkExceeded

/-- **The notifications follow the hysteresis.** -/
structure MarkedQueue.Follows (s : MarkedQueue ι C D Γ M) : Prop where
  hysteresis : ∀ c ∈ s.checks, c.Hysteresis
  alternates : Alternates s.notifications
  quiet : s.highSet = false → s.notifications = []

/-- The high watermark is set before the first check, and no check with the high
notification fired finds fewer events than the low watermark. -/
def MarkedQueue.InStep (s : MarkedQueue ι C D Γ M) : MarkedAct ι C D Γ M → Prop
  | .check =>
    if s.marks.mHighWaterFired = true then s.marks.mLowWatermark ≤ s.queue.impl.mSem
    else s.marks.mHighWatermark ≠ 0
  | _ => True

-- ---------------------------------------------------------------------------
-- One check
-- ---------------------------------------------------------------------------

/-- **Everything a check can do.** -/
theorem checkWatermarks_cases (mQueue : UQueueImpl C D Γ M) (m : Watermarks) :
    (m.mHighWaterFired = true ∧ mQueue.mSem = m.mLowWatermark ∧
      Queue.checkWatermarks mQueue m =
        ({ m with mHighWaterFired := false }, some .lowWatermarkExceeded)) ∨
    (m.mHighWaterFired = true ∧ mQueue.mSem ≠ m.mLowWatermark ∧
      Queue.checkWatermarks mQueue m = (m, none)) ∨
    (m.mHighWaterFired = false ∧ m.mHighWatermark ≤ mQueue.mSem ∧
      Queue.checkWatermarks mQueue m =
        ({ m with mHighWaterFired := true }, some .highWatermarkExceeded)) ∨
    (m.mHighWaterFired = false ∧ mQueue.mSem < m.mHighWatermark ∧
      Queue.checkWatermarks mQueue m = (m, none)) := by
  unfold Queue.checkWatermarks Queue.getEventCount
  cases m.mHighWaterFired with
  | true =>
    by_cases hLow : mQueue.mSem = m.mLowWatermark
    · simp [hLow]
    · simp [hLow]
  | false =>
    by_cases hHigh : m.mHighWatermark ≤ mQueue.mSem
    · simp [hHigh]
    · simp [hHigh, Nat.lt_of_not_le hHigh]

/-- **A check follows the hysteresis** exactly when, with the high notification fired, the
count is not below the low watermark, and otherwise the high watermark is set. -/
theorem hysteresis_iff (mQueue : UQueueImpl C D Γ M) {m : Watermarks} {highSet : Bool}
    (hSet : highSet = true ↔ m.mHighWatermark ≠ 0) :
    Check.Hysteresis ⟨highSet, m, Queue.getEventCount mQueue,
        (Queue.checkWatermarks mQueue m).2⟩ ↔
      if m.mHighWaterFired = true then m.mLowWatermark ≤ mQueue.mSem
      else m.mHighWatermark ≠ 0 := by
  unfold Check.Hysteresis Queue.getEventCount
  rcases checkWatermarks_cases mQueue m with ⟨hFired, hCount, hOut⟩ | ⟨hFired, hCount, hOut⟩ |
    ⟨hFired, hCount, hOut⟩ | ⟨hFired, hCount, hOut⟩
  · simp [hOut, hFired, hCount]
  · simp [hOut, hFired]
    omega
  · simp [hOut, hFired, hCount, hSet]
  · simp [hOut, hFired, hSet]
    omega

-- ---------------------------------------------------------------------------
-- One step
-- ---------------------------------------------------------------------------

/-- What holds in every run: a high watermark that was set is not 0, and the flag says
whose turn it is. -/
structure MarkedQueue.Inv (s : MarkedQueue ι C D Γ M) : Prop where
  set_iff : s.highSet = true ↔ s.marks.mHighWatermark ≠ 0
  turn : s.marks.mHighWaterFired = decide (s.notifications.length % 2 = 1)
  alternates : Alternates s.notifications

theorem Alternates.snoc {l : List WatermarkEvent} (h : Alternates l) {e : WatermarkEvent}
    (he : e = if l.length % 2 = 0 then .highWatermarkExceeded else .lowWatermarkExceeded) :
    Alternates (l ++ [e]) := by
  intro i e' hi
  rw [List.getElem?_append] at hi
  split at hi
  · exact h i e' hi
  · rename_i hLen
    obtain ⟨hIdx, hEq⟩ := List.getElem?_eq_some_iff.mp hi
    have hi' : i = l.length := by
      rw [List.length_singleton] at hIdx
      omega
    subst hi'
    rw [← hEq, List.getElem_singleton]
    exact he

theorem MarkedQueue.notifications_checked (s : MarkedQueue ι C D Γ M)
    (out : Watermarks × Option WatermarkEvent) :
    (s.checked out).notifications = s.notifications ++ out.2.toList := by
  rw [MarkedQueue.notifications, MarkedQueue.checked, List.filterMap_append]
  cases hOut : out.2 with
  | none => rfl
  | some e => rfl

/-- A check that notifies nobody. -/
theorem MarkedQueue.Inv.checked_none {s : MarkedQueue ι C D Γ M} (hInv : s.Inv) :
    (s.checked (s.marks, none)).Inv := by
  have hSame : (s.checked (s.marks, none)).notifications = s.notifications := by
    rw [MarkedQueue.notifications_checked, Option.toList_none, List.append_nil]
  refine ⟨hInv.set_iff, ?_, ?_⟩
  · rw [hSame]
    exact hInv.turn
  · rw [hSame]
    exact hInv.alternates

/-- A check that notifies the parent, whose turn it is. -/
theorem MarkedQueue.Inv.checked_some {s : MarkedQueue ι C D Γ M} (hInv : s.Inv)
    {e : WatermarkEvent}
    (he : e = if s.marks.mHighWaterFired = true then .lowWatermarkExceeded
      else .highWatermarkExceeded) :
    (s.checked ({ s.marks with mHighWaterFired := !s.marks.mHighWaterFired }, some e)).Inv := by
  have hTurn := hInv.turn
  refine ⟨hInv.set_iff, ?_, ?_⟩
  · rw [MarkedQueue.notifications_checked, List.length_append]
    show (!s.marks.mHighWaterFired) = decide ((s.notifications.length + 1) % 2 = 1)
    rw [hTurn, ← decide_not]
    exact decide_eq_decide.mpr (by omega)
  · rw [MarkedQueue.notifications_checked]
    refine hInv.alternates.snoc ?_
    rw [he, hTurn]
    by_cases hOdd : s.notifications.length % 2 = 1
    · rw [if_pos (decide_eq_true hOdd), if_neg (by omega)]
    · rw [if_neg (by simpa using hOdd), if_pos (by omega)]

section Step

variable [DecidableEq ι] {s s' : MarkedQueue ι C D Γ M} {a : MarkedAct ι C D Γ M}

theorem MarkedQueue.Inv.check (hInv : s.Inv) (h : s.step .check = some s') : s'.Inv := by
  rw [MarkedQueue.step] at h
  rw [← Option.some.inj h]
  rcases checkWatermarks_cases s.queue.impl s.marks with ⟨hFired, -, hOut⟩ | ⟨-, -, hOut⟩ |
    ⟨hFired, -, hOut⟩ | ⟨-, -, hOut⟩
  · have hNext := hInv.checked_some (e := .lowWatermarkExceeded) (by rw [if_pos hFired])
    rw [hFired] at hNext
    rw [hOut]
    exact hNext
  · rw [hOut]
    exact hInv.checked_none
  · have hNext := hInv.checked_some (e := .highWatermarkExceeded) (by rw [hFired]; rfl)
    rw [hFired] at hNext
    rw [hOut]
    exact hNext
  · rw [hOut]
    exact hInv.checked_none

theorem MarkedQueue.Inv.step (hInv : s.Inv) (h : s.step a = some s') : s'.Inv := by
  cases a with
  | thread a =>
    obtain ⟨queue, -, rfl⟩ := Option.map_eq_some_iff.mp h
    exact ⟨hInv.set_iff, hInv.turn, hInv.alternates⟩
  | setHigh highWatermark =>
    by_cases hZero : highWatermark = 0
    · simp only [MarkedQueue.step, Queue.setHighWatermark, if_pos hZero] at h
      cases h
      refine ⟨?_, hInv.turn, hInv.alternates⟩
      show (s.highSet || false) = true ↔ s.marks.mHighWatermark ≠ 0
      rw [Bool.or_false]
      exact hInv.set_iff
    · simp only [MarkedQueue.step, Queue.setHighWatermark, if_neg hZero] at h
      cases h
      refine ⟨iff_of_true ?_ hZero, hInv.turn, hInv.alternates⟩
      exact Bool.or_true s.highSet
  | setLow lowWatermark =>
    by_cases hZero : lowWatermark = 0
    · simp only [MarkedQueue.step, Queue.setLowWatermark, if_pos hZero] at h
      cases h
      exact ⟨hInv.set_iff, hInv.turn, hInv.alternates⟩
    · simp only [MarkedQueue.step, Queue.setLowWatermark, if_neg hZero] at h
      cases h
      exact ⟨hInv.set_iff, hInv.turn, hInv.alternates⟩
  | check => exact hInv.check h

omit [DecidableEq ι] in
/-- Without a high watermark there was no notification, so a check in step has one. -/
theorem MarkedQueue.Follows.highSet (hFollows : s.Follows) (hInv : s.Inv)
    (hInStep : s.InStep .check) : s.highSet = true := by
  by_contra hSet
  rw [Bool.not_eq_true] at hSet
  have hFired := hInv.turn
  rw [hFollows.quiet hSet] at hFired
  unfold MarkedQueue.InStep at hInStep
  rw [hFired] at hInStep
  exact Bool.false_ne_true (hSet.symm.trans (hInv.set_iff.mpr hInStep))

/-- **One step** keeps to the hysteresis exactly when it is in step. -/
theorem MarkedQueue.Follows.step (hFollows : s.Follows) (hInv : s.Inv)
    (h : s.step a = some s') : s'.Follows ↔ s.InStep a := by
  have hAlternates : Alternates s'.notifications := (hInv.step h).alternates
  cases a with
  | thread a =>
    obtain ⟨queue, -, rfl⟩ := Option.map_eq_some_iff.mp h
    exact iff_of_true ⟨hFollows.hysteresis, hAlternates, hFollows.quiet⟩ trivial
  | setHigh highWatermark =>
    cases h
    refine iff_of_true ⟨hFollows.hysteresis, hAlternates, fun hSet => ?_⟩ trivial
    exact hFollows.quiet (Bool.or_eq_false_iff.mp hSet).1
  | setLow lowWatermark =>
    cases h
    exact iff_of_true ⟨hFollows.hysteresis, hAlternates, hFollows.quiet⟩ trivial
  | check =>
    have hCheck := hysteresis_iff s.queue.impl hInv.set_iff
    cases h
    constructor
    · intro hNew
      exact hCheck.mp (hNew.hysteresis _ (List.mem_append_right _ (List.mem_singleton_self _)))
    · intro hInStep
      refine ⟨?_, hAlternates, fun hSet => ?_⟩
      · rw [MarkedQueue.checked, List.forall_mem_append, List.forall_mem_singleton]
        exact ⟨hFollows.hysteresis, hCheck.mpr hInStep⟩
      · have hTrue := hFollows.highSet hInv hInStep
        exact absurd (hTrue.symm.trans hSet) Bool.noConfusion

end Step

-- ---------------------------------------------------------------------------
-- Runs
-- ---------------------------------------------------------------------------

theorem alternates_nil : Alternates [] := by
  intro i e h
  cases h

theorem MarkedQueue.inv_init (impl : UQueueImpl C D Γ M) :
    (MarkedQueue.init impl : MarkedQueue ι C D Γ M).Inv :=
  ⟨iff_of_false Bool.false_ne_true (fun h => h rfl), rfl, alternates_nil⟩

theorem MarkedQueue.follows_init (impl : UQueueImpl C D Γ M) :
    (MarkedQueue.init impl : MarkedQueue ι C D Γ M).Follows :=
  ⟨fun _ hc => absurd hc List.not_mem_nil, alternates_nil, fun _ => rfl⟩

section Runs

variable [DecidableEq ι] {impl : UQueueImpl C D Γ M} {as : List (MarkedAct ι C D Γ M)}
  {s : MarkedQueue ι C D Γ M}
  (hRun : run MarkedQueue.step (MarkedQueue.init impl) as = some s)
include hRun

/-- **Notifications alternate, starting with high, in every run**, also in one that does
not follow the hysteresis. -/
theorem alternates_of_run : Alternates s.notifications := by
  have hInv : s.Inv := run_invariant (J := MarkedQueue.Inv)
    (fun s a s' hs h => hs.step h) (MarkedQueue.inv_init impl) hRun
  exact hInv.alternates

/--
**When notifications follow the hysteresis.** For every queue, any number of threads, and
every run of their steps, of calls that set the watermarks and of checks in any order: each
check notifies the parent exactly as it should, notifications alternate, and there is none
without a high watermark, in every state of the run, if and only if no check with the high
notification not fired comes before a high watermark is set, and no check with it fired finds
fewer events than the low watermark.
-/
theorem watermarks_follow_iff :
    Along MarkedQueue.step MarkedQueue.Follows (MarkedQueue.init impl) as ↔
      StepsMeet MarkedQueue.step MarkedQueue.InStep (MarkedQueue.init impl) as := by
  refine along_iff_stepsMeet (J := fun s => s.Inv ∧ s.Follows)
    ⟨MarkedQueue.inv_init impl, MarkedQueue.follows_init impl⟩ (fun s hJ => hJ.2) ?_ ?_ hRun
  · intro s a s' hJ hInStep h
    exact ⟨hJ.1.step h, (hJ.2.step hJ.1 h).mpr hInStep⟩
  · intro s a s' hJ h hFollows
    exact (hJ.2.step hJ.1 h).mp hFollows

end Runs

/-- Up to two events and back to one. -/
def upAndDown : List (MarkedAct Bool Nat Nat Nat Nat) :=
  [.setHigh 2, .setLow 1, .check, .thread (.enqueue false true (tick 1)),
    .thread (.enqueue false true (tick 2)), .check, .thread (.wait true), .check, .check]

theorem watermarks_follow_upAndDown :
    ∃ s, run MarkedQueue.step (MarkedQueue.init smallQueue) upAndDown = some s ∧
      s.notifications = [.highWatermarkExceeded, .lowWatermarkExceeded] ∧
      (Along MarkedQueue.step MarkedQueue.Follows (MarkedQueue.init smallQueue) upAndDown ↔
        StepsMeet MarkedQueue.step MarkedQueue.InStep (MarkedQueue.init smallQueue)
          upAndDown) := by
  have hRun : run MarkedQueue.step (MarkedQueue.init smallQueue) upAndDown = some _ := rfl
  exact ⟨_, hRun, rfl, watermarks_follow_iff hRun⟩

/-- **Watermarks misfire.** A queue with no watermark and no event fires the high
notification; and a queue that is drained past its low watermark between two checks does
not fire the low one. -/
theorem watermarks_misfire :
    (∃ s, run MarkedQueue.step (MarkedQueue.init smallQueue)
        ([.check] : List (MarkedAct Bool Nat Nat Nat Nat)) = some s ∧
      s.notifications = [.highWatermarkExceeded]) ∧
    ∃ s, run MarkedQueue.step (MarkedQueue.init smallQueue)
        ([.setHigh 2, .setLow 1, .thread (.enqueue false true (tick 1)),
          .thread (.enqueue false true (tick 2)), .check, .thread (.wait false),
          .thread (.wait true), .check] : List (MarkedAct Bool Nat Nat Nat Nat)) = some s ∧
      s.checks = [⟨true, ⟨false, 2, 1⟩, 2, some .highWatermarkExceeded⟩,
        ⟨true, ⟨true, 2, 1⟩, 0, none⟩] ∧ ¬ ∀ c ∈ s.checks, c.Hysteresis := by
  refine ⟨⟨_, rfl, rfl⟩, _, rfl, rfl, ?_⟩
  decide

end ZmqBridge
