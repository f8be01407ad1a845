import ZmqBridge.Lib.Run
import Mathlib

/-!
# ZmqBridge — how long the dispatch thread sleeps between beacons

The dispatch loop of a naming transport (`transport.c`), as far as it deals with
beacons. It sends its discovery message every `mBeaconInterval` milliseconds, so a
poll must not sleep past the time of the next one. The clock is read once before the
loop and once after each poll; it never goes back. Times are `uint64_t`, the timeout
of `zmq_poll` is a `long`.

* `BeaconLoop.iterate` — one iteration of the loop, woken up at any time;
* `Poll.InTime` — a poll that does not sleep past the deadline;
* `beacon_in_time_iff` — every poll is in time exactly when each timeout is computed
  in the millisecond of the last beacon;
* `first_poll_oversleeps` — before the first beacon the timeout is the time itself.
-/

namespace ZmqBridge

open Lib

-- ---------------------------------------------------------------------------
-- The loop
-- ---------------------------------------------------------------------------

/-- A call of `zmq_poll`: the time at which its timeout was computed, the timeout, and
the time of the next beacon. -/
structure Poll where
  now : Nat
  timeout : Int
  nextBeacon : Nat
  deriving DecidableEq, Repr

/-- The variables of the loop. `clock` is the last time that was read, `polls` and
`beacons` record what happened. -/
structure BeaconLoop where
  lastBeacon : Nat
  nextBeacon : Nat
  clock : Nat
  polls : List Poll
  beacons : List Nat
  deriving DecidableEq, Repr

/-- Before the loop, at time `start`. -/
def BeaconLoop.init (interval start : Nat) : BeaconLoop where
  lastBeacon := 0
  nextBeacon := if 0 < interval then (start + interval) % 2 ^ 64 else 0
  clock := start
  polls := []
  beacons := []

/-- The difference of two `uint64_t`. -/
def subUint64 (a b : Nat) : Nat := (a + 2 ^ 64 - b) % 2 ^ 64

/-- A `uint64_t` as a `long`. -/
def toLong (a : Nat) : Int := if a < 2 ^ 63 then a else (a : Int) - 2 ^ 64

/-- The timeout of the next poll. -/
def BeaconLoop.timeout (interval : Nat) (s : BeaconLoop) : Int :=
  if 0 < interval then toLong (subUint64 s.nextBeacon s.lastBeacon) else -1

/-- An iteration: when its timeout is computed, whether `zmq_poll` fails (other than
by a signal), and when it returns. -/
structure Iteration where
  now : Nat
  pollFails : Bool
  woken : Nat
  deriving DecidableEq, Repr

/-- One iteration of the loop, up to the sockets. -/
def BeaconLoop.iterate (interval : Nat) (s : BeaconLoop) (a : Iteration) : Option BeaconLoop :=
  if s.clock ≤ a.now ∧ a.now ≤ a.woken ∧ a.woken < 2 ^ 64 then
    let s := { s with
      clock := a.woken
      polls := s.polls ++ [⟨a.now, s.timeout interval, s.nextBeacon⟩] }
    if a.pollFails then some s
    else if 0 < s.nextBeacon ∧ 0 < interval ∧ s.nextBeacon ≤ a.woken then
      -- send a beacon
      some { s with
        lastBeacon := a.woken
        nextBeacon := (a.woken + interval) % 2 ^ 64
        beacons := s.beacons ++ [a.woken] }
    else some s
  else none

-- ---------------------------------------------------------------------------
-- What is to be shown
-- ---------------------------------------------------------------------------

/-- The timeout is not negative and does not reach past the next beacon. -/
def Poll.InTime (p : Poll) : Prop :=
  0 ≤ p.timeout ∧ p.now + p.timeout ≤ max p.now p.nextBeacon
  deriving Decidable

/-- Every poll so far was in time. -/
def BeaconLoop.InTime (s : BeaconLoop) : Prop := ∀ p ∈ s.polls, p.InTime

/-- The timeout is computed in the millisecond of the last beacon (of the year 1970, if
there was none yet), and the next one is not before that; or it is due at once. -/
def BeaconLoop.Fresh (s : BeaconLoop) (a : Iteration) : Prop :=
  (s.lastBeacon = a.now ∧ a.now ≤ s.nextBeacon) ∨ s.nextBeacon = s.lastBeacon

/-- Where the times of the loop come from: the next beacon is one interval after some
time `t` that was read, and that was the time of the last beacon, or there was none. -/
structure BeaconLoop.Scheduled (interval : Nat) (s : BeaconLoop) : Prop where
  clock_lt : s.clock < 2 ^ 64
  next : ∃ t ≤ s.clock, s.nextBeacon = (t + interval) % 2 ^ 64 ∧
    (s.lastBeacon = t ∨ s.lastBeacon = 0)

-- ---------------------------------------------------------------------------
-- One iteration
-- ---------------------------------------------------------------------------

section Iterate

variable {interval : Nat} (hPos : 0 < interval) (hInterval : interval < 2 ^ 32)

include hPos hInterval in
/-- The timeout is in time exactly when it is fresh. -/
theorem BeaconLoop.Scheduled.inTime_iff {s : BeaconLoop} (hs : s.Scheduled interval)
    {a : Iteration} (hNow : s.clock ≤ a.now) (hLt : a.now < 2 ^ 64) :
    Poll.InTime ⟨a.now, s.timeout interval, s.nextBeacon⟩ ↔ s.Fresh a := by
  obtain ⟨t, ht, hNext, hLast⟩ := hs.next
  unfold Poll.InTime BeaconLoop.Fresh BeaconLoop.timeout
  rw [if_pos hPos]
  rcases hLast with hLast | hLast
  · -- the last beacon was at `t`, so the timeout is the interval
    have hDiff : subUint64 s.nextBeacon s.lastBeacon = interval := by
      unfold subUint64
      omega
    have hTimeout : toLong (subUint64 s.nextBeacon s.lastBeacon) = interval := by
      rw [hDiff, toLong, if_pos (by omega)]
    simp only [hTimeout]
    omega
  · -- no beacon yet, so the timeout is the time of the next one
    have hDiff : subUint64 s.nextBeacon s.lastBeacon = s.nextBeacon := by
      unfold subUint64
      omega
    rw [hDiff, toLong]
    split
    · simp only
      omega
    · simp only
      omega

/-- One iteration: the poll it makes, and what it leaves scheduled. -/
theorem BeaconLoop.Scheduled.iterate {s s' : BeaconLoop} (hs : s.Scheduled interval)
    {a : Iteration} (h : s.iterate interval a = some s') :
    s.clock ≤ a.now ∧ a.now < 2 ^ 64 ∧ s'.Scheduled interval ∧
      s'.polls = s.polls ++ [⟨a.now, s.timeout interval, s.nextBeacon⟩] := by
  unfold BeaconLoop.iterate at h
  split at h
  · rename_i hClock
    obtain ⟨hNow, hWoken, hLt⟩ := hClock
    obtain ⟨t, ht, hNext, hLast⟩ := hs.next
    have hStays : ∃ t ≤ a.woken, s.nextBeacon = (t + interval) % 2 ^ 64 ∧
        (s.lastBeacon = t ∨ s.lastBeacon = 0) := ⟨t, by omega, hNext, hLast⟩
    refine ⟨hNow, by omega, ?_⟩
    simp only at h
    split at h
    · cases h
      exact ⟨⟨hLt, hStays⟩, rfl⟩
    · split at h
      · cases h
        exact ⟨⟨hLt, a.woken, Nat.le_refl _, rfl, Or.inl rfl⟩, rfl⟩
      · cases h
        exact ⟨⟨hLt, hStays⟩, rfl⟩
  · cases h

include hPos hInterval in
/-- **An iteration is in time exactly when it is fresh.** -/
theorem BeaconLoop.InTime.iterate {s s' : BeaconLoop} (hs : s.Scheduled interval)
    (hTime : s.InTime) {a : Iteration} (h : s.iterate interval a = some s') :
    s'.InTime ↔ s.Fresh a := by
  obtain ⟨hNow, hLt, -, hPolls⟩ := hs.iterate h
  rw [← hs.inTime_iff hPos hInterval hNow hLt, BeaconLoop.InTime, hPolls,
    List.forall_mem_append, List.forall_mem_singleton]
  exact ⟨fun h => h.2, fun h => ⟨hTime, h⟩⟩

-- ---------------------------------------------------------------------------
-- Runs
-- ---------------------------------------------------------------------------

include hPos in
theorem BeaconLoop.scheduled_init {start : Nat} (hStart : start < 2 ^ 64) :
    (BeaconLoop.init interval start).Scheduled interval :=
  ⟨hStart, start, Nat.le_refl _, if_pos hPos, Or.inr rfl⟩

include hPos hInterval in
/--
**When the beacon deadline is never slept past.** For every beacon interval, every time the
loop starts at, every sequence of clock readings that never goes back and every pattern of
wake-ups: the timeout of every poll of the run is not negative and does not reach past the
next beacon if and only if every timeout is computed in the very millisecond of the last
beacon.
-/
theorem beacon_in_time_iff {start : Nat} (hStart : start < 2 ^ 64) {as : List Iteration}
    {s : BeaconLoop}
    (hRun : run (BeaconLoop.iterate interval) (BeaconLoop.init interval start) as = some s) :
    Along (BeaconLoop.iterate interval) BeaconLoop.InTime (BeaconLoop.init interval start) as ↔
      StepsMeet (BeaconLoop.iterate interval) BeaconLoop.Fresh (BeaconLoop.init interval start)
        as := by
  have hInit : (BeaconLoop.init interval start).InTime := fun p hp => absurd hp List.not_mem_nil
  refine along_iff_stepsMeet (J := fun s => s.Scheduled interval ∧ s.InTime)
    ⟨BeaconLoop.scheduled_init hPos hStart, hInit⟩ (fun s hJ => hJ.2) ?_ ?_ hRun
  · intro s a s' hJ hFresh h
    exact ⟨(hJ.1.iterate h).2.2.1, (hJ.2.iterate hPos hInterval hJ.1 h).mpr hFresh⟩
  · intro s a s' hJ h hTime
    exact (hJ.2.iterate hPos hInterval hJ.1 h).mp hTime

end Iterate

/-- A loop that starts at time 0 and always wakes up when a beacon is due. -/
theorem beacon_in_time_onTime :
    ∃ s, run (BeaconLoop.iterate 1000) (BeaconLoop.init 1000 0)
        [⟨0, false, 1000⟩, ⟨1000, false, 2000⟩] = some s ∧ s.beacons = [1000, 2000] ∧
      (Along (BeaconLoop.iterate 1000) BeaconLoop.InTime (BeaconLoop.init 1000 0)
          [⟨0, false, 1000⟩, ⟨1000, false, 2000⟩] ↔
        StepsMeet (BeaconLoop.iterate 1000) BeaconLoop.Fresh (BeaconLoop.init 1000 0)
          [⟨0, false, 1000⟩, ⟨1000, false, 2000⟩]) := by
  obtain ⟨s, hRun, hBeacons⟩ : ∃ s, run (BeaconLoop.iterate 1000) (BeaconLoop.init 1000 0)
      [⟨0, false, 1000⟩, ⟨1000, false, 2000⟩] = some s ∧ s.beacons = [1000, 2000] :=
    exists_run (by decide +kernel)
  exact ⟨s, hRun, hBeacons, beacon_in_time_iff (by decide) (by decide) (by decide) hRun⟩

/-- **The first poll sleeps for as long as the clock has been running**, and a wake-up
between two beacons starts the interval anew. -/
theorem first_poll_oversleeps :
    ∃ s, run (BeaconLoop.iterate 1000) (BeaconLoop.init 1000 1700000000000)
        [⟨1700000000000, false, 1700000001000⟩, ⟨1700000001400, false, 1700000001500⟩] =
          some s ∧
      (s.polls = [⟨1700000000000, 1700000001000, 1700000001000⟩,
          ⟨1700000001400, 1000, 1700000002000⟩] ∧
        ∀ p ∈ s.polls, ¬ p.InTime) :=
  exists_run (by decide +kernel)

end ZmqBridge
