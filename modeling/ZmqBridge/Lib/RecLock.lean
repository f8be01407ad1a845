import Mathlib

/-!
# Recursive locks

Objects that must not be used by two threads at once each come with a recursive lock.
What a thread is going to do with them is a list of operations, and `Orderly` checks
such a list for one thread alone: it calls an object only with the lock that guards it,
and takes a lock only above all those it has. The rest follows for any threads that are
orderly, however they are interleaved.

* `Orderly.exec`            — an operation leaves the thread orderly, and what the
  others have as it was;
* `Orderly.of_undefined`    — what an orderly thread can still run into;
* `depth_unique`            — a lock has one owner, so calls under it exclude each
  other;
* `not_transGen_waitsFor`   — threads do not wait for each other in a circle;
* `exists_not_waiting`      — and who waits, waits in the end for one that does not.
-/

namespace ZmqBridge.Lib

variable {ι S : Type*}

-- ---------------------------------------------------------------------------
-- Locks and operations
-- ---------------------------------------------------------------------------

/-- A recursive lock; `held i n` is taken by `i`, and `n` times more. -/
inductive RecLock (ι : Type*) where
  | free
  | held (i : ι) (n : Nat)
  | destroyed
  deriving DecidableEq, Repr

/-- What a thread does with the objects. A call uses all of the objects it names until
it returns. -/
inductive SyncOp (S : Type*) where
  | lock (s : S)
  | unlock (s : S)
  | call (ss : List S)
  | close (s : S)
  | destroy (s : S)
  deriving DecidableEq, Repr

/-- The objects an operation is about. -/
def SyncOp.objects : SyncOp S → List S
  | .lock s | .unlock s | .close s | .destroy s => [s]
  | .call ss => ss

/-- The objects that are in use while an operation lasts. -/
def SyncOp.uses : SyncOp S → List S
  | .call ss => ss
  | .close s => [s]
  | _ => []

/-- The operations after which an object or its lock is gone. -/
def SyncOp.ends : SyncOp S → Bool
  | .close _ | .destroy _ => true
  | _ => false

/-- The objects, with their locks. -/
structure Sync (ι S : Type*) where
  lock : S → RecLock ι
  closed : S → Bool

/-- What becomes of an operation. -/
inductive SyncResult (ι S : Type*) where
  | waits
  | undefined
  | next (x : Sync ι S)

/-- How often `i` has the lock. -/
def RecLock.depth [DecidableEq ι] (i : ι) : RecLock ι → Nat
  | .held j n => if j = i then n + 1 else 0
  | _ => 0

def Sync.depth [DecidableEq ι] (x : Sync ι S) (i : ι) (s : S) : Nat := (x.lock s).depth i

/-- Thread `i` performs an operation. -/
def Sync.exec [DecidableEq ι] [DecidableEq S] (x : Sync ι S) (i : ι) :
    SyncOp S → SyncResult ι S
  | .lock s =>
    match x.lock s with
    | .free => .next { x with lock := Function.update x.lock s (.held i 0) }
    | .held j n =>
      if j = i then .next { x with lock := Function.update x.lock s (.held i (n + 1)) }
      else .waits
    | .destroyed => .undefined
  | .unlock s =>
    match x.lock s with
    | .held j 0 =>
      if j = i then .next { x with lock := Function.update x.lock s .free } else .undefined
    | .held j (n + 1) =>
      if j = i then .next { x with lock := Function.update x.lock s (.held i n) }
      else .undefined
    | _ => .undefined
  | .call ss => if ss.any x.closed then .undefined else .next x
  | .close s =>
    if x.closed s then .undefined
    else .next { x with closed := Function.update x.closed s true }
  | .destroy s =>
    match x.lock s with
    | .free => .next { x with lock := Function.update x.lock s .destroyed }
    | _ => .undefined

section Depth

variable [DecidableEq ι] {x : Sync ι S} {i j : ι} {s : S}

/-- **One owner.** -/
theorem depth_unique (hi : 0 < x.depth i s) (hj : 0 < x.depth j s) : i = j := by
  unfold Sync.depth at hi hj
  cases hLock : x.lock s with
  | held k n =>
    rw [hLock] at hi hj
    simp only [RecLock.depth] at hi hj
    split at hi
    · split at hj
      · rename_i hk hk'
        exact hk.symm.trans hk'
      · omega
    · omega
  | free =>
    rw [hLock] at hi
    exact absurd hi (Nat.lt_irrefl 0)
  | destroyed =>
    rw [hLock] at hi
    exact absurd hi (Nat.lt_irrefl 0)

theorem depth_of_held {n : Nat} (h : x.lock s = .held i n) : x.depth i s = n + 1 := by
  rw [Sync.depth, h]
  exact if_pos rfl

theorem depth_of_held_ne {n : Nat} (h : x.lock s = .held j n) (hji : j ≠ i) :
    x.depth i s = 0 := by
  rw [Sync.depth, h]
  exact if_neg hji

theorem held_of_depth_pos (h : 0 < x.depth i s) : ∃ n, x.lock s = .held i n := by
  unfold Sync.depth at h
  cases hLock : x.lock s with
  | held j n =>
    rw [hLock] at h
    by_cases hji : j = i
    · exact ⟨n, by rw [hji]⟩
    · rw [RecLock.depth, if_neg hji] at h
      exact absurd h (Nat.lt_irrefl 0)
  | free =>
    rw [hLock] at h
    exact absurd h (Nat.lt_irrefl 0)
  | destroyed =>
    rw [hLock] at h
    exact absurd h (Nat.lt_irrefl 0)

theorem depth_update [DecidableEq S] (l : RecLock ι) :
    Sync.depth { x with lock := Function.update x.lock s l } j =
      Function.update (x.depth j) s (l.depth j) := by
  funext s'
  by_cases hs : s' = s
  · subst hs
    simp [Sync.depth]
  · simp [Sync.depth, hs]

end Depth

-- ---------------------------------------------------------------------------
-- One thread
-- ---------------------------------------------------------------------------

/-- What a thread is going to do, checked for itself: it starts with each lock `s` taken
`has s` times, never has it fewer than `low s` times, and ends with `goal`. A call of `s`
is made with the lock of `guard s`. A lock it does not have yet is above those it has. -/
def Orderly [DecidableEq S] (guard : S → S) (rank low has : S → Nat) (ops : List (SyncOp S))
    (goal : S → Nat) : Prop :=
  (∀ s, low s ≤ has s) ∧
  match ops with
  | [] => ∀ s, has s = goal s
  | .lock s :: ops =>
    (has s = 0 → ∀ s', 0 < has s' → rank s' < rank s) ∧
      Orderly guard rank low (Function.update has s (has s + 1)) ops goal
  | .unlock s :: ops =>
    0 < has s ∧ Orderly guard rank low (Function.update has s (has s - 1)) ops goal
  | .call ss :: ops => (∀ s ∈ ss, 0 < has (guard s)) ∧ Orderly guard rank low has ops goal
  | .close s :: ops => 0 < has s ∧ Orderly guard rank low has ops goal
  | .destroy s :: ops => has s = 0 ∧ Orderly guard rank low has ops goal

/-- The check, on finitely many objects. -/
def orderlyDecidable [DecidableEq S] [Fintype S] (guard : S → S) (rank low : S → Nat)
    (ops : List (SyncOp S)) (goal : S → Nat) :
    (has : S → Nat) → Decidable (Orderly guard rank low has ops goal) :=
  match ops with
  | [] => fun _ => inferInstanceAs (Decidable (_ ∧ ∀ _ : S, _))
  | .lock s :: ops => fun has =>
    have := orderlyDecidable guard rank low ops goal (Function.update has s (has s + 1))
    inferInstanceAs (Decidable (_ ∧ _ ∧ _))
  | .unlock s :: ops => fun has =>
    have := orderlyDecidable guard rank low ops goal (Function.update has s (has s - 1))
    inferInstanceAs (Decidable (_ ∧ _ ∧ _))
  | .call _ :: ops => fun has =>
    have := orderlyDecidable guard rank low ops goal has
    inferInstanceAs (Decidable (_ ∧ _ ∧ _))
  | .close _ :: ops => fun has =>
    have := orderlyDecidable guard rank low ops goal has
    inferInstanceAs (Decidable (_ ∧ _ ∧ _))
  | .destroy _ :: ops => fun has =>
    have := orderlyDecidable guard rank low ops goal has
    inferInstanceAs (Decidable (_ ∧ _ ∧ _))

instance [DecidableEq S] [Fintype S] (guard : S → S) (rank low has : S → Nat)
    (ops : List (SyncOp S)) (goal : S → Nat) :
    Decidable (Orderly guard rank low has ops goal) :=
  orderlyDecidable guard rank low ops goal has

section Orderly

variable [DecidableEq S] {guard : S → S} {rank low low' has goal : S → Nat}
  {ops ops' : List (SyncOp S)}

theorem Orderly.low_le (h : Orderly guard rank low has ops goal) (s : S) : low s ≤ has s := by
  unfold Orderly at h
  exact h.1 s

/-- Less may be kept. -/
theorem Orderly.mono (h : Orderly guard rank low has ops goal) (hLow : ∀ s, low' s ≤ low s) :
    Orderly guard rank low' has ops goal := by
  induction ops generalizing has with
  | nil => exact ⟨fun s => (hLow s).trans (h.1 s), h.2⟩
  | cons op ops ih =>
    cases op <;> exact ⟨fun s => (hLow s).trans (h.1 s), h.2.1, ih h.2.2⟩

/-- The first part of what a thread is going to do. -/
theorem Orderly.of_append (h : Orderly guard rank low has (ops ++ ops') goal) :
    ∃ mid, Orderly guard rank low has ops mid := by
  induction ops generalizing has with
  | nil =>
    exact ⟨has, h.low_le, fun _ => rfl⟩
  | cons op ops ih =>
    cases op <;>
    · obtain ⟨hLow, hOp, hRest⟩ := h
      obtain ⟨mid, hMid⟩ := ih hRest
      exact ⟨mid, hLow, hOp, hMid⟩

end Orderly

section Exec

variable [DecidableEq ι] [DecidableEq S] {x x' : Sync ι S} {i j : ι} {op : SyncOp S}
  {ops : List (SyncOp S)} {guard : S → S} {rank low goal : S → Nat}

/-- A change of the lock of `s` by `i`. -/
theorem exec_update {s : S} {l : RecLock ι} {n : Nat} (hl : l.depth i = n) :
    Sync.depth { x with lock := Function.update x.lock s l } i =
      Function.update (x.depth i) s n := by
  rw [depth_update, hl]

/-- **One operation**, of an orderly thread. -/
theorem Orderly.exec (h : Orderly guard rank low (x.depth i) (op :: ops) goal)
    (hExec : x.exec i op = .next x') : Orderly guard rank low (x'.depth i) ops goal := by
  cases op with
  | lock s =>
    obtain ⟨-, -, hRest⟩ := h
    simp only [Sync.exec] at hExec
    split at hExec
    · rename_i hFree
      cases hExec
      have hZero : x.depth i s = 0 := by rw [Sync.depth, hFree]; rfl
      rw [exec_update (n := x.depth i s + 1) (by rw [hZero]; exact if_pos rfl)]
      exact hRest
    · rename_i j n hHeld
      split at hExec
      · rename_i hj
        cases hExec
        subst hj
        rw [exec_update (n := x.depth j s + 1) (by rw [depth_of_held hHeld]; exact if_pos rfl)]
        exact hRest
      · cases hExec
    · cases hExec
  | unlock s =>
    obtain ⟨-, hPos, hRest⟩ := h
    obtain ⟨n, hHeld⟩ := held_of_depth_pos hPos
    have hDepth := depth_of_held hHeld
    simp only [Sync.exec, hHeld] at hExec
    cases n with
    | zero =>
      simp only [if_true] at hExec
      cases hExec
      rw [exec_update (n := x.depth i s - 1) (by rw [hDepth]; rfl)]
      exact hRest
    | succ n =>
      simp only [if_true] at hExec
      cases hExec
      rw [exec_update (n := x.depth i s - 1) (by rw [hDepth]; exact if_pos rfl)]
      exact hRest
  | call ss =>
    simp only [Sync.exec] at hExec
    split at hExec <;> cases hExec
    exact h.2.2
  | close s =>
    simp only [Sync.exec] at hExec
    split at hExec <;> cases hExec
    exact h.2.2
  | destroy s =>
    obtain ⟨-, hZero, hRest⟩ := h
    simp only [Sync.exec] at hExec
    split at hExec <;> cases hExec
    rw [exec_update (n := x.depth i s) (by rw [hZero]; rfl), Function.update_eq_self]
    exact hRest

/-- The other threads keep what they have. -/
theorem exec_depth_ne (hExec : x.exec i op = .next x') (hji : j ≠ i) :
    x'.depth j = x.depth j := by
  have hSame (s : S) {l : RecLock ι} (hl : l.depth j = 0) (hs : x.depth j s = 0) :
      Sync.depth { x with lock := Function.update x.lock s l } j = x.depth j := by
    rw [depth_update, hl, ← hs, Function.update_eq_self]
  cases op with
  | lock s =>
    simp only [Sync.exec] at hExec
    split at hExec
    · rename_i hFree
      cases hExec
      exact hSame s (if_neg hji.symm) (by rw [Sync.depth, hFree]; rfl)
    · rename_i k n hHeld
      split at hExec
      · rename_i hk
        cases hExec
        subst hk
        exact hSame s (if_neg hji.symm) (depth_of_held_ne hHeld hji.symm)
      · cases hExec
    · cases hExec
  | unlock s =>
    simp only [Sync.exec] at hExec
    split at hExec
    · rename_i k hHeld
      split at hExec
      · rename_i hk
        cases hExec
        subst hk
        exact hSame s rfl (depth_of_held_ne hHeld hji.symm)
      · cases hExec
    · rename_i k n hHeld
      split at hExec
      · rename_i hk
        cases hExec
        subst hk
        exact hSame s (if_neg hji.symm) (depth_of_held_ne hHeld hji.symm)
      · cases hExec
    · cases hExec
  | call ss =>
    simp only [Sync.exec] at hExec
    split at hExec <;> cases hExec
    rfl
  | close s =>
    simp only [Sync.exec] at hExec
    split at hExec <;> cases hExec
    rfl
  | destroy s =>
    simp only [Sync.exec] at hExec
    split at hExec <;> cases hExec
    rename_i hFree
    exact hSame s rfl (by rw [Sync.depth, hFree]; rfl)

/-- A thread that waits is before a lock that somebody else has. -/
theorem exec_waits (h : x.exec i op = .waits) :
    ∃ s j n, op = .lock s ∧ x.lock s = .held j n ∧ j ≠ i := by
  cases op with
  | lock s =>
    simp only [Sync.exec] at h
    split at h
    · cases h
    · rename_i j n hHeld
      split at h
      · cases h
      · rename_i hji
        exact ⟨s, j, n, rfl, hHeld, hji⟩
    · cases h
  | unlock s =>
    simp only [Sync.exec] at h
    split at h
    · split at h <;> cases h
    · split at h <;> cases h
    · cases h
  | call ss =>
    simp only [Sync.exec] at h
    split at h <;> cases h
  | close s =>
    simp only [Sync.exec] at h
    split at h <;> cases h
  | destroy s =>
    simp only [Sync.exec] at h
    split at h <;> cases h

/-- **What an orderly thread can run into**: a lock that is destroyed, an object that is
closed, and destroying a lock that is destroyed or that somebody else has. -/
theorem Orderly.of_undefined (h : Orderly guard rank low (x.depth i) (op :: ops) goal)
    (hExec : x.exec i op = .undefined) :
    (∃ s, op = .lock s ∧ x.lock s = .destroyed) ∨ (∃ s ∈ op.uses, x.closed s = true) ∨
      ∃ s, op = .destroy s ∧ (x.lock s = .destroyed ∨ ∃ j, j ≠ i ∧ 0 < x.depth j s) := by
  cases op with
  | lock s =>
    refine Or.inl ⟨s, rfl, ?_⟩
    simp only [Sync.exec] at hExec
    split at hExec
    · cases hExec
    · split at hExec <;> cases hExec
    · assumption
  | unlock s =>
    obtain ⟨n, hHeld⟩ := held_of_depth_pos h.2.1
    simp only [Sync.exec, hHeld] at hExec
    cases n <;> simp at hExec
  | call ss =>
    simp only [Sync.exec] at hExec
    split at hExec
    · rename_i hAny
      exact Or.inr (Or.inl (List.any_eq_true.mp hAny))
    · cases hExec
  | close s =>
    refine Or.inr (Or.inl ⟨s, List.mem_singleton_self s, ?_⟩)
    simp only [Sync.exec] at hExec
    split at hExec
    · assumption
    · cases hExec
  | destroy s =>
    refine Or.inr (Or.inr ⟨s, rfl, ?_⟩)
    have hZero : x.depth i s = 0 := h.2.1
    simp only [Sync.exec] at hExec
    cases hLock : x.lock s with
    | free => simp [hLock] at hExec
    | held j n =>
      refine Or.inr ⟨j, ?_, by rw [depth_of_held hLock]; omega⟩
      rintro rfl
      rw [depth_of_held hLock] at hZero
      omega
    | destroyed => exact Or.inl rfl

/-- The locks that are destroyed after an operation. -/
theorem exec_destroyed (hExec : x.exec i op = .next x') (s : S) :
    x'.lock s = .destroyed ↔ x.lock s = .destroyed ∨ op = .destroy s := by
  have hUpdate (s' : S) {l : RecLock ι} (hl : l ≠ .destroyed) (hOld : x.lock s' ≠ .destroyed) :
      Function.update x.lock s' l s = .destroyed ↔ x.lock s = .destroyed := by
    by_cases hs : s = s'
    · subst hs
      simp [hl, hOld]
    · rw [Function.update_of_ne hs]
  cases op with
  | lock s' =>
    simp only [Sync.exec] at hExec
    split at hExec
    · rename_i hFree
      cases hExec
      simpa using hUpdate s' (by simp) (by simp [hFree])
    · rename_i j n hHeld
      split at hExec <;> cases hExec
      simpa using hUpdate s' (by simp) (by simp [hHeld])
    · cases hExec
  | unlock s' =>
    simp only [Sync.exec] at hExec
    split at hExec
    · rename_i j hHeld
      split at hExec <;> cases hExec
      simpa using hUpdate s' (by simp) (by simp [hHeld])
    · rename_i j n hHeld
      split at hExec <;> cases hExec
      simpa using hUpdate s' (by simp) (by simp [hHeld])
    · cases hExec
  | call ss =>
    simp only [Sync.exec] at hExec
    split at hExec <;> cases hExec
    simp
  | close s' =>
    simp only [Sync.exec] at hExec
    split at hExec <;> cases hExec
    simp
  | destroy s' =>
    simp only [Sync.exec] at hExec
    split at hExec <;> cases hExec
    by_cases hs : s = s'
    · simp [hs]
    · simp [hs, Ne.symm hs]

/-- The objects that are closed after an operation. -/
theorem exec_closed (hExec : x.exec i op = .next x') (s : S) :
    x'.closed s = true ↔ x.closed s = true ∨ op = .close s := by
  cases op with
  | lock s' =>
    simp only [Sync.exec] at hExec
    split at hExec
    · cases hExec
      simp
    · split at hExec <;> cases hExec
      simp
    · cases hExec
  | unlock s' =>
    simp only [Sync.exec] at hExec
    split at hExec
    · split at hExec <;> cases hExec
      simp
    · split at hExec <;> cases hExec
      simp
    · cases hExec
  | call ss =>
    simp only [Sync.exec] at hExec
    split at hExec <;> cases hExec
    simp
  | close s' =>
    simp only [Sync.exec] at hExec
    split at hExec <;> cases hExec
    by_cases hs : s = s'
    · simp [hs]
    · simp [hs, Ne.symm hs]
  | destroy s' =>
    simp only [Sync.exec] at hExec
    split at hExec <;> cases hExec
    simp

/-- What has been closed, and which locks are destroyed, after the operations `done`. -/
structure Sync.Ended (x : Sync ι S) (done : List (SyncOp S)) : Prop where
  lock : ∀ s, x.lock s = .destroyed ↔ .destroy s ∈ done
  closed : ∀ s, x.closed s = true ↔ .close s ∈ done

theorem Sync.Ended.exec {done : List (SyncOp S)} (h : x.Ended done)
    (hExec : x.exec i op = .next x') : x'.Ended (done ++ [op]) where
  lock s := by
    rw [exec_destroyed hExec, h.lock, List.mem_append, List.mem_singleton, @eq_comm _ op]
  closed s := by
    rw [exec_closed hExec, h.closed, List.mem_append, List.mem_singleton, @eq_comm _ op]

/-- Most operations end nothing. -/
theorem Sync.Ended.exec_of_ends {done : List (SyncOp S)} (h : x.Ended done)
    (hExec : x.exec i op = .next x') (hOp : op.ends = false) : x'.Ended done where
  lock s := by
    rw [exec_destroyed hExec, h.lock, or_iff_left]
    rintro rfl
    cases hOp
  closed s := by
    rw [exec_closed hExec, h.closed, or_iff_left]
    rintro rfl
    cases hOp

/-- What is in use is used under a lock: its own, or the one that guards it. -/
theorem Orderly.has_of_uses (h : Orderly guard rank low (x.depth i) (op :: ops) goal) {s : S}
    (hs : s ∈ op.uses) :
    (op = .close s ∧ 0 < x.depth i s) ∨ (op.ends = false ∧ 0 < x.depth i (guard s)) := by
  cases op with
  | call ss => exact Or.inr ⟨rfl, h.2.1 s hs⟩
  | close s' =>
    rw [List.mem_singleton.mp hs]
    exact Or.inl ⟨rfl, h.2.1⟩
  | lock s' => exact absurd hs List.not_mem_nil
  | unlock s' => exact absurd hs List.not_mem_nil
  | destroy s' => exact absurd hs List.not_mem_nil

end Exec

-- ---------------------------------------------------------------------------
-- All threads
-- ---------------------------------------------------------------------------

/-- The next thing `i` does is to wait. -/
def Sync.Waits [DecidableEq ι] [DecidableEq S] (x : Sync ι S) (ops : ι → List (SyncOp S))
    (i : ι) : Prop :=
  ∃ op rest, ops i = op :: rest ∧ x.exec i op = .waits

/-- The next thing `i` does is to take a lock that `j` has. -/
def Sync.WaitsFor (x : Sync ι S) (ops : ι → List (SyncOp S)) (i j : ι) : Prop :=
  ∃ s n rest, ops i = .lock s :: rest ∧ x.lock s = .held j n ∧ j ≠ i

section Waiting

variable [DecidableEq ι] [DecidableEq S] {x : Sync ι S} {ops : ι → List (SyncOp S)} {i j : ι}

theorem waits_iff : x.Waits ops i ↔ ∃ j, x.WaitsFor ops i j := by
  constructor
  · rintro ⟨op, rest, hOps, hExec⟩
    obtain ⟨s, j, n, rfl, hHeld, hji⟩ := exec_waits hExec
    exact ⟨j, s, n, rest, hOps, hHeld, hji⟩
  · rintro ⟨j, s, n, rest, hOps, hHeld, hji⟩
    refine ⟨.lock s, rest, hOps, ?_⟩
    simp [Sync.exec, hHeld, hji]

/-- The rank of the lock that is taken next. -/
def nextRank (rank : S → Nat) : List (SyncOp S) → Nat
  | .lock s :: _ => rank s
  | _ => 0

variable {guard : ι → S → S} {rank : S → Nat} {low goal : ι → S → Nat} {top : Nat}

section Orderly

variable (hOrderly : ∀ i, Orderly (guard i) rank (low i) (x.depth i) (ops i) (goal i))

include hOrderly

/-- Who waits for one that waits itself waits for a lower lock. -/
theorem nextRank_lt (h : x.WaitsFor ops i j) (hj : x.Waits ops j) :
    nextRank rank (ops i) < nextRank rank (ops j) := by
  obtain ⟨s, n, rest, hOps, hHeld, -⟩ := h
  obtain ⟨k, s', m, rest', hOps', hHeld', hkj⟩ := waits_iff.mp hj
  have hOrder := hOrderly j
  rw [hOps'] at hOrder
  have hPos : 0 < x.depth j s := by
    rw [depth_of_held hHeld]
    omega
  rw [hOps, hOps']
  exact hOrder.2.1 (depth_of_held_ne hHeld' hkj) s hPos

/-- So the locks along a chain of waiting threads go up. -/
theorem nextRank_lt_of_transGen (h : Relation.TransGen (x.WaitsFor ops) i j)
    (hj : x.Waits ops j) : nextRank rank (ops i) < nextRank rank (ops j) := by
  induction h with
  | single hFor => exact nextRank_lt hOrderly hFor hj
  | @tail b c _ hFor ih =>
    exact (ih (waits_iff.mpr ⟨c, hFor⟩)).trans (nextRank_lt hOrderly hFor hj)

/-- **No circle**: no orderly thread waits, through any others, for itself. -/
theorem not_transGen_waitsFor : ¬ Relation.TransGen (x.WaitsFor ops) i i := by
  intro h
  obtain ⟨b, hFor, -⟩ := Relation.TransGen.head'_iff.mp h
  exact lt_irrefl _ (nextRank_lt_of_transGen hOrderly h (waits_iff.mpr ⟨b, hFor⟩))

/-- **Nobody waits for nothing.** A chain of waiting threads ends in one that does not
wait. -/
theorem exists_not_waiting (hTop : ∀ s, rank s ≤ top) (hWaits : x.Waits ops i) :
    ∃ j, Relation.TransGen (x.WaitsFor ops) i j ∧ ¬ x.Waits ops j := by
  have hNext : ∀ ops : List (SyncOp S), nextRank rank ops ≤ top := by
    intro ops
    unfold nextRank
    split
    · exact hTop _
    · exact Nat.zero_le top
  -- by induction on the room above the lock that `i` waits for
  induction hRoom : top - nextRank rank (ops i) using Nat.strong_induction_on
    generalizing i with
  | _ room ih =>
    obtain ⟨j, hFor⟩ := waits_iff.mp hWaits
    by_cases hj : x.Waits ops j
    · have hLt := nextRank_lt hOrderly hFor hj
      have hLe := hNext (ops j)
      obtain ⟨u, hChain, hEnd⟩ := ih (top - nextRank rank (ops j)) (by omega) hj rfl
      exact ⟨u, .head hFor hChain, hEnd⟩
    · exact ⟨j, .single hFor, hj⟩

end Orderly

end Waiting

end ZmqBridge.Lib
