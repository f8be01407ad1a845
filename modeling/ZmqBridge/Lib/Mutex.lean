import Mathlib

/-!
# Threads and a mutex

Threads are at places, and some places are inside the section a mutex guards. The
lock has at most one owner; that it is exactly the thread inside is kept by every
move that takes the lock on the way in and gives it back on the way out.
-/

namespace ZmqBridge.Lib

variable {ι P : Type*} {inside : P → Bool} {lock : Option ι} {pc : ι → P}

/-- The owner of the lock is the thread inside. -/
def Held (inside : P → Bool) (lock : Option ι) (pc : ι → P) : Prop :=
  ∀ i, inside (pc i) = true ↔ lock = some i

/-- **Mutual exclusion.** -/
theorem Held.unique (h : Held inside lock pc) {i j : ι} (hi : inside (pc i) = true)
    (hj : inside (pc j) = true) : i = j :=
  Option.some.inj (((h i).mp hi).symm.trans ((h j).mp hj))

theorem Held.of_free (h : Held inside none pc) (i : ι) : inside (pc i) = false := by
  by_contra hIn
  exact absurd ((h i).mp (Bool.eq_true_of_not_eq_false hIn)) (by simp)

theorem held_of_outside (h : ∀ i, inside (pc i) = false) : Held inside none pc := by
  intro i
  simp [h i]

section Moves

variable [DecidableEq ι] {i : ι} {p : P}

/-- A move that stays inside or stays outside. -/
theorem Held.move (h : Held inside lock pc) (hp : inside p = inside (pc i)) :
    Held inside lock (Function.update pc i p) := by
  intro j
  by_cases hj : j = i
  · subst hj
    rw [Function.update_self, hp]
    exact h j
  · rw [Function.update_of_ne hj]
    exact h j

theorem Held.acquire (h : Held inside none pc) (hp : inside p = true) :
    Held inside (some i) (Function.update pc i p) := by
  intro j
  by_cases hj : j = i
  · subst hj
    simp [hp]
  · rw [Function.update_of_ne hj, h.of_free j]
    simp [Ne.symm hj]

theorem Held.release (h : Held inside lock pc) (hIn : inside (pc i) = true)
    (hp : inside p = false) : Held inside none (Function.update pc i p) := by
  refine held_of_outside fun j => ?_
  by_cases hj : j = i
  · subst hj
    rw [Function.update_self, hp]
  · rw [Function.update_of_ne hj]
    by_contra hNot
    exact hj (h.unique (Bool.eq_true_of_not_eq_false hNot) hIn)

end Moves

end ZmqBridge.Lib
