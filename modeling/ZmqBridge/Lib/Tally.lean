import Mathlib

/-!
# Counts that lag behind

Increments and decrements of per-key counts are posted to a queue and applied
later, in order. `Balanced` relates the counts, the queue and the counts that
are due; it also says that no prefix of the queue takes a count below zero.

* `Balanced.post`      — posting a change together with making it due;
* `Balanced.apply`     — applying the first change of the queue;
* `Balanced.dec_pos`   — a decrement never meets a zero;
* `Balanced.drained`   — with an empty queue the counts are those due.
-/

namespace ZmqBridge.Lib

/-- A change to the count of a key. -/
inductive Tally (τ : Type*) where
  | inc (t : τ)
  | dec (t : τ)
  deriving DecidableEq

variable {τ : Type*} [DecidableEq τ] {count due : τ → Nat} {pending : List (Tally τ)}

/-- A count that is zero stays zero. -/
def Tally.apply (count : τ → Nat) : Tally τ → τ → Nat
  | .inc t => Function.update count t (count t + 1)
  | .dec t => Function.update count t (count t - 1)

/-- What a change is meant to do to the count of `u`. -/
def Tally.delta (u : τ) : Tally τ → Int
  | .inc t => if u = t then 1 else 0
  | .dec t => if u = t then -1 else 0

theorem Tally.apply_eq {op : Tally τ} {u : τ} (h : 0 ≤ (count u : Int) + op.delta u) :
    (op.apply count u : Int) = count u + op.delta u := by
  cases op with
  | inc t =>
    by_cases hut : u = t
    · subst hut
      simp [Tally.apply, Tally.delta]
    · simp [Tally.apply, Tally.delta, hut]
  | dec t =>
    by_cases hut : u = t
    · subst hut
      simp [Tally.apply, Tally.delta] at h ⊢
      omega
    · simp [Tally.apply, Tally.delta, hut]

/-- What a queue of changes is meant to do to the count of `u`. -/
def net (u : τ) (p : List (Tally τ)) : Int := (p.map (Tally.delta u)).sum

theorem net_nil (u : τ) : net u [] = 0 := rfl

theorem net_cons (u : τ) (op : Tally τ) (p : List (Tally τ)) :
    net u (op :: p) = op.delta u + net u p := by
  simp [net]

theorem net_append (u : τ) (p q : List (Tally τ)) : net u (p ++ q) = net u p + net u q := by
  simp [net]

theorem net_eq_count (u : τ) (p : List (Tally τ)) :
    net u p = (p.count (.inc u) : Int) - p.count (.dec u) := by
  induction p with
  | nil => rfl
  | cons op p ih =>
    rw [net_cons, ih, List.count_cons, List.count_cons]
    cases op with
    | inc t =>
      by_cases hut : u = t
      · simp [Tally.delta, hut]
        omega
      · simp [Tally.delta, hut, Ne.symm hut]
    | dec t =>
      by_cases hut : u = t
      · simp [Tally.delta, hut]
        omega
      · simp [Tally.delta, hut, Ne.symm hut]

structure Balanced (count : τ → Nat) (pending : List (Tally τ)) (due : τ → Nat) : Prop where
  total : ∀ u, (count u : Int) + net u pending = due u
  covered : ∀ p, p <+: pending → ∀ u, 0 ≤ (count u : Int) + net u p

theorem balanced_nil (count : τ → Nat) : Balanced count [] count where
  total u := by rw [net_nil, add_zero]
  covered p hp u := by
    rw [List.prefix_nil.mp hp, net_nil]
    omega

/-- Posting a change together with making it due. -/
theorem Balanced.post {op : Tally τ} (h : Balanced count pending due)
    (hDue : ∀ u, 0 ≤ (due u : Int) + op.delta u) :
    Balanced count (pending ++ [op]) (op.apply due) where
  total u := by
    have hu := h.total u
    rw [Tally.apply_eq (hDue u), net_append, net_cons, net_nil]
    omega
  covered p hp u := by
    rcases List.prefix_concat_iff.mp hp with rfl | hp
    · have hu := h.total u
      have hLast := hDue u
      rw [net_append, net_cons, net_nil]
      omega
    · exact h.covered p hp u

/-- No prefix of the queue takes a count below zero, so the first change has its
full effect. -/
theorem Balanced.apply {op : Tally τ} (h : Balanced count (op :: pending) due) :
    Balanced (op.apply count) pending due := by
  have hFirst : ∀ u, (op.apply count u : Int) = count u + op.delta u := by
    intro u
    have hu := h.covered [op] (List.cons_prefix_cons.mpr ⟨rfl, List.nil_prefix⟩) u
    rw [net_cons, net_nil, add_zero] at hu
    exact Tally.apply_eq hu
  refine ⟨fun u => ?_, fun p hp u => ?_⟩
  · have hu := h.total u
    rw [net_cons] at hu
    rw [hFirst u]
    omega
  · have hu := h.covered (op :: p) (List.cons_prefix_cons.mpr ⟨rfl, hp⟩) u
    rw [net_cons] at hu
    rw [hFirst u]
    omega

/-- A decrement never meets a zero. -/
theorem Balanced.dec_pos {t : τ} (h : Balanced count (.dec t :: pending) due) : 0 < count t := by
  have ht := h.covered [.dec t] (List.cons_prefix_cons.mpr ⟨rfl, List.nil_prefix⟩) t
  rw [net_cons, net_nil, Tally.delta, if_pos rfl] at ht
  omega

theorem Balanced.drained (h : Balanced count [] due) (t : τ) : count t = due t := by
  have ht := h.total t
  rw [net_nil] at ht
  omega

end ZmqBridge.Lib
