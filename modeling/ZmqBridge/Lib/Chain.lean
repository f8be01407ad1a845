import Mathlib

/-!
# Linked lists in an address space

The link fields of a set of nodes, as functions of the address, and lists that
are threaded through them. Nothing is said about what else the nodes hold, so
the lists of a program are instances: its memory gives the two functions.

* `Links.Doubly` — consecutive addresses point to each other;
* `Links.Path`   — following `next` from a pointer visits the addresses and ends
  at the null pointer.

Each list is determined by where it starts (`Doubly.unique`, `Path.unique`) and
depends only on the fields of its own nodes (`Doubly.congr`, `Path.congr`); `walk`
finds the first kind.
`Doubly.insert` and `Doubly.remove` say what relinking at the end and at the
start has to achieve.
-/

namespace ZmqBridge.Lib

variable {α : Type*}

structure Links (α : Type*) where
  next : α → Option α
  prev : α → Option α

/-- `b` is the successor of `a`, and `a` the predecessor of `b`. -/
def Links.Joined (m : Links α) (a b : α) : Prop := m.next a = some b ∧ m.prev b = some a

/-- The addresses form a doubly linked list, in this order. -/
def Links.Doubly (m : Links α) (l : List α) : Prop := l.IsChain m.Joined

/-- Following `next` from `p` visits exactly these addresses. -/
def Links.Path (m : Links α) : Option α → List α → Prop
  | p, [] => p = none
  | p, a :: l => p = some a ∧ Links.Path m (m.next a) l

variable {m m' : Links α}

-- ---------------------------------------------------------------------------
-- Doubly linked lists
-- ---------------------------------------------------------------------------

/-- Only the fields that point along the list matter. -/
theorem Links.Doubly.congr {l : List α} (h : m.Doubly l)
    (hNext : ∀ a ∈ l.dropLast, m'.next a = m.next a)
    (hPrev : ∀ a ∈ l.tail, m'.prev a = m.prev a) : m'.Doubly l := by
  induction l with
  | nil => exact List.IsChain.nil
  | cons a l ih =>
    cases l with
    | nil => exact List.IsChain.singleton a
    | cons b l =>
      obtain ⟨⟨hn, hp⟩, hRest⟩ := List.isChain_cons_cons.mp h
      refine List.isChain_cons_cons.mpr ⟨⟨?_, ?_⟩, ih hRest ?_ ?_⟩
      · rw [hNext a (by simp), hn]
      · rw [hPrev b (by simp), hp]
      · exact fun c hc => hNext c (by simp [hc])
      · exact fun c hc => hPrev c (List.mem_of_mem_tail hc)

/-- A list between two ends is determined by its start. -/
theorem Links.Doubly.unique {a b : α} {l l' : List α} (h : m.Doubly (a :: l ++ [b]))
    (h' : m.Doubly (a :: l' ++ [b])) (hb : b ∉ l) (hb' : b ∉ l') : l = l' := by
  induction l generalizing a l' with
  | nil =>
    cases l' with
    | nil => rfl
    | cons c l' =>
      have hNext := (List.isChain_cons_cons.mp h).1.1
      have hNext' := (List.isChain_cons_cons.mp h').1.1
      rw [hNext] at hNext'
      exact absurd (List.mem_cons.mpr (Or.inl (Option.some.inj hNext'))) hb'
  | cons c l ih =>
    have hSplit := List.isChain_cons_cons.mp h
    cases l' with
    | nil =>
      have hNext' := (List.isChain_cons_cons.mp h').1.1
      rw [hSplit.1.1] at hNext'
      exact absurd (List.mem_cons.mpr (Or.inl (Option.some.inj hNext').symm)) hb
    | cons c' l' =>
      have hSplit' := List.isChain_cons_cons.mp h'
      have hNext' := hSplit'.1.1
      rw [hSplit.1.1] at hNext'
      obtain rfl := Option.some.inj hNext'
      rw [ih hSplit.2 hSplit'.2 (fun hc => hb (List.mem_cons_of_mem _ hc))
        (fun hc => hb' (List.mem_cons_of_mem _ hc))]

/-- Putting `x` between the last two addresses. -/
theorem Links.Doubly.insert {a b x : α} {l : List α} (h : m.Doubly (l ++ [a, b]))
    (hNext : ∀ c ∈ l, m'.next c = m.next c) (hPrev : ∀ c ∈ l ++ [a], m'.prev c = m.prev c)
    (hFirst : m'.Joined a x) (hSecond : m'.Joined x b) : m'.Doubly (l ++ [a, x, b]) := by
  have hStart : m.Doubly (l ++ [a]) := (List.isChain_append_cons_cons.mp h).1
  refine List.isChain_append_cons_cons.mpr ⟨Links.Doubly.congr hStart ?_ ?_, hFirst, ?_⟩
  · intro c hc
    rw [List.dropLast_concat] at hc
    exact hNext c hc
  · exact fun c hc => hPrev c (List.mem_of_mem_tail hc)
  · exact List.isChain_cons_cons.mpr ⟨hSecond, List.IsChain.singleton b⟩

/-- Taking out the address behind the first. -/
theorem Links.Doubly.remove {a x y : α} {l : List α} (h : m.Doubly (a :: x :: y :: l))
    (hNext : ∀ c ∈ (y :: l).dropLast, m'.next c = m.next c)
    (hPrev : ∀ c ∈ l, m'.prev c = m.prev c) (hJoined : m'.Joined a y) :
    m'.Doubly (a :: y :: l) := by
  have hRest : m.Doubly (y :: l) :=
    (List.isChain_cons_cons.mp (List.isChain_cons_cons.mp h).2).2
  exact List.isChain_cons_cons.mpr ⟨hJoined, Links.Doubly.congr hRest hNext hPrev⟩

-- ---------------------------------------------------------------------------
-- Singly linked lists
-- ---------------------------------------------------------------------------

theorem Links.Path.congr {p : Option α} {l : List α} (h : m.Path p l)
    (hNext : ∀ a ∈ l, m'.next a = m.next a) : m'.Path p l := by
  induction l generalizing p with
  | nil => exact h
  | cons a l ih =>
    refine ⟨h.1, ?_⟩
    rw [hNext a List.mem_cons_self]
    exact ih h.2 fun c hc => hNext c (List.mem_cons_of_mem _ hc)

theorem Links.Path.unique {p : Option α} {l l' : List α} (h : m.Path p l) (h' : m.Path p l') :
    l = l' := by
  induction l generalizing p l' with
  | nil =>
    cases l' with
    | nil => rfl
    | cons a l' =>
      obtain rfl : p = none := h
      cases h'.1
  | cons a l ih =>
    cases l' with
    | nil =>
      obtain rfl : p = none := h'
      cases h.1
    | cons a' l' =>
      obtain rfl : a = a' := Option.some.inj (h.1.symm.trans h'.1)
      rw [ih h.2 h'.2]

theorem Links.path_none {l : List α} (h : m.Path none l) : l = [] := Links.Path.unique h rfl

-- ---------------------------------------------------------------------------
-- Following the links
-- ---------------------------------------------------------------------------

/-- The addresses before `stop`, following `next` from `p` for at most `n`
rounds. -/
def Links.walk [DecidableEq α] (m : Links α) (stop : α) : Nat → Option α → List α
  | 0, _ => []
  | _ + 1, none => []
  | n + 1, some a => if a = stop then [] else a :: m.walk stop n (m.next a)

theorem Links.Doubly.walk_eq [DecidableEq α] {a stop : α} {l : List α}
    (h : m.Doubly (a :: l ++ [stop])) (hStop : stop ∉ l) {n : Nat} (hn : l.length ≤ n) :
    m.walk stop n (m.next a) = l := by
  induction l generalizing a n with
  | nil =>
    cases n with
    | zero => rfl
    | succ n =>
      rw [(List.isChain_cons_cons.mp h).1.1]
      exact if_pos rfl
  | cons b l ih =>
    cases n with
    | zero => exact absurd hn (Nat.not_succ_le_zero _)
    | succ n =>
      obtain ⟨hJoined, hRest⟩ := List.isChain_cons_cons.mp h
      have hne : b ≠ stop := fun hb => hStop (hb ▸ List.mem_cons_self)
      rw [hJoined.1, Links.walk, if_neg hne]
      rw [ih hRest (fun hl => hStop (List.mem_cons_of_mem _ hl)) (Nat.le_of_succ_le_succ hn)]

end ZmqBridge.Lib
