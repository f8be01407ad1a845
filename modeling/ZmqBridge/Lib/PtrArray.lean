import ZmqBridge.Lib.CMemory

/-!
# Arrays of pointers

A fixed-size array of pointers, `none` for `NULL`, as C code fills it from the
front and reads it up to the first `NULL` or the end.

* `PtrArray.Holds` — the entries in front, and `NULL` behind them; how a write
  changes them, and what is read.
-/

namespace ZmqBridge.Lib

variable {α : Type}

structure PtrArray (α : Type) (n : Nat) where
  entries : List (Option α)
  size_eq : entries.length = n

/-- All pointers are `NULL`, as `calloc` leaves them. -/
def PtrArray.null (α : Type) (n : Nat) : PtrArray α n := ⟨List.replicate n none, by simp⟩

/-- `a[i] = p`, for a pointer `p` that is not `NULL`. -/
def PtrArray.write {n : Nat} (a : PtrArray α n) (i : Nat) (p : α) :
    Except Fault (PtrArray α n) :=
  if i < n then .ok ⟨a.entries.set i (some p), by simp [a.size_eq]⟩ else .error .writeOutside

/-- What `for (i = 0; (i < n) && (a[i] != NULL); i++)` goes through. -/
def PtrArray.upToNull {n : Nat} (a : PtrArray α n) : List α :=
  (a.entries.takeWhile Option.isSome).reduceOption

/-- The array holds these pointers in front, and `NULL` behind them. -/
structure PtrArray.Holds {n : Nat} (a : PtrArray α n) (l : List α) : Prop where
  length_le : l.length ≤ n
  entries_eq : a.entries = l.map some ++ List.replicate (n - l.length) none

theorem PtrArray.holds_null (n : Nat) : (PtrArray.null α n).Holds [] :=
  ⟨Nat.zero_le n, rfl⟩

theorem PtrArray.Holds.upToNull {n : Nat} {a : PtrArray α n} {l : List α} (h : a.Holds l) :
    a.upToNull = l := by
  have hFront : (l.map some ++ List.replicate (n - l.length) none).takeWhile Option.isSome =
      l.map some := by
    rw [List.takeWhile_append_of_pos (by simp)]
    cases n - l.length with
    | zero => simp
    | succ m => rw [List.replicate_succ, List.takeWhile_cons_of_neg (by simp), List.append_nil]
  rw [PtrArray.upToNull, h.entries_eq, hFront]
  rw [List.reduceOption, List.filterMap_map]
  exact List.filterMap_some

theorem PtrArray.write_outside {n : Nat} (a : PtrArray α n) {i : Nat} (h : n ≤ i) (p : α) :
    a.write i p = .error .writeOutside := dif_neg (Nat.not_lt_of_le h)

/-- A write to the first `NULL`. -/
theorem PtrArray.Holds.write_next {n : Nat} {a : PtrArray α n} {l : List α} (h : a.Holds l)
    (hLt : l.length < n) (p : α) : ∃ a', a.write l.length p = .ok a' ∧ a'.Holds (l ++ [p]) := by
  refine ⟨_, dif_pos hLt, by rw [List.length_append]; exact hLt, ?_⟩
  show a.entries.set l.length (some p) = _
  obtain ⟨m, hm⟩ := Nat.exists_eq_add_of_lt hLt
  have hRest : n - l.length = m + 1 := by omega
  have hRest' : n - (l ++ [p]).length = m := by
    rw [List.length_append, List.length_singleton]
    omega
  rw [h.entries_eq, hRest, hRest', List.set_append_right _ _ (by simp), List.length_map,
    Nat.sub_self, List.replicate_succ, List.set_cons_zero, List.map_append, List.append_assoc]
  rfl

/-- The first pointer is replaced. -/
theorem PtrArray.Holds.write_first {n : Nat} {a : PtrArray α n} {x : α} {l : List α}
    (h : a.Holds (x :: l)) (p : α) : ∃ a', a.write 0 p = .ok a' ∧ a'.Holds (p :: l) := by
  have hLt : 0 < n := Nat.lt_of_lt_of_le (Nat.succ_pos _) h.length_le
  refine ⟨_, dif_pos hLt, h.length_le, ?_⟩
  show a.entries.set 0 (some p) = _
  rw [h.entries_eq]
  rfl

end ZmqBridge.Lib
