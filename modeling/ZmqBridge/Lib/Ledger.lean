import Mathlib

/-!
# Numbered things that are handed out and given back

Things are numbered as they are issued. Each is held in some place until it is
given back. `Ledger.Balanced` says that every thing that was issued is either
held or was given back, and only once.

* `Balanced.issue`, `Balanced.giveBack` — what keeps the balance;
* `Balanced.not_issue`, `Balanced.lose_iff` — a thing that is issued and not
  held, or that is no longer held and not given back, is lost for good;
* `Balanced.open_eq` — what was not given back is what is held.
-/

namespace ZmqBridge.Lib

structure Ledger where
  held : List Nat
  returned : List Nat
  issued : Nat

def Ledger.Balanced (g : Ledger) : Prop := (g.held ++ g.returned).Perm (List.range g.issued)

instance (g : Ledger) : Decidable g.Balanced := inferInstanceAs (Decidable (List.Perm _ _))

variable {held held' returned : List Nat} {issued : Nat}

theorem Ledger.Balanced.length_eq {g : Ledger} (h : g.Balanced) :
    g.held.length + g.returned.length = g.issued := by
  have hLen := List.Perm.length_eq h
  rwa [List.length_append, List.length_range] at hLen

/-- The number of things that are out is the number of those that are held. -/
theorem Ledger.Balanced.open_eq {g : Ledger} (h : g.Balanced) :
    g.issued - g.returned.length = g.held.length := by
  have hLen := h.length_eq
  omega

/-- The next thing is issued, and held somewhere. -/
theorem Ledger.Balanced.issue (h : Ledger.Balanced ⟨held, returned, issued⟩)
    (hHeld : held'.Perm (held ++ [issued])) :
    Ledger.Balanced ⟨held', returned, issued + 1⟩ := by
  have hOld : (held ++ returned).Perm (List.range issued) := h
  show (held' ++ returned).Perm (List.range (issued + 1))
  rw [List.range_succ]
  calc held' ++ returned
    _ |>.Perm (held ++ [issued] ++ returned) := hHeld.append_right _
    _ |>.Perm (held ++ returned ++ [issued]) := by
      rw [List.append_assoc, List.append_assoc]
      exact List.perm_append_comm.append_left held
    _ |>.Perm (List.range issued ++ [issued]) := hOld.append_right _

/-- What is held is given back. -/
theorem Ledger.Balanced.giveBack {back : List Nat}
    (h : Ledger.Balanced ⟨held, returned, issued⟩) (hHeld : (held' ++ back).Perm held) :
    Ledger.Balanced ⟨held', returned ++ back, issued⟩ := by
  have hOld : (held ++ returned).Perm (List.range issued) := h
  show (held' ++ (returned ++ back)).Perm (List.range issued)
  calc held' ++ (returned ++ back)
    _ |>.Perm (held' ++ (back ++ returned)) := List.perm_append_comm.append_left held'
    _ |>.Perm (held ++ returned) := by
      rw [← List.append_assoc]
      exact hHeld.append_right returned
    _ |>.Perm (List.range issued) := hOld

/-- The order in which things are held does not matter. -/
theorem Ledger.Balanced.moved (h : Ledger.Balanced ⟨held, returned, issued⟩)
    (hHeld : held'.Perm held) : Ledger.Balanced ⟨held', returned, issued⟩ :=
  (hHeld.append_right returned).trans h

/-- A thing that is issued has to be held. -/
theorem Ledger.Balanced.not_issue (h : Ledger.Balanced ⟨held, returned, issued⟩)
    (hHeld : held'.Perm held) : ¬ Ledger.Balanced ⟨held', returned, issued + 1⟩ := by
  intro hNew
  have hLen := h.length_eq
  have hLenNew := hNew.length_eq
  have hLenHeld := hHeld.length_eq
  simp only at hLen hLenNew
  omega

/-- What is no longer held has to be given back. -/
theorem Ledger.Balanced.lose_iff {lost : List Nat}
    (h : Ledger.Balanced ⟨held, returned, issued⟩) (hHeld : (held' ++ lost).Perm held) :
    Ledger.Balanced ⟨held', returned, issued⟩ ↔ lost = [] := by
  constructor
  · intro hNew
    have hLen := h.length_eq
    have hLenNew := hNew.length_eq
    have hLenHeld := hHeld.length_eq
    rw [List.length_append] at hLenHeld
    simp only at hLen hLenNew
    exact List.eq_nil_of_length_eq_zero (by omega)
  · rintro rfl
    rw [List.append_nil] at hHeld
    exact h.moved hHeld

-- ---------------------------------------------------------------------------
-- Places
-- ---------------------------------------------------------------------------

variable {α β : Type*} {l : List α} {k : Nat} {a a' : α} {f : α → List β} {xs ys : List β}

/-- Replacing one place, where `xs` leaves it and `ys` comes in. -/
theorem perm_flatMap_set (h : l[k]? = some a) (hf : (f a' ++ xs).Perm (f a ++ ys)) :
    ((l.set k a').flatMap f ++ xs).Perm (l.flatMap f ++ ys) := by
  induction l generalizing k with
  | nil => simp at h
  | cons b l ih =>
    cases k with
    | zero =>
      obtain rfl : b = a := Option.some.inj h
      -- move `xs` and `ys` in front of the other places
      calc f a' ++ l.flatMap f ++ xs
        _ |>.Perm (f a' ++ xs ++ l.flatMap f) := by
          rw [List.append_assoc, List.append_assoc]
          exact List.perm_append_comm.append_left _
        _ |>.Perm (f b ++ ys ++ l.flatMap f) := hf.append_right _
        _ |>.Perm (f b ++ l.flatMap f ++ ys) := by
          rw [List.append_assoc, List.append_assoc]
          exact List.perm_append_comm.append_left _
    | succ k =>
      rw [List.set_cons_succ, List.flatMap_cons, List.flatMap_cons, List.append_assoc,
        List.append_assoc]
      exact (ih h).append_left _

end ZmqBridge.Lib
