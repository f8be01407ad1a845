import Mathlib

/-!
# Announce-and-reply discovery through a relay

Any number of parties find each other through one relay. A party that has
joined announces itself; the relay hands every announcement to all parties that
have joined by then, the sender included; and a party that hears of somebody
for the first time announces itself again. What a party sends before the relay
has heard of it may be lost, so `Step.learn` only promises the second
announcement for parties that have been heard.

* `Discovery.Step`             — what can happen, over an arbitrary set of parties;
* `Discovery.Inv`              — the invariant over pairs of parties;
* `Discovery.Inv.full_mesh`    — when nothing is under way, any two parties the
  relay has heard of know each other.
-/

namespace ZmqBridge.Lib

variable {ι : Type*}

/-- `known i j`: party `i` has heard of `j`. `toward i j`: an announcement of
`j` is on its way from the relay to `i`. `announcing`: the parties with an
announcement on its way to the relay. `heard`: the parties the relay has passed
on an announcement of. -/
@[ext]
structure Discovery (ι : Type*) where
  joined : Set ι
  heard : Set ι
  announcing : Set ι
  known : ι → ι → Prop
  toward : ι → ι → Prop

namespace Discovery

/-- Nobody has joined. -/
def init : Discovery ι where
  joined := ∅
  heard := ∅
  announcing := ∅
  known _ _ := False
  toward _ _ := False

/-- Several copies of an announcement can be under way, so taking one away may
leave another: `left` is what is under way afterwards, and it is only fixed
away from the announcement that was taken. -/
inductive Step : Discovery ι → Discovery ι → Prop
  | join {s : Discovery ι} {i : ι} (hNew : i ∉ s.joined) :
      Step s { s with joined := insert i s.joined }
  | announce {s : Discovery ι} {i : ι} :
      Step s { s with announcing := insert i s.announcing }
  | relay {s : Discovery ι} {i : ι} {left : Set ι} (hJoined : i ∈ s.joined)
      (hLeft : ∀ j, j ≠ i → (j ∈ left ↔ j ∈ s.announcing)) :
      Step s { s with
        announcing := left
        heard := insert i s.heard
        toward := fun a b => s.toward a b ∨ (b = i ∧ a ∈ s.joined) }
  | learn {s : Discovery ι} {i j : ι} {left : ι → ι → Prop} {announcing : Set ι}
      (hToward : s.toward i j)
      (hLeft : ∀ a b, left a b → s.toward a b)
      (hOther : ∀ a b, s.toward a b → (a = i ∧ b = j) ∨ left a b)
      (hMore : s.announcing ⊆ announcing)
      (hReply : ¬ s.known i j → i ∈ s.heard → i ∈ announcing) :
      Step s { s with
        announcing := announcing
        known := fun a b => s.known a b ∨ (a = i ∧ b = j)
        toward := left }

/-- What holds of every reachable state. -/
structure Inv (s : Discovery ι) : Prop where
  heard_joined : ∀ i ∈ s.heard, i ∈ s.joined
  known_heard : ∀ i j, s.known i j → j ∈ s.heard
  toward_heard : ∀ i j, s.toward i j → j ∈ s.heard
  /-- Once heard, a party that knows `b` has told `b`, or is about to. -/
  answered : ∀ a b, a ∈ s.heard → b ∈ s.joined → s.known a b →
    s.known b a ∨ s.toward b a ∨ a ∈ s.announcing
  /-- Of two parties that were heard, one knows the other or is about to. -/
  met : ∀ a b, a ∈ s.heard → b ∈ s.heard →
    s.known a b ∨ s.toward a b ∨ s.known b a ∨ s.toward b a

theorem inv_init : Inv (init : Discovery ι) where
  heard_joined _ h := absurd h (Set.notMem_empty _)
  known_heard _ _ h := h.elim
  toward_heard _ _ h := h.elim
  answered _ _ h := absurd h (Set.notMem_empty _)
  met _ _ h := absurd h (Set.notMem_empty _)

/-- A new party is known to nobody, so nobody owes it an answer. -/
theorem Inv.join {s : Discovery ι} {i : ι} (hInv : Inv s) (hNew : i ∉ s.joined) :
    Inv { s with joined := insert i s.joined } where
  heard_joined j hj := Set.mem_insert_of_mem _ (hInv.heard_joined j hj)
  known_heard := hInv.known_heard
  toward_heard := hInv.toward_heard
  answered a b ha hb hKnown := by
    rcases Set.mem_insert_iff.mp hb with rfl | hb
    · exact absurd (hInv.heard_joined b (hInv.known_heard a b hKnown)) hNew
    · exact hInv.answered a b ha hb hKnown
  met := hInv.met

theorem Inv.announce {s : Discovery ι} {i : ι} (hInv : Inv s) :
    Inv { s with announcing := insert i s.announcing } where
  heard_joined := hInv.heard_joined
  known_heard := hInv.known_heard
  toward_heard := hInv.toward_heard
  answered a b ha hb hKnown := by
    rcases hInv.answered a b ha hb hKnown with h | h | h
    · exact Or.inl h
    · exact Or.inr (Or.inl h)
    · exact Or.inr (Or.inr (Set.mem_insert_of_mem _ h))
  met := hInv.met

/-- The relay tells everybody, so every debt of `i` is on its way. -/
theorem Inv.relay {s : Discovery ι} {i : ι} {left : Set ι} (hInv : Inv s)
    (hJoined : i ∈ s.joined) (hLeft : ∀ j, j ≠ i → (j ∈ left ↔ j ∈ s.announcing)) :
    Inv { s with
      announcing := left
      heard := insert i s.heard
      toward := fun a b => s.toward a b ∨ (b = i ∧ a ∈ s.joined) } where
  heard_joined j hj := by
    rcases Set.mem_insert_iff.mp hj with rfl | hj
    · exact hJoined
    · exact hInv.heard_joined j hj
  known_heard a b h := Set.mem_insert_of_mem _ (hInv.known_heard a b h)
  toward_heard a b h := by
    rcases h with h | ⟨rfl, -⟩
    · exact Set.mem_insert_of_mem _ (hInv.toward_heard a b h)
    · exact Set.mem_insert _ _
  answered a b ha hb hKnown := by
    by_cases hai : a = i
    · exact Or.inr (Or.inl (Or.inr ⟨hai, hb⟩))
    · rcases hInv.answered a b (Set.mem_of_mem_insert_of_ne ha hai) hb hKnown with h | h | h
      · exact Or.inl h
      · exact Or.inr (Or.inl (Or.inl h))
      · exact Or.inr (Or.inr ((hLeft a hai).mpr h))
  met a b ha hb := by
    -- whoever is heard last is told to the other, who has joined
    rcases Set.mem_insert_iff.mp hb with hbi | hbOld
    · rcases Set.mem_insert_iff.mp ha with hai | haOld
      · exact Or.inr (Or.inl (Or.inr ⟨hbi, hai ▸ hJoined⟩))
      · exact Or.inr (Or.inl (Or.inr ⟨hbi, hInv.heard_joined a haOld⟩))
    · rcases Set.mem_insert_iff.mp ha with hai | haOld
      · exact Or.inr (Or.inr (Or.inr (Or.inr ⟨hai, hInv.heard_joined b hbOld⟩)))
      · rcases hInv.met a b haOld hbOld with h | h | h | h
        · exact Or.inl h
        · exact Or.inr (Or.inl (Or.inl h))
        · exact Or.inr (Or.inr (Or.inl h))
        · exact Or.inr (Or.inr (Or.inr (Or.inl h)))

/-- What was under way to `i` is now known to `i`, and a new acquaintance is
answered. -/
theorem Inv.learn {s : Discovery ι} {i j : ι} {left : ι → ι → Prop} {announcing : Set ι}
    (hInv : Inv s) (hToward : s.toward i j) (hLeft : ∀ a b, left a b → s.toward a b)
    (hOther : ∀ a b, s.toward a b → (a = i ∧ b = j) ∨ left a b)
    (hMore : s.announcing ⊆ announcing)
    (hReply : ¬ s.known i j → i ∈ s.heard → i ∈ announcing) :
    Inv { s with
      announcing := announcing
      known := fun a b => s.known a b ∨ (a = i ∧ b = j)
      toward := left } where
  heard_joined := hInv.heard_joined
  known_heard a b h := by
    rcases h with h | ⟨-, rfl⟩
    · exact hInv.known_heard a b h
    · exact hInv.toward_heard i b hToward
  toward_heard a b h := hInv.toward_heard a b (hLeft a b h)
  answered a b ha hb hKnown := by
    by_cases hOld : s.known a b
    · rcases hInv.answered a b ha hb hOld with h | h | h
      · exact Or.inl (Or.inl h)
      · rcases hOther b a h with h | h
        · exact Or.inl (Or.inr h)
        · exact Or.inr (Or.inl h)
      · exact Or.inr (Or.inr (hMore h))
    · rcases hKnown with h | ⟨rfl, rfl⟩
      · exact absurd h hOld
      · exact Or.inr (Or.inr (hReply hOld ha))
  met a b ha hb := by
    rcases hInv.met a b ha hb with h | h | h | h
    · exact Or.inl (Or.inl h)
    · rcases hOther a b h with h | h
      · exact Or.inl (Or.inr h)
      · exact Or.inr (Or.inl h)
    · exact Or.inr (Or.inr (Or.inl (Or.inl h)))
    · rcases hOther b a h with h | h
      · exact Or.inr (Or.inr (Or.inl (Or.inr h)))
      · exact Or.inr (Or.inr (Or.inr h))

theorem Inv.step {s s' : Discovery ι} (hInv : Inv s) (h : Step s s') : Inv s' := by
  cases h with
  | join hNew => exact hInv.join hNew
  | announce => exact hInv.announce
  | relay hJoined hLeft => exact hInv.relay hJoined hLeft
  | learn hToward hLeft hOther hMore hReply =>
    exact hInv.learn hToward hLeft hOther hMore hReply

/-- **Full mesh.** When no announcement is under way, any two parties the relay
has heard of know each other. -/
theorem Inv.full_mesh {s : Discovery ι} (hInv : Inv s)
    (hQuiet : ∀ i j, ¬ s.toward i j) (hSilent : ∀ i, i ∉ s.announcing)
    {a b : ι} (ha : a ∈ s.heard) (hb : b ∈ s.heard) : s.known a b := by
  rcases hInv.met a b ha hb with h | h | h | h
  · exact h
  · exact absurd h (hQuiet a b)
  · rcases hInv.answered b a hb (hInv.heard_joined a ha) h with h | h | h
    · exact h
    · exact absurd h (hQuiet a b)
    · exact absurd h (hSilent b)
  · exact absurd h (hQuiet b a)

end Discovery

end ZmqBridge.Lib
