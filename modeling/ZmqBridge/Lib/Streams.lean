import ZmqBridge.Lib.Run

/-!
# Interleaved copies of streams

Several carriers forward the same messages, each in an order of its own that
keeps the order within every stream. The receiver handles one interleaving of what
the carriers forward.

* `foldl_view`          — a view of the receiver that only some messages change is
  the result of those messages alone;
* `Copies.head?_eq`     — the first message of a stream to arrive is the first of
  the stream;
* `Copies.getLast?_eq`  — the last one to arrive is the last of the stream.
-/

namespace ZmqBridge.Lib

variable {π σ τ α : Type*}

/-- A view that follows the messages of one stream and ignores all others. -/
theorem foldl_view {f : σ → α → σ} {v : σ → τ} {P : α → Bool} {g : τ → α → τ}
    {l : List α} (hIn : ∀ s, ∀ a ∈ l, P a = true → v (f s a) = g (v s) a)
    (hOut : ∀ s, ∀ a ∈ l, P a = false → v (f s a) = v s) (s : σ) :
    v (l.foldl f s) = (l.filter P).foldl g (v s) := by
  induction l generalizing s with
  | nil => rfl
  | cons a l ih =>
    have hRest := ih (fun s b hb => hIn s b (List.mem_cons_of_mem a hb))
      (fun s b hb => hOut s b (List.mem_cons_of_mem a hb)) (f s a)
    rw [List.foldl_cons, hRest]
    cases hP : P a with
    | true =>
      rw [List.filter_cons_of_pos hP, List.foldl_cons, hIn s a List.mem_cons_self hP]
    | false =>
      rw [List.filter_cons_of_neg (by simp [hP]), hOut s a List.mem_cons_self hP]

variable [DecidableEq π]

/-- Every carrier forwards the stream `base`, the messages that meet `P`. -/
def Copies (P : α → Bool) (base : List α) (l : List (π × α)) : Prop :=
  ∀ p, (actionsOf p l).filter P = base

section Copies

variable {P : α → Bool} {base : List α} {l : List (π × α)}

theorem mem_actionsOf {p : π} {a : α} : a ∈ actionsOf p l ↔ (p, a) ∈ l := by
  simp [actionsOf]

theorem actionsOf_append (p : π) (l l' : List (π × α)) :
    actionsOf p (l ++ l') = actionsOf p l ++ actionsOf p l' := by
  simp [actionsOf]

theorem Copies.mem_iff [Nonempty π] (h : Copies P base l) {a : α} :
    a ∈ (l.map Prod.snd).filter P ↔ a ∈ base := by
  constructor
  · intro ha
    obtain ⟨hMem, hP⟩ := List.mem_filter.mp ha
    obtain ⟨⟨p, b⟩, hb, rfl⟩ := List.mem_map.mp hMem
    rw [← h p]
    exact List.mem_filter.mpr ⟨mem_actionsOf.mpr hb, hP⟩
  · intro ha
    obtain ⟨p⟩ := ‹Nonempty π›
    rw [← h p] at ha
    obtain ⟨hMem, hP⟩ := List.mem_filter.mp ha
    exact List.mem_filter.mpr ⟨List.mem_map.mpr ⟨(p, a), mem_actionsOf.mp hMem, rfl⟩, hP⟩

theorem Copies.reverse (h : Copies P base l) : Copies P base.reverse l.reverse := by
  intro p
  rw [actionsOf, List.filter_reverse, List.map_reverse, List.filter_reverse, ← h p]
  rfl

/-- **First come.** What arrives first of a stream is what was sent first. -/
theorem Copies.head?_eq [Nonempty π] (h : Copies P base l) :
    ((l.map Prod.snd).filter P).head? = base.head? := by
  cases hArrived : (l.map Prod.snd).filter P with
  | nil =>
    cases base with
    | nil => rfl
    | cons a base =>
      have ha := h.mem_iff.mpr List.mem_cons_self
      rw [hArrived] at ha
      cases ha
  | cons a rest =>
    -- the carrier that brought it had nothing of the stream before
    rw [List.filter_map, List.map_eq_cons_iff] at hArrived
    obtain ⟨⟨p, b⟩, rest', hFiltered, rfl, -⟩ := hArrived
    obtain ⟨before, after, rfl, hBefore, hb, -⟩ := List.filter_eq_cons_iff.mp hFiltered
    have hNone : (actionsOf p before).filter P = [] := by
      rw [List.filter_eq_nil_iff]
      intro c hc
      exact hBefore (p, c) (mem_actionsOf.mp hc)
    have hFirst : actionsOf p ((p, b) :: after) = b :: actionsOf p after := by
      simp [actionsOf]
    rw [← h p, actionsOf_append, List.filter_append, hNone, hFirst, List.nil_append,
      List.filter_cons_of_pos (show P b = true from hb)]
    rfl

/-- **Last gone.** What arrives last of a stream is what was sent last. -/
theorem Copies.getLast?_eq [Nonempty π] (h : Copies P base l) :
    ((l.map Prod.snd).filter P).getLast? = base.getLast? := by
  rw [List.getLast?_eq_head?_reverse, List.getLast?_eq_head?_reverse, ← h.reverse.head?_eq,
    List.map_reverse, List.filter_reverse]

end Copies

end ZmqBridge.Lib
