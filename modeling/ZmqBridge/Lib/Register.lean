import Mathlib

/-!
# One entry of a table that is filled once and cleared

An entry takes the first value it is offered and keeps it until it is cleared.
What it holds after any history of offers and clearings is the first offer since
the last clearing, or what it held before if there was none.
-/

namespace ZmqBridge.Lib

variable {α β : Type*} {clears offers : α → Bool} {value : α → β}
  {step : Option β → α → Option β}

/-- A step of an entry: `clears a` empties it, `offers a` fills it if it is empty. -/
def Registers (clears offers : α → Bool) (value : α → β) (step : Option β → α → Option β) :
    Prop :=
  ∀ v a, step v a = if clears a then none else if offers a then v.or (some (value a)) else v

/-- The part of a history behind the last clearing. -/
def sinceClear (clears : α → Bool) (as : List α) : List α := as.rtakeWhile fun a => !clears a

theorem sinceClear_snoc_of_clears (as : List α) {a : α} (h : clears a = true) :
    sinceClear clears (as ++ [a]) = [] :=
  List.rtakeWhile_concat_neg _ _ _ (by simp [h])

theorem sinceClear_snoc_of_not (as : List α) {a : α} (h : clears a = false) :
    sinceClear clears (as ++ [a]) = sinceClear clears as ++ [a] :=
  List.rtakeWhile_concat_pos _ _ _ (by simp [h])

theorem sinceClear_eq_self {as : List α} (h : ∀ a ∈ as, clears a = false) :
    sinceClear clears as = as :=
  List.rtakeWhile_eq_self_iff.mpr fun a ha => by simp [h a ha]

/-- **The first offer since the last clearing.** -/
theorem Registers.foldl (h : Registers clears offers value step) (v : Option β)
    (as : List α) :
    as.foldl step v = (if as.any clears then none else v).or
      (((sinceClear clears as).find? offers).map value) := by
  induction as using List.reverseRecOn with
  | nil => simp [sinceClear]
  | append_singleton as a ih =>
    rw [List.foldl_concat, ih, h, List.any_append]
    cases hClears : clears a with
    | true => simp [sinceClear_snoc_of_clears as hClears, hClears]
    | false =>
      rw [sinceClear_snoc_of_not as hClears, List.find?_append, Option.map_or]
      cases hOffers : offers a <;> simp [hClears, hOffers]

/-- What an entry keeps as long as nothing clears it. -/
theorem Registers.foldl_of_kept (h : Registers clears offers value step) {v : Option β}
    {as : List α} (hKept : ∀ a ∈ as, clears a = false) :
    as.foldl step v = v.or ((as.find? offers).map value) := by
  have hAny : as.any clears = false := by simpa using hKept
  rw [h.foldl, sinceClear_eq_self hKept, hAny, if_neg Bool.false_ne_true]

end ZmqBridge.Lib
