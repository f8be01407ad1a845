import Mathlib

/-!
# Runs of a guarded step function

A transition system is a partial step function `step : σ → α → Option σ`: an
action that is not enabled in a state has no successor there. Every choice the
environment makes (which call fails, which message is lost) is part of the
action, so a run is determined by its list of actions and every interleaving is
one such list.

* `run`                  — execute a list of actions from a state;
* `run_induction`        — the rule behind every invariant: what holds of the
  empty run and is kept by one more step holds of every run, where the step may
  look at the actions taken so far;
* `run_invariant`        — the special case of a predicate on states;
* `run_together`         — interleaved runs of systems that share nothing;
* `StepsMeet`            — every step of a run meets a condition on the state
  before it, with run induction relativised to such runs; `meetsAll` checks it;
* `run_length_le`        — runs that take something from a measure are finite;
* `along_iff_stepsMeet`  — a property holds in every state of a run exactly when
  every step meets a condition.
-/

namespace ZmqBridge.Lib

variable {σ α : Type*} {step : σ → α → Option σ}

/-- Execute the actions in order; `none` as soon as one is not enabled. -/
def run (step : σ → α → Option σ) : σ → List α → Option σ
  | s, [] => some s
  | s, a :: as => (step s a).bind fun s' => run step s' as

@[simp] theorem run_nil (s : σ) : run step s [] = some s := rfl

theorem run_cons {s : σ} {a : α} {as : List α} :
    run step s (a :: as) = (step s a).bind fun s' => run step s' as := rfl

theorem run_append {s : σ} {as bs : List α} :
    run step s (as ++ bs) = (run step s as).bind fun s' => run step s' bs := by
  induction as generalizing s with
  | nil => rfl
  | cons a as ih =>
    rw [List.cons_append, run_cons, run_cons]
    cases step s a with
    | none => rfl
    | some s' => exact ih

/-- A run of `as ++ bs` passes through a state reached by `as`. -/
theorem run_append_some {s t : σ} {as bs : List α}
    (h : run step s (as ++ bs) = some t) :
    ∃ u, run step s as = some u ∧ run step u bs = some t := by
  rw [run_append] at h
  exact Option.bind_eq_some_iff.mp h

theorem run_snoc {s : σ} {as : List α} {a : α} :
    run step s (as ++ [a]) = (run step s as).bind fun s' => step s' a := by
  rw [run_append]
  congr 1
  funext s'
  rw [run_cons]
  cases step s' a <;> rfl

/-- One more step of a run, taken apart. -/
theorem run_snoc_some {s t : σ} {as : List α} {a : α}
    (h : run step s (as ++ [a]) = some t) :
    ∃ u, run step s as = some u ∧ step u a = some t := by
  rw [run_snoc] at h
  exact Option.bind_eq_some_iff.mp h

theorem run_snoc_of {s u t : σ} {as : List α} {a : α}
    (h : run step s as = some u) (ha : step u a = some t) :
    run step s (as ++ [a]) = some t := by
  rw [run_snoc, h]
  exact ha

/-- A step in the middle of a run. -/
theorem run_append_cons_some {s t : σ} {as bs : List α} {a : α}
    (h : run step s (as ++ a :: bs) = some t) :
    ∃ u u', run step s as = some u ∧ step u a = some u' ∧ run step u' bs = some t := by
  obtain ⟨u, hu, hRest⟩ := run_append_some h
  obtain ⟨u', ha, hBs⟩ := Option.bind_eq_some_iff.mp (run_cons ▸ hRest)
  exact ⟨u, u', hu, ha, hBs⟩

/-- A run on given actions, evaluated. -/
theorem exists_run {p : σ → Prop} [DecidablePred p] {s : σ} {as : List α}
    (h : (run step s as).any (fun t => decide (p t)) = true) :
    ∃ t, run step s as = some t ∧ p t := by
  cases hRun : run step s as with
  | none =>
    rw [hRun] at h
    exact absurd h Bool.false_ne_true
  | some t =>
    rw [hRun] at h
    exact ⟨t, rfl, of_decide_eq_true h⟩

/-- **Run induction.** The predicate may mention the actions taken so far, so
it can say when something happened, not only that it did. -/
theorem run_induction {s₀ : σ} {P : List α → σ → Prop}
    (hInit : P [] s₀)
    (hStep : ∀ as s a s', run step s₀ as = some s → P as s →
      step s a = some s' → P (as ++ [a]) s') :
    ∀ {as : List α} {s : σ}, run step s₀ as = some s → P as s := by
  intro as
  induction as using List.reverseRecOn with
  | nil =>
    intro s h
    rw [run_nil] at h
    exact Option.some.inj h ▸ hInit
  | append_singleton as a ih =>
    intro s h
    obtain ⟨u, hu, ha⟩ := run_snoc_some h
    exact hStep as u a s hu (ih hu) ha

/-- A predicate on states kept by every step holds along every run. -/
theorem run_invariant {J : σ → Prop}
    (hStep : ∀ s a s', J s → step s a = some s' → J s')
    {s₀ s : σ} {as : List α} (hInit : J s₀) (h : run step s₀ as = some s) :
    J s :=
  run_induction (P := fun _ s => J s) hInit
    (fun _ s a s' _ hs ha => hStep s a s' hs ha) h

/-- A relation kept by every step relates the ends of every run. -/
theorem run_relation {R : σ → σ → Prop} (hRefl : ∀ s, R s s)
    (hTrans : ∀ s t u, R s t → R t u → R s u)
    (hStep : ∀ s a s', step s a = some s' → R s s')
    {s₀ s : σ} {as : List α} (h : run step s₀ as = some s) : R s₀ s :=
  run_induction (P := fun _ s => R s₀ s) (hRefl s₀)
    (fun _ s a s' _ hs ha => hTrans s₀ s s' hs (hStep s a s' ha)) h

-- ---------------------------------------------------------------------------
-- Independent systems side by side
-- ---------------------------------------------------------------------------

/-- One step of one of several systems that share nothing. -/
def together {ι : Type*} [DecidableEq ι] (step : ι → σ → α → Option σ) (s : ι → σ)
    (a : ι × α) : Option (ι → σ) :=
  (step a.1 (s a.1) a.2).map (Function.update s a.1)

/-- The actions of system `i`. -/
def actionsOf {ι : Type*} [DecidableEq ι] (i : ι) (as : List (ι × α)) : List α :=
  (as.filter (·.1 = i)).map Prod.snd

/-- In an interleaved run every system makes a run of its own. -/
theorem run_together {ι : Type*} [DecidableEq ι] {step : ι → σ → α → Option σ}
    {s t : ι → σ} {as : List (ι × α)} (h : run (together step) s as = some t) (i : ι) :
    run (step i) (s i) (actionsOf i as) = some (t i) := by
  refine run_induction (P := fun as t => run (step i) (s i) (actionsOf i as) = some (t i))
    rfl ?_ h
  rintro as t ⟨j, a⟩ t' - ih ha
  obtain ⟨u, hu, rfl⟩ := Option.map_eq_some_iff.mp ha
  by_cases hj : j = i
  · subst hj
    have hActs : actionsOf j (as ++ [(j, a)]) = actionsOf j as ++ [a] := by
      simp [actionsOf]
    rw [hActs, Function.update_self]
    exact run_snoc_of ih hu
  · have hActs : actionsOf i (as ++ [(j, a)]) = actionsOf i as := by
      simp [actionsOf, hj]
    rw [hActs, Function.update_of_ne (Ne.symm hj)]
    exact ih

-- ---------------------------------------------------------------------------
-- Runs whose steps meet a condition
-- ---------------------------------------------------------------------------

/-- Every step of the run `as` from `s₀` is taken in a state that meets `ok`
together with the action. -/
def StepsMeet (step : σ → α → Option σ) (ok : σ → α → Prop) (s₀ : σ)
    (as : List α) : Prop :=
  ∀ pre a post s, as = pre ++ a :: post → run step s₀ pre = some s → ok s a

theorem StepsMeet.init {ok : σ → α → Prop} {s₀ : σ} {as bs : List α}
    (h : StepsMeet step ok s₀ (as ++ bs)) : StepsMeet step ok s₀ as := by
  intro pre a post s hEq hRun
  exact h pre a (post ++ bs) s (by rw [hEq]; simp) hRun

theorem StepsMeet.last {ok : σ → α → Prop} {s₀ s : σ} {as : List α} {a : α}
    (h : StepsMeet step ok s₀ (as ++ [a])) (hRun : run step s₀ as = some s) :
    ok s a :=
  h as a [] s rfl hRun

/-- Run induction over the runs whose steps all meet `ok`. -/
theorem run_induction_meet {ok : σ → α → Prop} {s₀ : σ} {P : List α → σ → Prop}
    (hInit : P [] s₀)
    (hStep : ∀ as s a s', run step s₀ as = some s → P as s → ok s a →
      step s a = some s' → P (as ++ [a]) s') :
    ∀ {as : List α} {s : σ}, run step s₀ as = some s →
      StepsMeet step ok s₀ as → P as s := by
  intro as s h
  refine run_induction (P := fun as s => StepsMeet step ok s₀ as → P as s)
    (fun _ => hInit) ?_ h
  intro as s a s' hRun ih ha hMeet
  exact hStep as s a s' hRun (ih hMeet.init) (hMeet.last hRun) ha

theorem stepsMeet_snoc {ok : σ → α → Prop} {s₀ s : σ} {as : List α} {a : α}
    (hRun : run step s₀ as = some s) :
    StepsMeet step ok s₀ (as ++ [a]) ↔ StepsMeet step ok s₀ as ∧ ok s a := by
  refine ⟨fun h => ⟨h.init, h.last hRun⟩, ?_⟩
  rintro ⟨hAs, ha⟩ pre b post t hEq hPre
  rcases List.eq_nil_or_concat post with rfl | ⟨post', c, rfl⟩
  · obtain ⟨rfl, hab⟩ := List.append_inj' hEq rfl
    cases hab
    rw [hRun] at hPre
    exact Option.some.inj hPre ▸ ha
  · rw [List.concat_eq_append, ← List.cons_append, ← List.append_assoc] at hEq
    obtain ⟨rfl, -⟩ := List.append_inj' hEq rfl
    exact hAs pre b post' t rfl hPre

theorem stepsMeet_nil {ok : σ → α → Prop} {s₀ : σ} : StepsMeet step ok s₀ [] := by
  intro pre a post s hEq
  simp at hEq

theorem stepsMeet_cons {ok : σ → α → Prop} {s s' : σ} {a : α} {as : List α}
    (hStep : step s a = some s') (ha : ok s a) (hAs : StepsMeet step ok s' as) :
    StepsMeet step ok s (a :: as) := by
  intro pre b post t hEq hPre
  cases pre with
  | nil =>
    cases hEq
    rw [run_nil] at hPre
    exact Option.some.inj hPre ▸ ha
  | cons c pre =>
    cases hEq
    rw [run_cons, hStep] at hPre
    exact hAs pre b post t rfl hPre

/-- Check the condition at every step of a run. -/
def meetsAll (step : σ → α → Option σ) (ok : σ → α → Prop) [∀ s a, Decidable (ok s a)] :
    σ → List α → Bool
  | _, [] => true
  | s, a :: as =>
    match step s a with
    | none => false
    | some s' => decide (ok s a) && meetsAll step ok s' as

theorem stepsMeet_of_meetsAll {ok : σ → α → Prop} [∀ s a, Decidable (ok s a)] {s : σ}
    {as : List α} (h : meetsAll step ok s as = true) : StepsMeet step ok s as := by
  induction as generalizing s with
  | nil => exact stepsMeet_nil
  | cons a as ih =>
    rw [meetsAll] at h
    cases hStep : step s a with
    | none =>
      rw [hStep] at h
      exact absurd h Bool.false_ne_true
    | some s' =>
      rw [hStep] at h
      obtain ⟨ha, hAs⟩ := Bool.and_eq_true_iff.mp h
      exact stepsMeet_cons hStep (of_decide_eq_true ha) (ih hAs)

/-- A run whose steps all take something from a measure is no longer than what
there is to take. -/
theorem run_length_le {ok : σ → α → Prop} {J : σ → Prop} {f : σ → Nat}
    (hStep : ∀ s a s', J s → ok s a → step s a = some s' → J s' ∧ f s' < f s)
    {s t : σ} {as : List α} (hInit : J s) (hRun : run step s as = some t)
    (hMeet : StepsMeet step ok s as) : as.length + f t ≤ f s := by
  have hLen : J t ∧ as.length + f t ≤ f s := by
    refine run_induction_meet (P := fun as t => J t ∧ as.length + f t ≤ f s) ⟨hInit, ?_⟩ ?_
      hRun hMeet
    · rw [List.length_nil, Nat.zero_add]
    · rintro as t a t' - ⟨hJ, hle⟩ hOk ha
      obtain ⟨hJ', hlt⟩ := hStep t a t' hJ hOk ha
      refine ⟨hJ', ?_⟩
      rw [List.length_append, List.length_singleton]
      omega
  exact hLen.2

/-- `P` holds in every state the run `as` from `s₀` passes through. -/
def Along (step : σ → α → Option σ) (P : σ → Prop) (s₀ : σ) (as : List α) : Prop :=
  ∀ pre post s, as = pre ++ post → run step s₀ pre = some s → P s

theorem along_snoc {P : σ → Prop} {s₀ t : σ} {as : List α} {a : α}
    (hRun : run step s₀ (as ++ [a]) = some t) :
    Along step P s₀ (as ++ [a]) ↔ Along step P s₀ as ∧ P t := by
  constructor
  · intro h
    refine ⟨fun pre post s hEq hPre => ?_, h (as ++ [a]) [] t (by simp) hRun⟩
    exact h pre (post ++ [a]) s (by rw [hEq, List.append_assoc]) hPre
  · rintro ⟨hAs, ht⟩ pre post s hEq hPre
    rcases List.eq_nil_or_concat post with rfl | ⟨post', c, rfl⟩
    · rw [List.append_nil] at hEq
      rw [← hEq, hRun] at hPre
      exact Option.some.inj hPre ▸ ht
    · rw [List.concat_eq_append, ← List.append_assoc] at hEq
      obtain ⟨rfl, -⟩ := List.append_inj' hEq rfl
      exact hAs pre post' s rfl hPre

/-- What holds of every run that meets `ok` holds all along such a run. -/
theorem along_of_stepsMeet {P : σ → Prop} {ok : σ → α → Prop} {s₀ : σ}
    (h : ∀ {as s}, run step s₀ as = some s → StepsMeet step ok s₀ as → P s)
    {as : List α} (hMeet : StepsMeet step ok s₀ as) : Along step P s₀ as := by
  rintro pre post s rfl hPre
  exact h hPre hMeet.init

/-- **Exact conditions for a property of runs.** `J` is what the induction
carries: it implies `P`, a step that meets `ok` keeps it, and a step that keeps
`P` must have met `ok`. Then `P` holds all along a run exactly when every step
of the run meets `ok`. -/
theorem along_iff_stepsMeet {P J : σ → Prop} {ok : σ → α → Prop} {s₀ : σ}
    (hInit : J s₀) (hJ : ∀ s, J s → P s)
    (hKeep : ∀ s a s', J s → ok s a → step s a = some s' → J s')
    (hNeed : ∀ s a s', J s → step s a = some s' → P s' → ok s a)
    {as : List α} {s : σ} (hRun : run step s₀ as = some s) :
    Along step P s₀ as ↔ StepsMeet step ok s₀ as := by
  suffices h : (Along step P s₀ as ↔ StepsMeet step ok s₀ as) ∧
      (StepsMeet step ok s₀ as → J s) from h.1
  refine run_induction (P := fun as s => (Along step P s₀ as ↔ StepsMeet step ok s₀ as) ∧
    (StepsMeet step ok s₀ as → J s)) ?_ ?_ hRun
  · refine ⟨⟨fun _ => stepsMeet_nil, fun _ => ?_⟩, fun _ => hInit⟩
    · intro pre post t hEq hPre
      obtain ⟨rfl, -⟩ := List.append_eq_nil_iff.mp hEq.symm
      rw [run_nil] at hPre
      exact Option.some.inj hPre ▸ hJ s₀ hInit
  · rintro as s a s' hAs ⟨hIff, hInv⟩ ha
    have hNext := run_snoc_of hAs ha
    rw [along_snoc hNext, stepsMeet_snoc hAs, hIff]
    refine ⟨⟨?_, ?_⟩, ?_⟩
    · rintro ⟨hMeet, hP⟩
      exact ⟨hMeet, hNeed s a s' (hInv hMeet) ha hP⟩
    · rintro ⟨hMeet, hOk⟩
      exact ⟨hMeet, hJ s' (hKeep s a s' (hInv hMeet) hOk ha)⟩
    · rintro ⟨hMeet, hOk⟩
      exact hKeep s a s' (hInv hMeet) hOk ha

end ZmqBridge.Lib
