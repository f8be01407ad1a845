import Mathlib

/-!
# Programs that stop at the first failure

A program changes a state, may stop with an error and leaves the state as it is
at that moment; it may also crash. `Attempts I P f m` says of a program exactly
when it gets through: if `P` holds it ends in the state `f s`, and if not it stops
or crashes, and in the state it is left in `I` holds.

* `attempts_check`, `attempts_demand`, `attempts_modify` — the rules for single steps;
* `Attempts.seq` — one program after another.
-/

namespace ZmqBridge.Lib

variable {σ ε φ : Type}

/-- A program over a state, with errors `ε` and crashes `φ`. -/
abbrev Attempt (σ ε φ : Type) := ExceptT ε (StateT σ (Except φ))

/-- How a program ends that starts in `s`. -/
def Attempt.outcome (m : Attempt σ ε φ Unit) (s : σ) : Except φ (Except ε Unit × σ) :=
  (ExceptT.run m).run s

/-- Stop with an error unless the test is passed. -/
def Attempt.check (ok : Bool) (error : ε) : Attempt σ ε φ Unit :=
  if ok then pure () else throw error

/-- Crash unless the test is passed. -/
def Attempt.demand (ok : Bool) (crash : φ) : Attempt σ ε φ Unit :=
  if ok then pure () else ExceptT.lift (StateT.lift (.error crash))

def Attempt.whenever (c : Prop) [Decidable c] (m : Attempt σ ε φ Unit) : Attempt σ ε φ Unit :=
  if c then m else pure ()

/-- The body for each element of a list, with its index. -/
def Attempt.each {α : Type} (body : Nat → α → Attempt σ ε φ Unit) :
    List α → Nat → Attempt σ ε φ Unit
  | [], _ => pure ()
  | a :: rest, i => do
    body i a
    Attempt.each body rest (i + 1)

/-- An outcome that is not the end of the program. -/
def StopsIn (I : σ → Prop) (out : Except φ (Except ε Unit × σ)) : Prop :=
  (∃ crash, out = .error crash) ∨ ∃ error s, out = .ok (.error error, s) ∧ I s

/-- **When a program gets through, and what it leaves behind if not.** -/
structure Attempts (I : σ → Prop) (P : Prop) (f : σ → σ) (m : Attempt σ ε φ Unit) : Prop where
  succeeds : P → ∀ s, m.outcome s = .ok (.ok (), f s)
  keeps : ∀ s, I s → I (f s)
  fails : ¬ P → ∀ s, I s → StopsIn I (m.outcome s)

variable {I : σ → Prop} {P Q : Prop} {f g : σ → σ} {m n : Attempt σ ε φ Unit}

theorem Attempts.congr (h : Attempts I P f m) (hP : P ↔ Q) : Attempts I Q f m :=
  ⟨fun hQ => h.succeeds (hP.mpr hQ), h.keeps, fun hQ => h.fails fun p => hQ (hP.mp p)⟩

/-- The same program, with its condition and its effect said in another way. -/
theorem Attempts.cast (h : Attempts I P f m) (hP : P ↔ Q) (hf : ∀ s, f s = g s) :
    Attempts I Q g m := by
  have hEq : f = g := funext hf
  exact hEq ▸ h.congr hP

-- ---------------------------------------------------------------------------
-- Single steps
-- ---------------------------------------------------------------------------

theorem attempts_pure : Attempts I True id (pure () : Attempt σ ε φ Unit) :=
  ⟨fun _ _ => rfl, fun _ h => h, fun h => absurd trivial h⟩

theorem attempts_modify (h : ∀ s, I s → I (f s)) :
    Attempts I True f (modify f : Attempt σ ε φ Unit) :=
  ⟨fun _ _ => rfl, h, fun h => absurd trivial h⟩

theorem attempts_check (ok : Bool) (error : ε) :
    Attempts I (ok = true) id (Attempt.check ok error : Attempt σ ε φ Unit) := by
  cases ok with
  | true => exact attempts_pure.congr (by simp)
  | false =>
    refine ⟨fun h => (by cases h), fun _ h => h, fun _ s hs => ?_⟩
    exact Or.inr ⟨error, s, rfl, hs⟩

theorem attempts_demand (ok : Bool) (crash : φ) :
    Attempts I (ok = true) id (Attempt.demand ok crash : Attempt σ ε φ Unit) := by
  cases ok with
  | true => exact attempts_pure.congr (by simp)
  | false => exact ⟨fun h => (by cases h), fun _ h => h, fun _ s _ => Or.inl ⟨crash, rfl⟩⟩

-- ---------------------------------------------------------------------------
-- Composed programs
-- ---------------------------------------------------------------------------

theorem Attempt.outcome_seq_of_ok {s s' : σ} (h : m.outcome s = .ok (.ok (), s')) :
    Attempt.outcome (m >>= fun _ => n) s = n.outcome s' := by
  have hRun : m s = .ok (.ok (), s') := h
  show Except.bind (m s) _ = _
  rw [hRun]
  rfl

theorem Attempt.outcome_seq_of_error {s s' : σ} {error : ε}
    (h : m.outcome s = .ok (.error error, s')) :
    Attempt.outcome (m >>= fun _ => n) s = .ok (.error error, s') := by
  have hRun : m s = .ok (.error error, s') := h
  show Except.bind (m s) _ = _
  rw [hRun]
  rfl

theorem Attempt.outcome_seq_of_crash {s : σ} {crash : φ} (h : m.outcome s = .error crash) :
    Attempt.outcome (m >>= fun _ => n) s = .error crash := by
  have hRun : m s = .error crash := h
  show Except.bind (m s) _ = _
  rw [hRun]
  rfl

theorem StopsIn.seq {s : σ} (h : StopsIn I (m.outcome s)) :
    StopsIn I (Attempt.outcome (m >>= fun _ => n) s) := by
  obtain ⟨crash, hOut⟩ | ⟨error, s', hOut, hI⟩ := h
  · exact Or.inl ⟨crash, Attempt.outcome_seq_of_crash hOut⟩
  · exact Or.inr ⟨error, s', Attempt.outcome_seq_of_error hOut, hI⟩

/-- One program after another. -/
theorem Attempts.seq (hm : Attempts I P f m) (hn : Attempts I Q g n) :
    Attempts I (P ∧ Q) (g ∘ f) (m >>= fun _ => n) := by
  refine ⟨?_, fun s hs => hn.keeps _ (hm.keeps s hs), ?_⟩
  · rintro ⟨hP, hQ⟩ s
    rw [Attempt.outcome_seq_of_ok (hm.succeeds hP s)]
    exact hn.succeeds hQ (f s)
  · intro hNot s hs
    by_cases hP : P
    · rw [Attempt.outcome_seq_of_ok (hm.succeeds hP s)]
      exact hn.fails (fun hQ => hNot ⟨hP, hQ⟩) (f s) (hm.keeps s hs)
    · exact (hm.fails hP s hs).seq

-- ---------------------------------------------------------------------------
-- Programs that do not crash
-- ---------------------------------------------------------------------------

def Attempt.Safe (m : Attempt σ ε φ Unit) : Prop := ∀ s crash, m.outcome s ≠ .error crash

theorem safe_check (ok : Bool) (error : ε) :
    Attempt.Safe (Attempt.check ok error : Attempt σ ε φ Unit) := by
  intro s crash h
  cases ok <;> cases h

theorem Attempt.Safe.seq (hm : m.Safe) (hn : n.Safe) :
    Attempt.Safe (m >>= fun _ => n) := by
  intro s crash h
  cases hOut : m.outcome s with
  | error c => exact hm s c hOut
  | ok r =>
    obtain ⟨result, s'⟩ := r
    cases result with
    | ok u =>
      rw [Attempt.outcome_seq_of_ok hOut] at h
      exact hn s' crash h
    | error e =>
      rw [Attempt.outcome_seq_of_error hOut] at h
      cases h

/-- A program that does not crash stops with an error if it does not get through. -/
theorem Attempts.stops (h : Attempts I P f m) (hSafe : m.Safe) (hP : ¬ P) {s : σ} (hs : I s) :
    ∃ error s', m.outcome s = .ok (.error error, s') ∧ I s' := by
  obtain ⟨crash, hCrash⟩ | hError := h.fails hP s hs
  · exact absurd hCrash (hSafe s crash)
  · exact hError

end ZmqBridge.Lib
