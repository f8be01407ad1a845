import ZmqBridge.Lib.Run

/-!
# Delivery through queues

Endpoints are created, muted and closed while messages arrive for them. An
arrival puts one letter for each of its targets into the target's queue; a
letter is handed over when its queue gets to it, and only if the target is then
still live and not muted and wants it. Queues are first in, first out.

* `Mailbox.Step`               — what can happen;
* `Mailbox.Inv`                — letters wait at home, and what was handed to an
  endpoint followed by what waits for it is in arrival order;
* `Mailbox.call_origin`        — every call goes back to an arrival at which its
  endpoint was live, and is made while the endpoint is live and not muted;
* `Mailbox.delivered_once`     — a letter whose target stays is handed over
  exactly once.

The last two are about runs of any system whose steps are steps of a mailbox
under an abstraction (`Simulates`).
-/

namespace ZmqBridge.Lib

/-- A message that waits for an endpoint: the number of its arrival, and
whether the endpoint takes it. -/
structure Letter (ε : Type*) where
  target : ε
  arrival : Nat
  wanted : Bool

@[ext]
structure Mailbox (ε κ : Type*) where
  known : Set ε
  live : Set ε
  unmuted : Set ε
  home : ε → Option κ
  queues : κ → List (Letter ε)
  calls : List (ε × Nat)
  arrived : Nat

namespace Mailbox

variable {ε κ : Type*}

open Classical in
/-- The letters an arrival puts into queue `q`. -/
noncomputable def posted (s : Mailbox ε κ) (targets : List (ε × Bool)) (q : κ) :
    List (Letter ε) :=
  (targets.filter fun t => s.home t.1 = some q).map fun t => ⟨t.1, s.arrived, t.2⟩

/-- The letter is handed over if its queue gets to it now. -/
def Takes (s : Mailbox ε κ) (l : Letter ε) : Prop :=
  l.target ∈ s.live ∧ l.target ∈ s.unmuted ∧ l.wanted = true

/-- One step. What an arrival and the work on a queue do is spelled out on the
resulting queues, so that a concrete system can meet it pointwise. -/
inductive Step : Mailbox ε κ → Mailbox ε κ → Prop
  | create {s : Mailbox ε κ} {e : ε} {home : ε → Option κ} (hNew : e ∉ s.known)
      (hHome : ∀ e', e' ≠ e → home e' = s.home e') :
      Step s { s with
        known := insert e s.known
        live := insert e s.live
        unmuted := insert e s.unmuted
        home := home }
  | withdraw {s : Mailbox ε κ} {live unmuted : Set ε} (hLive : live ⊆ s.live)
      (hUnmuted : unmuted ⊆ s.unmuted) :
      Step s { s with live := live, unmuted := unmuted }
  | arrive {s : Mailbox ε κ} {targets : List (ε × Bool)} {queues : κ → List (Letter ε)}
      (hNodup : (targets.map Prod.fst).Nodup) (hLive : ∀ t ∈ targets, t.1 ∈ s.live)
      (hQueues : ∀ q, queues q = s.queues q ++ s.posted targets q) :
      Step s { s with queues := queues, arrived := s.arrived + 1 }
  | work {s : Mailbox ε κ} {q : κ} {l : Letter ε} {rest : List (Letter ε)}
      {queues : κ → List (Letter ε)} {calls : List (ε × Nat)} (hHead : s.queues q = l :: rest)
      (hRest : queues q = rest) (hOther : ∀ q', q' ≠ q → queues q' = s.queues q')
      (hTakes : s.Takes l → calls = s.calls ++ [(l.target, l.arrival)])
      (hLeaves : ¬ s.Takes l → calls = s.calls) :
      Step s { s with queues := queues, calls := calls }
  | idle {s : Mailbox ε κ} : Step s s

/-- No endpoints, nothing arrived. -/
def Empty (s : Mailbox ε κ) : Prop :=
  s.live = ∅ ∧ (∀ q, s.queues q = []) ∧ s.calls = []

-- ---------------------------------------------------------------------------
-- What one endpoint sees
-- ---------------------------------------------------------------------------

open Classical in
/-- The arrivals handed to `e` so far, in the order of the calls. -/
noncomputable def handed (s : Mailbox ε κ) (e : ε) : List Nat :=
  (s.calls.filter fun c => c.1 = e).map Prod.snd

open Classical in
/-- The arrivals in a queue that are for `e`. -/
noncomputable def lettersFor (e : ε) (queue : List (Letter ε)) : List Nat :=
  (queue.filter fun l => l.target = e).map Letter.arrival

/-- The arrivals waiting for `e`, in the order of its queue. -/
noncomputable def waiting (s : Mailbox ε κ) (e : ε) : List Nat :=
  (s.home e).elim [] fun q => lettersFor e (s.queues q)

theorem waiting_some {s : Mailbox ε κ} {e : ε} {q : κ} (h : s.home e = some q) :
    s.waiting e = lettersFor e (s.queues q) := by
  rw [waiting, h]
  rfl

theorem waiting_none {s : Mailbox ε κ} {e : ε} (h : s.home e = none) :
    s.waiting e = [] := by
  rw [waiting, h]
  rfl

theorem mem_lettersFor {e : ε} {queue : List (Letter ε)} {k : Nat} :
    k ∈ lettersFor e queue ↔ ∃ l ∈ queue, l.target = e ∧ l.arrival = k := by
  simp [lettersFor, and_assoc]

open Classical in
theorem lettersFor_cons {e : ε} {l : Letter ε} {queue : List (Letter ε)} :
    lettersFor e (l :: queue) =
      (if l.target = e then [l.arrival] else []) ++ lettersFor e queue := by
  unfold lettersFor
  by_cases he : l.target = e <;> simp [he]

theorem mem_handed {s : Mailbox ε κ} {e : ε} {k : Nat} :
    k ∈ s.handed e ↔ (e, k) ∈ s.calls := by
  simp [handed]

structure Inv (s : Mailbox ε κ) : Prop where
  live_known : s.live ⊆ s.known
  letter : ∀ q, ∀ l ∈ s.queues q,
    l.target ∈ s.known ∧ s.home l.target = some q ∧ l.arrival < s.arrived
  call : ∀ c ∈ s.calls, c.1 ∈ s.known ∧ c.2 < s.arrived
  order : ∀ e, (s.handed e ++ s.waiting e).Pairwise (· < ·)

theorem inv_of_empty {s : Mailbox ε κ} (h : s.Empty) : Inv s where
  live_known := by
    rw [h.1]
    exact Set.empty_subset _
  letter q l hl := by
    rw [h.2.1 q] at hl
    exact absurd hl List.not_mem_nil
  call c hc := by
    rw [h.2.2] at hc
    exact absurd hc List.not_mem_nil
  order e := by
    have hHanded : s.handed e = [] := by simp [handed, h.2.2]
    have hWaiting : s.waiting e = [] := by
      cases hHome : s.home e with
      | none => exact waiting_none hHome
      | some q => rw [waiting_some hHome, h.2.1 q]; rfl
    rw [hHanded, hWaiting]
    exact List.Pairwise.nil

/-- A letter in a queue waits for its target. -/
theorem Inv.mem_waiting {s : Mailbox ε κ} (hInv : Inv s) {q : κ} {l : Letter ε}
    (hl : l ∈ s.queues q) : l.arrival ∈ s.waiting l.target := by
  rw [waiting_some (hInv.letter q l hl).2.1, mem_lettersFor]
  exact ⟨l, hl, rfl, rfl⟩

theorem Inv.waiting_lt {s : Mailbox ε κ} (hInv : Inv s) {e : ε} {k : Nat}
    (hk : k ∈ s.waiting e) : k < s.arrived := by
  cases hHome : s.home e with
  | none =>
    rw [waiting_none hHome] at hk
    exact absurd hk List.not_mem_nil
  | some q =>
    rw [waiting_some hHome, mem_lettersFor] at hk
    obtain ⟨l, hl, -, rfl⟩ := hk
    exact (hInv.letter q l hl).2.2

theorem Inv.handed_lt {s : Mailbox ε κ} (hInv : Inv s) {e : ε} {k : Nat}
    (hk : k ∈ s.handed e) : k < s.arrived :=
  (hInv.call (e, k) (mem_handed.mp hk)).2

/-- Nothing waits for an endpoint that was never created, and nothing was
handed to it. -/
theorem Inv.fresh {s : Mailbox ε κ} (hInv : Inv s) {e : ε} (hNew : e ∉ s.known) :
    s.handed e = [] ∧ ∀ q, ∀ l ∈ s.queues q, l.target ≠ e := by
  refine ⟨?_, fun q l hl hEq => hNew (hEq ▸ (hInv.letter q l hl).1)⟩
  rw [List.eq_nil_iff_forall_not_mem]
  intro k hk
  exact hNew (hInv.call (e, k) (mem_handed.mp hk)).1

-- ---------------------------------------------------------------------------
-- Steps keep the invariant
-- ---------------------------------------------------------------------------

theorem Inv.create {s : Mailbox ε κ} {e : ε} {home : ε → Option κ} (hInv : Inv s)
    (hNew : e ∉ s.known) (hHome : ∀ e', e' ≠ e → home e' = s.home e') :
    Inv { s with
      known := insert e s.known
      live := insert e s.live
      unmuted := insert e s.unmuted
      home := home } where
  live_known := Set.insert_subset_insert hInv.live_known
  letter q l hl := by
    obtain ⟨hKnown, hAt, hLt⟩ := hInv.letter q l hl
    have hne : l.target ≠ e := (hInv.fresh hNew).2 q l hl
    exact ⟨Set.mem_insert_of_mem _ hKnown, (hHome _ hne).trans hAt, hLt⟩
  call c hc := ⟨Set.mem_insert_of_mem _ (hInv.call c hc).1, (hInv.call c hc).2⟩
  order e' := by
    set s' : Mailbox ε κ := { s with
      known := insert e s.known, live := insert e s.live, unmuted := insert e s.unmuted,
      home := home } with hs'
    show (s.handed e' ++ s'.waiting e').Pairwise (· < ·)
    by_cases he : e' = e
    · -- a new endpoint starts with nothing, wherever its home is
      subst he
      obtain ⟨hHanded, hLetters⟩ := hInv.fresh hNew
      have hWaiting : s'.waiting e' = [] := by
        cases hAt : home e' with
        | none => exact waiting_none hAt
        | some q =>
          rw [waiting_some (s := s') hAt, List.eq_nil_iff_forall_not_mem]
          intro k hk
          obtain ⟨l, hl, ht, -⟩ := mem_lettersFor.mp hk
          exact hLetters q l hl ht
      rw [hWaiting, hHanded]
      exact List.Pairwise.nil
    · have hWaiting : s'.waiting e' = s.waiting e' := by
        show (home e').elim [] _ = _
        rw [hHome e' he]
        rfl
      rw [hWaiting]
      exact hInv.order e'

open Classical in
/-- The letters of an arrival that are for `e` come from the targets that are
`e`. -/
theorem lettersFor_posted {s : Mailbox ε κ} {targets : List (ε × Bool)} {q : κ} {e : ε}
    (hHome : s.home e = some q) :
    lettersFor e (s.posted targets q) =
      (targets.filter fun t => t.1 = e).map fun _ => s.arrived := by
  unfold posted lettersFor
  rw [List.filter_map, List.map_map, List.filter_filter]
  congr 1
  refine List.filter_congr fun t _ => ?_
  by_cases ht : t.1 = e
  · simp [ht, hHome]
  · simp [ht]

/-- An arrival adds at most one letter for an endpoint, behind all others. -/
theorem waiting_arrive {s : Mailbox ε κ} {targets : List (ε × Bool)}
    {queues : κ → List (Letter ε)} (hNodup : (targets.map Prod.fst).Nodup)
    (hQueues : ∀ q, queues q = s.queues q ++ s.posted targets q) (e : ε) :
    let s' : Mailbox ε κ := { s with queues := queues, arrived := s.arrived + 1 }
    s'.waiting e = s.waiting e ∨ s'.waiting e = s.waiting e ++ [s.arrived] := by
  classical
  intro s'
  cases hHome : s.home e with
  | none => exact Or.inl ((waiting_none (s := s') hHome).trans (waiting_none hHome).symm)
  | some q =>
    have hSplit : s'.waiting e = s.waiting e ++ lettersFor e (s.posted targets q) := by
      rw [waiting_some (s := s') hHome, waiting_some hHome]
      show lettersFor e (queues q) = _
      rw [hQueues q]
      simp [lettersFor]
    have hOne : (targets.filter fun t => t.1 = e).length ≤ 1 := by
      have hCount := List.nodup_iff_count_le_one.mp hNodup e
      rw [List.count, List.countP_map, List.countP_eq_length_filter] at hCount
      have hSame : (targets.filter fun t => decide (t.1 = e)) =
          targets.filter ((fun x => x == e) ∘ Prod.fst) :=
        List.filter_congr fun t _ => by simp [Bool.beq_eq_decide_eq]
      rw [hSame]
      exact hCount
    rw [hSplit, lettersFor_posted hHome]
    generalize (targets.filter fun t => decide (t.1 = e)) = mine at hOne ⊢
    match mine, hOne with
    | [], _ => exact Or.inl (by simp)
    | [t], _ => exact Or.inr (by simp)
    | t :: t' :: ts, hOne => simp at hOne

theorem Inv.arrive {s : Mailbox ε κ} {targets : List (ε × Bool)}
    {queues : κ → List (Letter ε)} (hInv : Inv s) (hNodup : (targets.map Prod.fst).Nodup)
    (hLive : ∀ t ∈ targets, t.1 ∈ s.live)
    (hQueues : ∀ q, queues q = s.queues q ++ s.posted targets q) :
    Inv { s with queues := queues, arrived := s.arrived + 1 } where
  live_known := hInv.live_known
  letter q l hl := by
    have hl' : l ∈ s.queues q ++ s.posted targets q := hQueues q ▸ hl
    rcases List.mem_append.mp hl' with hOld | hNew
    · obtain ⟨hKnown, hAt, hLt⟩ := hInv.letter q l hOld
      exact ⟨hKnown, hAt, Nat.lt_succ_of_lt hLt⟩
    · simp only [posted, List.mem_map, List.mem_filter, decide_eq_true_eq] at hNew
      obtain ⟨t, ⟨ht, hAt⟩, rfl⟩ := hNew
      exact ⟨hInv.live_known (hLive t ht), hAt, Nat.lt_succ_self _⟩
  call c hc := ⟨(hInv.call c hc).1, Nat.lt_succ_of_lt (hInv.call c hc).2⟩
  order e := by
    have hOrder := hInv.order e
    show (s.handed e ++ waiting { s with queues := queues, arrived := s.arrived + 1 } e).Pairwise
      (· < ·)
    rcases waiting_arrive hNodup hQueues e with h | h
    · rw [h]
      exact hOrder
    · rw [h, ← List.append_assoc, List.pairwise_append]
      refine ⟨hOrder, List.pairwise_singleton _ _, ?_⟩
      intro k hk k' hk'
      rw [List.mem_singleton.mp hk']
      rcases List.mem_append.mp hk with hk | hk
      · exact hInv.handed_lt hk
      · exact hInv.waiting_lt hk

/-- Working on a queue moves its first letter from what waits for the target to
what was handed to it, or drops it. -/
theorem order_work {s : Mailbox ε κ} {q : κ} {l : Letter ε} {rest : List (Letter ε)}
    {queues : κ → List (Letter ε)} {calls : List (ε × Nat)} (hInv : Inv s)
    (hHead : s.queues q = l :: rest) (hRest : queues q = rest)
    (hOther : ∀ q', q' ≠ q → queues q' = s.queues q')
    (hTakes : s.Takes l → calls = s.calls ++ [(l.target, l.arrival)])
    (hLeaves : ¬ s.Takes l → calls = s.calls) (e : ε) :
    let s' : Mailbox ε κ := { s with queues := queues, calls := calls }
    (s'.handed e ++ s'.waiting e).Sublist (s.handed e ++ s.waiting e) := by
  intro s'
  have hHome : s.home l.target = some q :=
    (hInv.letter q l (by rw [hHead]; exact List.mem_cons_self)).2.1
  by_cases he : l.target = e
  · have hAt : s.home e = some q := he ▸ hHome
    have hWait : s.waiting e = l.arrival :: s'.waiting e := by
      rw [waiting_some hAt, waiting_some (s := s') hAt, hHead, lettersFor_cons, if_pos he]
      show _ = l.arrival :: lettersFor e (queues q)
      rw [hRest]
      rfl
    rw [hWait]
    by_cases hTake : s.Takes l
    · have hHanded : s'.handed e = s.handed e ++ [l.arrival] := by
        simp [handed, s', hTakes hTake, List.filter_append, he]
      rw [hHanded, List.append_assoc]
      exact List.Sublist.refl _
    · have hHanded : s'.handed e = s.handed e := by
        simp [handed, s', hLeaves hTake]
      rw [hHanded]
      exact List.Sublist.append (List.Sublist.refl _) (List.sublist_cons_self _ _)
  · -- somebody else's letter
    have hWait : s'.waiting e = s.waiting e := by
      cases hAt : s.home e with
      | none => rw [waiting_none hAt, waiting_none (s := s') hAt]
      | some p =>
        rw [waiting_some hAt, waiting_some (s := s') hAt]
        show lettersFor e (queues p) = _
        by_cases hp : p = q
        · subst hp
          rw [hRest, hHead, lettersFor_cons, if_neg he, List.nil_append]
        · rw [hOther p hp]
    have hHanded : s'.handed e = s.handed e := by
      by_cases hTake : s.Takes l
      · simp [handed, s', hTakes hTake, List.filter_append, he]
      · simp [handed, s', hLeaves hTake]
    rw [hWait, hHanded]

theorem Inv.work {s : Mailbox ε κ} {q : κ} {l : Letter ε} {rest : List (Letter ε)}
    {queues : κ → List (Letter ε)} {calls : List (ε × Nat)} (hInv : Inv s)
    (hHead : s.queues q = l :: rest) (hRest : queues q = rest)
    (hOther : ∀ q', q' ≠ q → queues q' = s.queues q')
    (hTakes : s.Takes l → calls = s.calls ++ [(l.target, l.arrival)])
    (hLeaves : ¬ s.Takes l → calls = s.calls) :
    Inv { s with queues := queues, calls := calls } where
  live_known := hInv.live_known
  letter p m hm := by
    refine hInv.letter p m ?_
    by_cases hp : p = q
    · subst hp
      rw [hHead]
      exact List.mem_cons_of_mem _ (hRest ▸ hm)
    · exact hOther p hp ▸ hm
  call c hc := by
    by_cases hTake : s.Takes l
    · have hc' : c ∈ s.calls ++ [(l.target, l.arrival)] := hTakes hTake ▸ hc
      rcases List.mem_append.mp hc' with hOld | hNew
      · exact hInv.call c hOld
      · have hLetter := hInv.letter q l (by rw [hHead]; exact List.mem_cons_self)
        rw [List.mem_singleton.mp hNew]
        exact ⟨hLetter.1, hLetter.2.2⟩
    · exact hInv.call c (hLeaves hTake ▸ hc)
  order e := (hInv.order e).sublist
    (order_work hInv hHead hRest hOther hTakes hLeaves e)

theorem Inv.step {s s' : Mailbox ε κ} (hInv : Inv s) (h : Step s s') : Inv s' := by
  cases h with
  | create hNew hHome => exact hInv.create hNew hHome
  | withdraw hLive hUnmuted => exact { hInv with live_known := hLive.trans hInv.live_known }
  | arrive hNodup hLive hQueues => exact hInv.arrive hNodup hLive hQueues
  | work hHead hRest hOther hTakes hLeaves =>
    exact hInv.work hHead hRest hOther hTakes hLeaves
  | idle => exact hInv

-- ---------------------------------------------------------------------------
-- What a step adds
-- ---------------------------------------------------------------------------

/-- A letter behind a step was there before, or just arrived for a live
target. -/
theorem Step.letter {s s' : Mailbox ε κ} (h : Step s s') {q : κ} {l : Letter ε}
    (hl : l ∈ s'.queues q) :
    l ∈ s.queues q ∨ (l.arrival = s.arrived ∧ l.target ∈ s.live) := by
  cases h with
  | create | withdraw | idle => exact Or.inl hl
  | @arrive targets queues hNodup hLive hQueues =>
    have hl' : l ∈ queues q := hl
    rw [hQueues q] at hl'
    rcases List.mem_append.mp hl' with hOld | hNew
    · exact Or.inl hOld
    · simp only [posted, List.mem_map, List.mem_filter] at hNew
      obtain ⟨t, ⟨ht, -⟩, rfl⟩ := hNew
      exact Or.inr ⟨rfl, hLive t ht⟩
  | @work p _ _ queues _ hHead hRest hOther _ _ =>
    have hl' : l ∈ queues q := hl
    refine Or.inl ?_
    by_cases hp : q = p
    · subst hp
      rw [hHead]
      exact List.mem_cons_of_mem _ (hRest ▸ hl')
    · exact hOther q hp ▸ hl'

/-- A call behind a step was made before, or is the step: the first letter of a
queue, taken by its target. -/
theorem Step.call {s s' : Mailbox ε κ} (h : Step s s') {c : ε × Nat} (hc : c ∈ s'.calls) :
    c ∈ s.calls ∨ ∃ q, ∃ l ∈ s.queues q, s.Takes l ∧ c = (l.target, l.arrival) ∧
      s'.calls = s.calls ++ [c] := by
  cases h with
  | create | withdraw | idle | arrive => exact Or.inl hc
  | @work p l _ _ _ hHead _ _ hTakes hLeaves =>
    by_cases hTake : s.Takes l
    · have hc' : c ∈ s.calls ++ [(l.target, l.arrival)] := hTakes hTake ▸ hc
      rcases List.mem_append.mp hc' with hOld | hNew
      · exact Or.inl hOld
      · have hEq := List.mem_singleton.mp hNew
        exact Or.inr ⟨p, l, by rw [hHead]; exact List.mem_cons_self, hTake, hEq,
          hEq ▸ hTakes hTake⟩
    · exact Or.inl (hLeaves hTake ▸ hc)

theorem Step.calls_mono {s s' : Mailbox ε κ} (h : Step s s') {c : ε × Nat}
    (hc : c ∈ s.calls) : c ∈ s'.calls := by
  cases h with
  | create | withdraw | idle | arrive => exact hc
  | @work _ l _ _ calls _ _ _ hTakes hLeaves =>
    show c ∈ calls
    by_cases hTake : s.Takes l
    · rw [hTakes hTake]
      exact List.mem_append_left _ hc
    · rw [hLeaves hTake]
      exact hc

/-- A letter stays in its queue, or is the one the step worked on. -/
theorem Step.letter_stays {s s' : Mailbox ε κ} (h : Step s s') {q : κ} {l : Letter ε}
    (hl : l ∈ s.queues q) :
    l ∈ s'.queues q ∨ (s.Takes l → (l.target, l.arrival) ∈ s'.calls) := by
  cases h with
  | create | withdraw | idle => exact Or.inl hl
  | @arrive targets queues hNodup hLive hQueues =>
    refine Or.inl ?_
    show l ∈ queues q
    rw [hQueues q]
    exact List.mem_append_left _ hl
  | @work p m rest queues calls hHead hRest hOther hTakes _ =>
    show l ∈ queues q ∨ (s.Takes l → (l.target, l.arrival) ∈ calls)
    by_cases hp : q = p
    · subst hp
      rw [hHead] at hl
      rcases List.mem_cons.mp hl with rfl | hl
      · refine Or.inr fun hTake => ?_
        rw [hTakes hTake]
        exact List.mem_append_right _ (List.mem_singleton_self _)
      · exact Or.inl (hRest ▸ hl)
    · exact Or.inl (hOther q hp ▸ hl)

-- ---------------------------------------------------------------------------
-- Runs of a system that is a mailbox
-- ---------------------------------------------------------------------------

section Runs

variable {σ α : Type*} {step : σ → α → Option σ} {abs : σ → Mailbox ε κ} {s₀ : σ}

/-- Along the run `as` every step of the system is a step of the mailbox it
shows. -/
def Simulates (step : σ → α → Option σ) (abs : σ → Mailbox ε κ) (s₀ : σ) (as : List α) :
    Prop :=
  ∀ pre a post s s', as = pre ++ a :: post → run step s₀ pre = some s →
    step s a = some s' → Step (abs s) (abs s')

theorem Simulates.init {as bs : List α} (h : Simulates step abs s₀ (as ++ bs)) :
    Simulates step abs s₀ as := by
  intro pre a post s s' hEq hRun hStep
  exact h pre a (post ++ bs) s s' (by rw [hEq]; simp) hRun hStep

theorem Simulates.last {as : List α} {a : α} {s s' : σ}
    (h : Simulates step abs s₀ (as ++ [a])) (hRun : run step s₀ as = some s)
    (hStep : step s a = some s') : Step (abs s) (abs s') :=
  h as a [] s s' rfl hRun hStep

/-- Run induction along a simulated run. -/
theorem Simulates.induction {P : List α → σ → Prop} (hInit : P [] s₀)
    (hStep : ∀ as s a s', run step s₀ as = some s → P as s → step s a = some s' →
      Step (abs s) (abs s') → P (as ++ [a]) s')
    {as : List α} {s : σ} (hSim : Simulates step abs s₀ as)
    (hRun : run step s₀ as = some s) : P as s := by
  refine run_induction (P := fun as s => Simulates step abs s₀ as → P as s)
    (fun _ => hInit) ?_ hRun hSim
  intro as s a s' hAs ih ha hSim
  exact hStep as s a s' hAs (ih hSim.init) ha (hSim.last hAs ha)

theorem inv_of_run (hInit : (abs s₀).Empty) {as : List α} {s : σ}
    (hSim : Simulates step abs s₀ as) (hRun : run step s₀ as = some s) : Inv (abs s) :=
  Simulates.induction (P := fun _ s => Inv (abs s)) (inv_of_empty hInit)
    (fun _ _ _ _ _ hInv _ h => hInv.step h) hSim hRun

/-- The letter `l` was put into its queue by a step of the run. -/
def Posted (step : σ → α → Option σ) (abs : σ → Mailbox ε κ) (s₀ : σ) (as : List α)
    (l : Letter ε) : Prop :=
  ∃ pre a mid s s' q, as = pre ++ a :: mid ∧ run step s₀ pre = some s ∧
    step s a = some s' ∧ (abs s).arrived = l.arrival ∧ l.target ∈ (abs s).live ∧
    l ∈ (abs s').queues q

theorem Posted.snoc {as bs : List α} {l : Letter ε} (h : Posted step abs s₀ as l) :
    Posted step abs s₀ (as ++ bs) l := by
  obtain ⟨pre, a, mid, s, s', q, rfl, hRest⟩ := h
  exact ⟨pre, a, mid ++ bs, s, s', q, by simp, hRest⟩

/-- Every letter in a queue was posted. -/
theorem posted_of_mem (hInit : (abs s₀).Empty) {as : List α} {s : σ}
    (hSim : Simulates step abs s₀ as) (hRun : run step s₀ as = some s) {q : κ}
    {l : Letter ε} (hl : l ∈ (abs s).queues q) : Posted step abs s₀ as l := by
  refine Simulates.induction (P := fun as s => ∀ q l, l ∈ (abs s).queues q →
    Posted step abs s₀ as l) ?_ ?_ hSim hRun q l hl
  · intro q l hl
    rw [hInit.2.1 q] at hl
    exact absurd hl List.not_mem_nil
  · intro as s a s' hAs ih ha h q l hl
    rcases h.letter hl with hOld | ⟨hArr, hLive⟩
    · exact (ih q l hOld).snoc
    · exact ⟨as, a, [], s, s', q, rfl, hAs, ha, hArr.symm, hLive, hl⟩

/-- The call `(e, k)` was made in the run `as`: step `a` is the arrival number
`k` and posts a letter to `e`, which is live; step `b` makes the call, before
which `e` is still live and not muted. -/
def Called (step : σ → α → Option σ) (abs : σ → Mailbox ε κ) (s₀ : σ) (as : List α)
    (e : ε) (k : Nat) : Prop :=
  ∃ pre a mid b post s₁ s₁' s₂ s₂' q l,
    as = pre ++ a :: mid ++ b :: post ∧
    run step s₀ pre = some s₁ ∧ step s₁ a = some s₁' ∧
    (abs s₁).arrived = k ∧ e ∈ (abs s₁).live ∧
    l ∈ (abs s₁').queues q ∧ l.target = e ∧ l.arrival = k ∧ l.wanted = true ∧
    run step s₀ (pre ++ a :: mid) = some s₂ ∧ step s₂ b = some s₂' ∧
    e ∈ (abs s₂).live ∧ e ∈ (abs s₂).unmuted ∧
    (abs s₂').calls = (abs s₂).calls ++ [(e, k)]

/-- **Where a call comes from.** -/
theorem call_origin (hInit : (abs s₀).Empty) {as : List α} {s : σ}
    (hSim : Simulates step abs s₀ as) (hRun : run step s₀ as = some s) {e : ε} {k : Nat}
    (hCall : (e, k) ∈ (abs s).calls) : Called step abs s₀ as e k := by
  refine run_induction (P := fun as s => Simulates step abs s₀ as → ∀ e k,
    (e, k) ∈ (abs s).calls → Called step abs s₀ as e k) ?_ ?_ hRun hSim e k hCall
  · intro _ e k hc
    rw [hInit.2.2] at hc
    exact absurd hc List.not_mem_nil
  · intro as s a s' hAs ih ha hSim e k hc
    rcases (hSim.last hAs ha).call hc with hOld | ⟨q, l, hl, hTake, hEq, hCalls⟩
    · obtain ⟨pre, a₁, mid, b, post, s₁, s₁', s₂, s₂', q, l, rfl, hRest⟩ :=
        ih hSim.init e k hOld
      exact ⟨pre, a₁, mid, b, post ++ [a], s₁, s₁', s₂, s₂', q, l, by simp, hRest⟩
    · obtain ⟨rfl, rfl⟩ := Prod.mk.inj hEq
      obtain ⟨pre, a₁, mid, s₁, s₁', p, rfl, hPre, hPost, hArr, hLive, hMem⟩ :=
        posted_of_mem hInit hSim.init hAs hl
      exact ⟨pre, a₁, mid, a, [], s₁, s₁', s, s', p, l, by simp, hPre, hPost, hArr, hLive,
        hMem, rfl, rfl, hTake.2.2, hAs, ha, hTake.1, hTake.2.1, hCalls⟩

/-- **Exactly once.** A letter that its target wants, and whose target is live
and not muted whenever the letter still waits, is handed over exactly once, or
still waits. -/
theorem delivered_once (hInit : (abs s₀).Empty) {pre rest : List α} {s₁ s : σ}
    (hSim : Simulates step abs s₀ (pre ++ rest)) (hPre : run step s₀ pre = some s₁)
    (hRun : run step s₀ (pre ++ rest) = some s) {q : κ} {l : Letter ε}
    (hl : l ∈ (abs s₁).queues q) (hWanted : l.wanted = true)
    (hStay : ∀ mid post t, rest = mid ++ post → run step s₀ (pre ++ mid) = some t →
      l.arrival ∈ (abs t).waiting l.target →
      l.target ∈ (abs t).live ∧ l.target ∈ (abs t).unmuted) :
    ((abs s).handed l.target ++ (abs s).waiting l.target).count l.arrival = 1 := by
  have hInv := inv_of_run hInit hSim hRun
  -- along the rest of the run the letter waits or has been handed over
  have hEither : l ∈ (abs s).queues q ∨ (l.target, l.arrival) ∈ (abs s).calls := by
    clear hInv
    induction rest using List.reverseRecOn generalizing s with
    | nil =>
      rw [List.append_nil, hPre] at hRun
      exact Or.inl (Option.some.inj hRun ▸ hl)
    | append_singleton rest a ih =>
      rw [← List.append_assoc] at hRun hSim
      obtain ⟨t, ht, ha⟩ := run_snoc_some hRun
      have hStep := hSim.last ht ha
      have hStay' : ∀ mid post u, rest = mid ++ post → run step s₀ (pre ++ mid) = some u →
          l.arrival ∈ (abs u).waiting l.target →
          l.target ∈ (abs u).live ∧ l.target ∈ (abs u).unmuted :=
        fun mid post u hEq hu => hStay mid (post ++ [a]) u (by rw [hEq]; simp) hu
      rcases ih hSim.init ht hStay' with hWaits | hDone
      · rcases hStep.letter_stays hWaits with h | h
        · exact Or.inl h
        · have hInv := inv_of_run hInit hSim.init ht
          obtain ⟨hLive, hUnmuted⟩ := hStay rest [a] t rfl ht (hInv.mem_waiting hWaits)
          exact Or.inr (h ⟨hLive, hUnmuted, hWanted⟩)
      · exact Or.inr (hStep.calls_mono hDone)
  have hMem : l.arrival ∈ (abs s).handed l.target ++ (abs s).waiting l.target := by
    rcases hEither with h | h
    · exact List.mem_append_right _ (hInv.mem_waiting h)
    · exact List.mem_append_left _ (mem_handed.mpr h)
  have hNodup : ((abs s).handed l.target ++ (abs s).waiting l.target).Nodup :=
    (hInv.order l.target).imp fun h => Nat.ne_of_lt h
  exact List.count_eq_one_of_mem hNodup hMem

end Runs

end Mailbox

end ZmqBridge.Lib
