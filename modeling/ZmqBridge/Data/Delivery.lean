import ZmqBridge.Data.World

/-!
# ZmqBridge — delivery to subscriptions

What the mailbox says about runs of a `World`, in the words of the program: in
which order a record is called, where a call comes from, and that a record that
stays is called exactly once. Then the same for subscriptions.

* `World.calls_ordered`   — what was handed to a record, followed by what waits
  for it, is in arrival order;
* `World.call_origin`     — every call goes back to an item the dispatch thread
  queued, and is made while the record is registered and not muted;
* `World.delivered_once`  — an item whose record stays is run exactly once;
* `exact_delivery_to_subscriptions`.
-/

namespace ZmqBridge

open Lib

variable {κ ρ : Type}

/-- The messages a record was called with, by number, in the order of the
calls. -/
def World.callsOf (w : World κ ρ) (h : Nat) : List Nat :=
  (w.calls.filter (·.target = h)).map Call.arrival

/-- The messages that wait for a record, in the order of its queue. -/
def World.waiting (w : World κ ρ) (h : Nat) : List Nat :=
  match w.made[h]? with
  | none => []
  | some r => ((w.queues r.queue).filter (·.target = h)).map Queued.arrival

/-- The dispatch thread queues an item for the record `h` when `m` arrives. -/
def World.Queues (L : Libraries ρ) (w : World κ ρ) (m : DataMsg) (h : Nat) : Prop :=
  (¬ zmqReplyHandlePrefix <+: m.subject ∧ ∃ s ∈ w.impl.subs, s.handle = h ∧
    s.Matches L.regexec m.subject ∧ (s.mIsWildcard = true ∨ s.mIsNotMuted = true)) ∨
  (zmqReplyHandlePrefix <+: m.subject ∧ ∃ i ∈ w.impl.inboxes, i.handle = h ∧
    i.name = m.subject.drop zmqReplyHandleInboxNameIndex)

-- ---------------------------------------------------------------------------
-- The mailbox, read back
-- ---------------------------------------------------------------------------

theorem World.abs_handed (w : World κ ρ) (h : Nat) : w.abs.handed h = w.callsOf h := by
  unfold Mailbox.handed World.abs World.callsOf
  rw [List.filter_map, List.map_map]
  exact congrArg (List.map _) (List.filter_congr fun c _ => decide_eq_decide.mpr Iff.rfl)

theorem World.abs_waiting (w : World κ ρ) (h : Nat) : w.abs.waiting h = w.waiting h := by
  unfold World.waiting
  cases hr : w.made[h]? with
  | none =>
    refine Mailbox.waiting_none ?_
    show w.made[h]?.map Made.queue = none
    rw [hr]
    rfl
  | some r =>
    have hHome : w.abs.home h = some r.queue := by
      show w.made[h]?.map Made.queue = _
      rw [hr]
      rfl
    rw [Mailbox.waiting_some hHome]
    unfold Mailbox.lettersFor World.abs
    rw [List.filter_map, List.map_map]
    exact congrArg (List.map _)
      (List.filter_congr fun it _ => decide_eq_decide.mpr Iff.rfl)

section Runs

variable [DecidableEq κ] {L : Libraries ρ} {mUuid : Uuid} {queueMsgs : κ → ZmqBridgeMsgImpl}
  {as : List (WorldAct κ ρ)} {w : World κ ρ}

-- ---------------------------------------------------------------------------
-- What each step is responsible for
-- ---------------------------------------------------------------------------

/-- Only arrivals add to the arrivals, only queues add to the calls. -/
theorem World.step_history {a : WorldAct κ ρ} {w' : World κ ρ}
    (h : World.step L w a = some w') :
    (w'.arrivals = w.arrivals ∨ ∃ m, a = .arrive m ∧ w.arrivals <+: w'.arrivals) ∧
    (w'.calls = w.calls ∨ ∃ q, a = .runQueue q ∧ w.calls <+: w'.calls) := by
  cases a with
  | arrive m =>
    simp only [World.step] at h
    split at h
    · split at h
      · cases h
        exact ⟨Or.inl rfl, Or.inl rfl⟩
      · cases h
        exact ⟨Or.inr ⟨m, rfl, List.prefix_append _ _⟩, Or.inl rfl⟩
    · cases h
  | runQueue q =>
    simp only [World.step] at h
    split at h
    · cases h
    · split at h
      · cases h
        exact ⟨Or.inl rfl, Or.inl rfl⟩
      · cases h
        exact ⟨Or.inl rfl, Or.inr ⟨q, rfl, List.prefix_append _ _⟩⟩
  | create | createWildcard | createInbox | shareQueue =>
    cases h
    exact ⟨Or.inl rfl, Or.inl rfl⟩
  | mute | dispatchControl =>
    simp only [World.step] at h
    split at h <;> cases h
    exact ⟨Or.inl rfl, Or.inl rfl⟩
  | destroy | destroyInbox =>
    simp only [World.step] at h
    split at h
    · split at h <;> cases h <;> exact ⟨Or.inl rfl, Or.inl rfl⟩
    · cases h

theorem World.step_made {a : WorldAct κ ρ} {w' : World κ ρ}
    (h : World.step L w a = some w') : w.made <+: w'.made := by
  cases a with
  | create | createWildcard | createInbox =>
    cases h
    exact List.prefix_append _ _
  | shareQueue =>
    cases h
    exact List.prefix_rfl
  | mute | dispatchControl =>
    simp only [World.step] at h
    split at h <;> cases h
    exact List.prefix_rfl
  | destroy | destroyInbox | arrive =>
    simp only [World.step] at h
    split at h
    · split at h <;> cases h <;> exact List.prefix_rfl
    · cases h
  | runQueue =>
    simp only [World.step] at h
    split at h
    · cases h
    · split at h <;> cases h <;> exact List.prefix_rfl

/-- History is never forgotten. -/
theorem World.extends_of_run {w₀ : World κ ρ} (hRun : run (World.step L) w₀ as = some w) :
    w₀.Extends w := by
  refine run_relation (fun _ => ⟨List.prefix_rfl, List.prefix_rfl, List.prefix_rfl⟩) ?_ ?_ hRun
  · intro w v u h h'
    exact ⟨h.made.trans h'.made, h.arrivals.trans h'.arrivals, h.calls.trans h'.calls⟩
  · intro w a w' h
    obtain ⟨hArr, hCalls⟩ := World.step_history h
    refine ⟨World.step_made h, ?_, ?_⟩
    · rcases hArr with hSame | ⟨_, -, hPrefix⟩
      · rw [hSame]
      · exact hPrefix
    · rcases hCalls with hSame | ⟨_, -, hPrefix⟩
      · rw [hSame]
      · exact hPrefix

/-- The number of a message stays with it. -/
theorem World.Inv.arrival_number {m : DataMsg} {w₁ w₁' : World κ ρ} (hInv : w₁.Inv)
    (ha : World.step L w₁ (.arrive m) = some w₁') (hRun : run (World.step L) w₁' as = some w) :
    w.arrivals[w₁.arrivals.length]? = some m := by
  obtain ⟨items, rfl, -⟩ := hInv.step_arrive ha
  exact getElem?_of_prefixed (World.extends_of_run hRun).arrivals List.getElem?_concat_length

omit [DecidableEq κ] in
/-- A call hands over the payload of its message. -/
theorem World.Inv.payload_eq (hInv : w.Inv) {c : Call} (hc : c ∈ w.calls) {m : DataMsg}
    (hm : w.arrivals[c.arrival]? = some m) (hSize : m.wire.length < 2 ^ 31) :
    c.payload = m.payload := by
  obtain ⟨m', buffer', hm', hBuffer', hPayload⟩ := hInv.calls c hc
  obtain rfl : m = m' := Option.some.inj (hm.symm.trans hm')
  obtain ⟨buffer, hBuffer, hBytes⟩ := DataMsg.buffer_of_lt hSize
  obtain rfl : buffer = buffer' := Option.some.inj (hBuffer.symm.trans hBuffer')
  rw [hPayload, hBytes]

-- ---------------------------------------------------------------------------
-- Order
-- ---------------------------------------------------------------------------

variable (hRun : run (World.step L) (World.init mUuid queueMsgs) as = some w)
  (hBound : creations as < 2 ^ 64)

include hRun hBound

/-- **Arrival order.** -/
theorem World.calls_ordered (h : Nat) : (w.callsOf h ++ w.waiting h).Pairwise (· < ·) := by
  rw [← w.abs_handed, ← w.abs_waiting]
  exact (Mailbox.inv_of_run (World.abs_init_empty mUuid queueMsgs)
    (World.simulates hBound) hRun).order h

/-- A record is called with a message at most once. -/
theorem World.call_unique {c c' : Call} (hc : c ∈ w.calls) (hc' : c' ∈ w.calls)
    (hTarget : c.target = c'.target) (hArrival : c.arrival = c'.arrival) : c = c' := by
  have hNodup : (w.callsOf c.target).Nodup :=
    ((List.pairwise_append.mp (World.calls_ordered hRun hBound c.target)).1).imp
      fun h => Nat.ne_of_lt h
  exact List.inj_on_of_nodup_map hNodup
    (List.mem_filter.mpr ⟨hc, by simp⟩)
    (List.mem_filter.mpr ⟨hc', by simpa using hTarget.symm⟩) hArrival

-- ---------------------------------------------------------------------------
-- Where a call comes from
-- ---------------------------------------------------------------------------

omit hRun hBound in
/-- A letter that carries the number of the next arrival is put there by an
arrival that queues an item for its target. -/
theorem World.Inv.posted {w' : World κ ρ} {a : WorldAct κ ρ} (hInv : w.Inv) (hInv' : w'.Inv)
    (ha : World.step L w a = some w') {q : κ} {l : Letter Nat} (hl : l ∈ w'.abs.queues q)
    (hNew : l.arrival = w.arrivals.length) :
    ∃ m r, a = .arrive m ∧ w.Queues L m l.target ∧ w.made[l.target]? = some r ∧
      l.wanted = r.wants m := by
  obtain ⟨it, hit, rfl⟩ := List.mem_map.mp hl
  have hNumber : it.arrival = w.arrivals.length := hNew
  obtain ⟨r, m', hr, hm', -⟩ := hInv'.items q it hit
  rcases (World.step_history ha).1 with hSame | ⟨m, rfl, -⟩
  · -- no arrival: the number cannot have been given out
    rw [hSame, hNumber] at hm'
    simp at hm'
  obtain ⟨items, rfl, -, -, hItems⟩ := hInv.step_arrive ha
  have hm : (w.enqueue m items).arrivals[it.arrival]? = some m := by
    rw [hNumber]
    exact List.getElem?_concat_length
  refine ⟨m, r, rfl, ?_, hr, World.ItemOk.wants_eq hr hm⟩
  rcases List.mem_append.mp hit with hOld | hItem
  · obtain ⟨-, m, -, hm, -⟩ := hInv.items q it hOld
    rw [hNumber] at hm
    simp at hm
  · obtain ⟨e, he, rfl⟩ := List.mem_map.mp hItem
    rcases (hItems e).mp (List.mem_filter.mp he).1 with
      ⟨hSub, s, hs, hMatch, hMuted, rfl⟩ | ⟨hPrefix, i, hi, hName, rfl⟩
    · exact Or.inl ⟨hSub, s, hs, rfl, hMatch, hMuted⟩
    · exact Or.inr ⟨hPrefix, i, hi, rfl, hName⟩

/-- How the run `as` to `w` comes to make the call `c`: the dispatch thread
queues an item for its record, which wants the message, when the message
arrives, and the record is still registered and not muted when a queue runs the
item. -/
structure World.CallOrigin (L : Libraries ρ) (w₀ : World κ ρ) (as : List (WorldAct κ ρ))
    (w : World κ ρ) (c : Call) where
  pre : List (WorldAct κ ρ)
  m : DataMsg
  mid : List (WorldAct κ ρ)
  queue : κ
  post : List (WorldAct κ ρ)
  arriving : World κ ρ
  record : Made κ
  running : World κ ρ
  done : World κ ρ
  acts_eq : as = pre ++ .arrive m :: mid ++ .runQueue queue :: post
  run_arriving : run (World.step L) w₀ pre = some arriving
  arrival_eq : arriving.arrivals.length = c.arrival
  queues : arriving.Queues L m c.target
  made_eq : arriving.made[c.target]? = some record
  wants : record.wants m = true
  arrived : w.arrivals[c.arrival]? = some m
  run_running : run (World.step L) w₀ (pre ++ .arrive m :: mid) = some running
  live : c.target ∈ running.impl.live
  unmuted : c.target ∈ running.impl.unmuted
  step_eq : World.step L running (.runQueue queue) = some done
  calls_eq : done.calls = running.calls ++ [c]
  inv_arriving : arriving.Inv
  inv_running : running.Inv
  extends_arriving : arriving.Extends w
  extends_running : running.Extends w

omit hRun hBound in
/-- A step that makes a call of the mailbox makes that call of the program. -/
theorem World.made_call {a : WorldAct κ ρ} {w' : World κ ρ} {h k : Nat}
    (ha : World.step L w a = some w') (hCalls : w'.abs.calls = w.abs.calls ++ [(h, k)]) :
    ∃ q c, a = .runQueue q ∧ w'.calls = w.calls ++ [c] ∧ c.target = h ∧ c.arrival = k := by
  rw [World.abs, World.abs] at hCalls
  rcases (World.step_history ha).2 with hSame | ⟨q, rfl, new, hNew⟩
  · rw [hSame] at hCalls
    simp at hCalls
  · rw [← hNew, List.map_append] at hCalls
    have hOne := List.append_cancel_left hCalls
    obtain ⟨c, rfl⟩ : ∃ c, new = [c] := List.length_eq_one_iff.mp (by
      have := congrArg List.length hOne
      simpa using this)
    have hKey : c.target = h ∧ c.arrival = k := by simpa using hOne
    exact ⟨q, c, rfl, hNew.symm, hKey⟩

/-- **Where a call comes from.** -/
theorem World.call_origin {c : Call} (hc : c ∈ w.calls) :
    Nonempty (World.CallOrigin L (World.init mUuid queueMsgs) as w c) := by
  have hSim : Mailbox.Simulates (World.step L) World.abs (World.init mUuid queueMsgs) as :=
    World.simulates hBound
  have hAbs : (c.target, c.arrival) ∈ w.abs.calls := List.mem_map.mpr ⟨c, hc, rfl⟩
  obtain ⟨pre, a, mid, b, post, w₁, w₁', w₂, w₂', q, l, rfl, hPre, ha, hArrived, -, hl, hTarget,
    hNumber, hWanted, hMid, hb, hLive, hUnmuted, hCalls⟩ :=
    Mailbox.call_origin (World.abs_init_empty mUuid queueMsgs) hSim hRun hAbs
  have hParts := hBound
  simp only [creations, List.countP_append, List.countP_cons] at hParts
  have hInv₁ := (World.inv_run hPre (by rw [creations]; omega)).1
  have hInv₁' := (World.inv_run (run_snoc_of hPre ha) (by
    rw [creations_snoc, creations]
    omega)).1
  have hInv₂ := (World.inv_run hMid (by
    simp only [creations, List.countP_append, List.countP_cons]
    omega)).1
  obtain ⟨m, r, rfl, hQueues, hMade, hWants⟩ :=
    hInv₁.posted hInv₁' ha hl (hNumber.trans hArrived.symm)
  rw [hTarget] at hQueues hMade
  obtain ⟨q', d, rfl, hNew, hKey⟩ := World.made_call hb hCalls
  -- the rest of the run, from the two steps on
  obtain ⟨v, v', hv, hv', hTail⟩ := run_append_cons_some hRun
  obtain rfl : w₂ = v := Option.some.inj (hMid.symm.trans hv)
  obtain rfl : w₂' = v' := Option.some.inj (hb.symm.trans hv')
  have hExt₂ : w₂.Extends w := World.extends_of_run (run_cons.trans (by rw [hb]; exact hTail))
  have hWhole := hRun
  rw [List.append_assoc, List.cons_append] at hWhole
  obtain ⟨u, u', hu, hu', hRest⟩ := run_append_cons_some hWhole
  obtain rfl : w₁ = u := Option.some.inj (hPre.symm.trans hu)
  have hExt₁ : w₁.Extends w := World.extends_of_run (run_cons.trans (by rw [hu']; exact hRest))
  -- the call made there is `c`, since there is only one for the record and message
  have hd : d ∈ w.calls := (World.extends_of_run hTail).calls.subset (by rw [hNew]; simp)
  obtain rfl : d = c := World.call_unique hRun hBound hd hc hKey.1 hKey.2
  exact ⟨{
    pre, m, mid, post, queue := q', arriving := w₁, record := r, running := w₂, done := w₂'
    acts_eq := rfl
    run_arriving := hPre
    arrival_eq := hArrived
    queues := hQueues
    made_eq := hMade
    wants := hWants.symm.trans hWanted
    arrived := by
      rw [← hArrived]
      exact hInv₁.arrival_number hu' hRest
    run_running := hMid
    live := hLive
    unmuted := hUnmuted
    step_eq := hb
    calls_eq := hNew
    inv_arriving := hInv₁
    inv_running := hInv₂
    extends_arriving := hExt₁
    extends_running := hExt₂ }⟩

-- ---------------------------------------------------------------------------
-- Exactly once
-- ---------------------------------------------------------------------------

omit hRun hBound in
/-- What an arrival queues for a record waits at the record's home. -/
theorem World.Inv.queued {m : DataMsg} {w' : World κ ρ} {h : Nat} (hInv : w.Inv)
    (ha : World.step L w (.arrive m) = some w') (hQueues : w.Queues L m h) :
    ∃ q, ∃ it ∈ w'.queues q, it.target = h ∧ it.arrival = w.arrivals.length := by
  obtain ⟨items, rfl, -, -, hItems⟩ := hInv.step_arrive ha
  have hItem : ∃ e ∈ items, e.target = h := by
    rcases hQueues with ⟨hSub, s, hs, rfl, hMatch, hMuted⟩ | ⟨hPrefix, i, hi, rfl, hName⟩
    · exact ⟨s.item m.wire, (hItems _).mpr (Or.inl ⟨hSub, s, hs, hMatch, hMuted, rfl⟩), rfl⟩
    · exact ⟨i.item m.wire, (hItems _).mpr (Or.inr ⟨hPrefix, i, hi, hName, rfl⟩), rfl⟩
  obtain ⟨e, he, rfl⟩ := hItem
  refine ⟨e.queue, ⟨e.tmsg, e.target, w.arrivals.length⟩, List.mem_append_right _ ?_, rfl, rfl⟩
  exact List.mem_map.mpr ⟨e, List.mem_filter.mpr ⟨he, by simp⟩, rfl⟩

end Runs

/-- **Exactly once.** An item whose record wants the message, and stays
registered and not muted as long as the item waits, is run exactly once. -/
theorem World.delivered_once [DecidableEq κ] {L : Libraries ρ} {mUuid : Uuid}
    {queueMsgs : κ → ZmqBridgeMsgImpl} {pre post : List (WorldAct κ ρ)} {m : DataMsg}
    {w₁ w : World κ ρ} {h : Nat} {r : Made κ}
    (hRun : run (World.step L) (World.init mUuid queueMsgs) (pre ++ .arrive m :: post) = some w)
    (hBound : creations (pre ++ .arrive m :: post) < 2 ^ 64)
    (hPre : run (World.step L) (World.init mUuid queueMsgs) pre = some w₁)
    (hQueues : w₁.Queues L m h) (hMade : w₁.made[h]? = some r) (hWants : r.wants m = true)
    (hStay : ∀ mid post' w', post = mid ++ post' →
      run (World.step L) (World.init mUuid queueMsgs) (pre ++ .arrive m :: mid) = some w' →
      w₁.arrivals.length ∈ w'.waiting h → h ∈ w'.impl.live ∧ h ∈ w'.impl.unmuted) :
    (w.callsOf h).count w₁.arrivals.length + (w.waiting h).count w₁.arrivals.length = 1 := by
  have hParts := hBound
  simp only [creations, List.countP_append, List.countP_cons] at hParts
  obtain ⟨v, w₁', hv, ha, hRest⟩ := run_append_cons_some hRun
  obtain rfl : w₁ = v := Option.some.inj (hPre.symm.trans hv)
  have hInv₁ := (World.inv_run hPre (by rw [creations]; omega)).1
  obtain ⟨q, it, hit, rfl, hNumber⟩ := hInv₁.queued ha hQueues
  have hm : w₁'.arrivals[it.arrival]? = some m :=
    hNumber ▸ hInv₁.arrival_number ha (run_nil w₁')
  have hMade' : w₁'.made[it.target]? = some r := by
    obtain ⟨items, rfl, -⟩ := hInv₁.step_arrive ha
    exact hMade
  have hl : w₁'.letter it ∈ w₁'.abs.queues q := List.mem_map.mpr ⟨it, hit, rfl⟩
  have hSim : Mailbox.Simulates (World.step L) World.abs (World.init mUuid queueMsgs)
      ((pre ++ [.arrive m]) ++ post) := World.simulates (by simpa using hBound)
  have hOnce := Mailbox.delivered_once (World.abs_init_empty mUuid queueMsgs) hSim
    (run_snoc_of hPre ha) (by simpa using hRun) hl
    ((World.ItemOk.wants_eq hMade' hm).trans hWants) ?_
  · rw [w.abs_handed, w.abs_waiting, List.count_append] at hOnce
    rw [← hNumber]
    exact hOnce
  · intro mid post' w' hEq hMid hWaits
    rw [w'.abs_waiting] at hWaits
    exact hStay mid post' w' hEq (by simpa using hMid) (hNumber ▸ hWaits)

-- ---------------------------------------------------------------------------
-- Subscriptions
-- ---------------------------------------------------------------------------

/-- The record with handle `h` is a subscription. -/
def World.IsSub (w : World κ ρ) (h : Nat) : Prop :=
  ∃ r, w.made[h]? = some r ∧ r.callback ≠ .inbox

/-- The run `as` makes the call `c` of a subscription: the subscription is
registered and matches the message when the message arrives, and is registered
and not muted when the queue runs the item. -/
def World.MakesSubCall [DecidableEq κ] (L : Libraries ρ) (w₀ : World κ ρ)
    (as : List (WorldAct κ ρ)) (c : Call) : Prop :=
  ∃ pre m mid q post w₁ w₂ w₂',
    as = pre ++ .arrive m :: mid ++ .runQueue q :: post ∧
    run (World.step L) w₀ pre = some w₁ ∧ w₁.arrivals.length = c.arrival ∧
    (∃ s ∈ w₁.impl.subs, s.handle = c.target ∧ s.Matches L.regexec m.subject) ∧
    run (World.step L) w₀ (pre ++ .arrive m :: mid) = some w₂ ∧
    (∃ s ∈ w₂.impl.subs, s.handle = c.target ∧ s.mIsNotMuted = true) ∧
    World.step L w₂ (.runQueue q) = some w₂' ∧ w₂'.calls = w₂.calls ++ [c] ∧
    (m.wire.length < 2 ^ 31 → c.payload = m.payload)

section Subscriptions

variable [DecidableEq κ] {L : Libraries ρ} {mUuid : Uuid} {queueMsgs : κ → ZmqBridgeMsgImpl}
  {as : List (WorldAct κ ρ)} {w : World κ ρ}

omit [DecidableEq κ] in
/-- What ends up as a subscription never was an inbox. -/
theorem World.Inv.not_inbox {w₁ : World κ ρ} (hInv : w₁.Inv) (hExt : w₁.Extends w) {h : Nat}
    (hSub : w.IsSub h) : ∀ i ∈ w₁.impl.inboxes, i.handle ≠ h := by
  rintro i hi rfl
  obtain ⟨r, hr, hCb⟩ := hSub
  have hMade := getElem?_of_prefixed hExt.made (hInv.registry.inboxes_made i hi)
  rw [hr] at hMade
  cases hMade
  exact hCb rfl

/-- A call of a subscription goes back to a match. -/
theorem World.subCall_origin
    (hRun : run (World.step L) (World.init mUuid queueMsgs) as = some w)
    (hBound : creations as < 2 ^ 64) {c : Call} (hc : c ∈ w.calls) (hSub : w.IsSub c.target) :
    World.MakesSubCall L (World.init mUuid queueMsgs) as c := by
  obtain ⟨o⟩ := World.call_origin hRun hBound hc
  refine ⟨o.pre, o.m, o.mid, o.queue, o.post, o.arriving, o.running, o.done, o.acts_eq,
    o.run_arriving, o.arrival_eq, ?_, o.run_running, ?_, o.step_eq, o.calls_eq,
    fun hSize => (World.inv_run hRun hBound).1.payload_eq hc o.arrived hSize⟩
  · rcases o.queues with ⟨-, s, hs, hEq, hMatch, -⟩ | ⟨-, i, hi, hEq, -⟩
    · exact ⟨s, hs, hEq, hMatch⟩
    · exact absurd hEq (o.inv_arriving.not_inbox o.extends_arriving hSub i hi)
  · rcases o.unmuted with ⟨s, hs, hEq, hMuted⟩ | ⟨i, hi, hEq⟩
    · exact ⟨s, hs, hEq, hMuted⟩
    · exact absurd hEq (o.inv_running.not_inbox o.extends_running hSub i hi)

/--
**Exact delivery to subscriptions.** In every run with fewer than 2^64
creations:

* no access is invalid;
* a subscription is called at most once for a message, in arrival order;
* only if it was registered and matched when the message arrived, and is
  registered and not muted when its queue gets to the item;
* a subscription that matches and is not muted when a message arrives, and is
  registered and not muted as long as the item waits, is called exactly once —
  or the item still waits, exactly once.
-/
theorem exact_delivery_to_subscriptions
    (hRun : run (World.step L) (World.init mUuid queueMsgs) as = some w)
    (hBound : creations as < 2 ^ 64) :
    w.faulted = false ∧
    (∀ h, (w.callsOf h).Pairwise (· < ·)) ∧
    (∀ c ∈ w.calls, w.IsSub c.target →
      World.MakesSubCall L (World.init mUuid queueMsgs) as c) ∧
    (∀ pre m post w₁, as = pre ++ .arrive m :: post →
      run (World.step L) (World.init mUuid queueMsgs) pre = some w₁ →
      ¬ zmqReplyHandlePrefix <+: m.subject → m.wire.length < 2 ^ 31 →
      ∀ s ∈ w₁.impl.subs, s.Matches L.regexec m.subject → s.mIsNotMuted = true →
      (∀ mid post' w', post = mid ++ post' →
        run (World.step L) (World.init mUuid queueMsgs) (pre ++ .arrive m :: mid) = some w' →
        w₁.arrivals.length ∈ w'.waiting s.handle →
        ∃ s' ∈ w'.impl.subs, s'.handle = s.handle ∧ s'.mIsNotMuted = true) →
      (w.callsOf s.handle).count w₁.arrivals.length +
        (w.waiting s.handle).count w₁.arrivals.length = 1) := by
  refine ⟨(World.inv_run hRun hBound).1.notFaulted, fun h => ?_,
    fun c hc hSub => World.subCall_origin hRun hBound hc hSub, ?_⟩
  · exact (List.pairwise_append.mp (World.calls_ordered hRun hBound h)).1
  rintro pre m post w₁ rfl hPre hSubject hSize s hs hMatch hMuted hStay
  have hParts := hBound
  simp only [creations, List.countP_append, List.countP_cons] at hParts
  have hInv₁ := (World.inv_run hPre (by rw [creations]; omega)).1
  have hWants : s.made.wants m = true := by
    obtain ⟨buffer, hBuffer, -⟩ := DataMsg.buffer_of_lt hSize
    have hCb : s.made.callback ≠ .inbox := by
      simp only [ZmqSubscription.made, ZmqSubscription.callback]
      split <;> decide
    simp [Made.wants, hBuffer, hCb]
  refine World.delivered_once hRun hBound hPre (Or.inl ⟨hSubject, s, hs, rfl, hMatch,
    Or.inr hMuted⟩) (hInv₁.registry.subs_made s hs) hWants ?_
  intro mid post' w' hEq hMid hWaits
  obtain ⟨s', hs', hHandle, hMuted'⟩ := hStay mid post' w' hEq hMid hWaits
  exact ⟨DataTransport.mem_live.mpr (Or.inl ⟨s', hs', hHandle⟩),
    Or.inl ⟨s', hs', hHandle, hMuted'⟩⟩

end Subscriptions

/-- A wildcard and a regular subscription match; the regular one is gone when
its item runs. -/
def destroyBetween : List (WorldAct Unit Unit) :=
  [.create keyB (), .createWildcard keyB () (), .arrive publishB, .runQueue (), .destroy 0,
    .runQueue ()]

theorem delivery_destroyBetween :
    ∃ w, run (World.step acceptAll) (World.init uuidA fun _ => MamaMsgImpl.createMsgOnly)
        destroyBetween = some w ∧
      w.calls = [⟨1, 0, [9]⟩] ∧ w.faulted = false ∧
      (∀ h, (w.callsOf h).Pairwise (· < ·)) ∧
      World.MakesSubCall acceptAll (World.init uuidA fun _ => MamaMsgImpl.createMsgOnly)
        destroyBetween ⟨1, 0, [9]⟩ := by
  have hExists : ∃ w, run (World.step acceptAll)
      (World.init uuidA fun _ => MamaMsgImpl.createMsgOnly) destroyBetween = some w ∧
      w.calls = [⟨1, 0, [9]⟩] ∧ (w.made[1]?).map Made.callback = some .wildcard :=
    exists_run (by decide +kernel)
  obtain ⟨w, hRun, hCalls, hMade⟩ := hExists
  obtain ⟨r, hr, hCallback⟩ := Option.map_eq_some_iff.mp hMade
  have hSub : w.IsSub 1 := ⟨r, hr, by rw [hCallback]; decide⟩
  obtain ⟨hFault, hOrder, hOrigin, -⟩ := exact_delivery_to_subscriptions hRun (by decide)
  refine ⟨w, hRun, hCalls, hFault, hOrder, hOrigin ⟨1, 0, [9]⟩ ?_ hSub⟩
  rw [hCalls]
  exact List.mem_singleton_self _

end ZmqBridge
