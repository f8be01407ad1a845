import ZmqBridge.Lib.Wires
import ZmqBridge.Data.Inboxes
import ZmqBridge.Data.Interest

/-!
# ZmqBridge — from publisher to callback, across transports

Any number of transports, each a `World`, and a wire from every one to every other.
A publisher sends a message through one of the functions of `publisher.c`; the bytes
get onto some of the wires, since what is connected to what and what ZeroMQ drops is
left open. A socket passes on what begins with a topic it is subscribed to. Everything
else is as in one transport, in any interleaving.

A publisher may make an invalid access itself, and a message under an inbox subject that
is not a reply is read behind its subject: then the bus is `astray` and the run ends. What a
call puts on the socket is the wire format of some `DataMsg`, whose reply handle the
receivers have room for; other calls are not followed.

* `bus_in_order`  — a callback is only ever called with a message somebody published
  under its topic, with the payload of that message, and for each publishing transport
  at most once and in the order of publication;
* `bus_delivers`  — a subscription whose 'S' has reached the socket is called exactly
  once for every message under its key that comes over a wire, as long as it stays.
-/

namespace ZmqBridge

open Lib

variable {ι κ ρ : Type}

structure Bus (ι κ ρ : Type) where
  worlds : ι → World κ ρ
  net : Wires ι DataMsg
  astray : Bool

def Bus.init (U : ι → Uuid) (queueMsgs : ι → κ → ZmqBridgeMsgImpl) : Bus ι κ ρ where
  worlds i := .init (U i) (queueMsgs i)
  net := .init
  astray := false

/-- A socket takes messages that begin with a topic it is subscribed to. -/
def subscribed (dataSub : List Byte → Nat) (zmsg : List Byte) : Bool :=
  zmsg.inits.any fun t => 0 < dataSub t

/-- What can happen. In `publish`, `m` is what the call of the publisher puts on the
socket. -/
inductive BusAct (ι κ ρ : Type) where
  | publish (i : ι) (calls : SendCalls) (pub : ZmqPublisherBridge) (r : SendRequest)
      (m : DataMsg) (reaches : ι → Bool)
  | receive (i j : ι)
  | app (j : ι) (a : WorldAct κ ρ)

/-- A publisher makes no invalid access, and uses an inbox subject only for replies. -/
def BusAct.Sound : BusAct ι κ ρ → Prop
  | .publish _ calls pub r m _ => Inside (r.perform calls pub) ∧ m.Deliverable
  | _ => True

def WorldAct.isArrive : WorldAct κ ρ → Bool
  | .arrive _ => true
  | _ => false

variable [DecidableEq ι]

/-- What the application and the threads of transport `j` do. -/
def appActs (j : ι) (as : List (BusAct ι κ ρ)) : List (WorldAct κ ρ) :=
  as.filterMap fun
    | .app i a => if i = j then some a else none
    | _ => none

theorem appActs_snoc (j : ι) (as : List (BusAct ι κ ρ)) (a : BusAct ι κ ρ) :
    appActs j (as ++ [a]) = appActs j as ++ appActs j [a] :=
  List.filterMap_append

theorem creations_appActs_mono (j : ι) {as bs : List (BusAct ι κ ρ)} (h : as <+: bs) :
    creations (appActs j as) ≤ creations (appActs j bs) :=
  (h.sublist.filterMap _).countP_le

-- ---------------------------------------------------------------------------
-- Wires and transports together
-- ---------------------------------------------------------------------------

/-- What holds of wires and transports together. `published` goes back to calls of a
publisher. -/
structure Bus.Inv (b : Bus ι κ ρ) (as : List (BusAct ι κ ρ)) : Prop where
  ordered : b.net.Ordered
  length : ∀ j, (b.net.received j).length = (b.worlds j).arrivals.length
  origin : ∀ (j : ι) (k : Nat) (i : ι) (n : Nat), (b.net.received j)[k]? = some (i, n) →
    ∃ m, (b.net.published i)[n]? = some m ∧ (b.worlds j).arrivals[k]? = some m
  published : ∀ i, ∀ m ∈ b.net.published i, ∃ calls pub r reaches status,
    .publish i calls pub r m reaches ∈ as ∧
      r.perform calls pub = .ok (some (m.wire.map some), status)

theorem Bus.inv_init (U : ι → Uuid) (queueMsgs : ι → κ → ZmqBridgeMsgImpl) :
    (Bus.init U queueMsgs : Bus ι κ ρ).Inv [] where
  ordered := Wires.ordered_init
  length _ := rfl
  origin _ _ _ _ hk := by simp [Bus.init, Wires.init] at hk
  published _ _ hm := absurd hm List.not_mem_nil

/-- Publishing only adds to what was published. -/
theorem published_of_publish (net : Wires ι DataMsg) (i i' : ι) (m : DataMsg)
    (reaches : ι → Bool) : net.published i' <+: (net.publish i m reaches).published i' := by
  show net.published i' <+: Function.update net.published i (net.published i ++ [m]) i'
  by_cases hi : i' = i
  · subst hi
    rw [Function.update_self]
    exact List.prefix_append _ _
  · rw [Function.update_of_ne hi]

section Inv

variable {b : Bus ι κ ρ} {as : List (BusAct ι κ ρ)}

theorem Bus.Inv.publish (hs : b.Inv as) {i : ι} {calls : SendCalls} {pub : ZmqPublisherBridge}
    {r : SendRequest} {m : DataMsg} {reaches : ι → Bool} {status : MamaStatus}
    (hSend : r.perform calls pub = .ok (some (m.wire.map some), status)) :
    Bus.Inv { b with net := b.net.publish i m reaches }
      (as ++ [.publish i calls pub r m reaches]) where
  ordered := hs.ordered.publish i m reaches
  length := hs.length
  origin j k i' n hk := by
    obtain ⟨m', hm', hArrived⟩ := hs.origin j k i' n hk
    exact ⟨m', getElem?_of_prefixed (published_of_publish b.net i i' m reaches) hm',
      hArrived⟩
  published i' m' hm' := by
    have hOld (hm : m' ∈ b.net.published i') : ∃ calls' pub' r' reaches' status',
        BusAct.publish i' calls' pub' r' m' reaches' ∈
          as ++ [BusAct.publish i calls pub r m reaches] ∧
        r'.perform calls' pub' = .ok (some (m'.wire.map some), status') := by
      obtain ⟨c, p, q, t, st, hMem, hPerform⟩ := hs.published i' m' hm
      exact ⟨c, p, q, t, st, List.mem_append_left _ hMem, hPerform⟩
    have hm : m' ∈ Function.update b.net.published i (b.net.published i ++ [m]) i' := hm'
    by_cases hi : i' = i
    · subst hi
      rw [Function.update_self] at hm
      rcases List.mem_append.mp hm with hm | hm
      · exact hOld hm
      · rw [List.mem_singleton.mp hm]
        exact ⟨calls, pub, r, reaches, status, by simp, hSend⟩
    · rw [Function.update_of_ne hi] at hm
      exact hOld hm

theorem Bus.Inv.snoc (hs : b.Inv as) (a : BusAct ι κ ρ) : b.Inv (as ++ [a]) where
  ordered := hs.ordered
  length := hs.length
  origin := hs.origin
  published i m hm := by
    obtain ⟨c, p, q, t, st, hMem, hPerform⟩ := hs.published i m hm
    exact ⟨c, p, q, t, st, List.mem_append_left _ hMem, hPerform⟩

theorem Bus.Inv.stray (hs : b.Inv as) (a : BusAct ι κ ρ) :
    Bus.Inv { b with astray := true } (as ++ [a]) :=
  ⟨(hs.snoc a).ordered, (hs.snoc a).length, (hs.snoc a).origin, (hs.snoc a).published⟩

theorem Bus.Inv.ignore (hs : b.Inv as) {i j : ι} {n : Nat} {m : DataMsg}
    {rest : List (Nat × DataMsg)} (hHead : b.net.wires i j = (n, m) :: rest) :
    Bus.Inv { b with net := b.net.take i j n rest false } as := by
  have hReceived : (b.net.take i j n rest false).received = b.net.received := by
    simp [Wires.take]
  refine ⟨hs.ordered.take hHead false, fun j' => ?_, fun j' k i' n' hk => ?_, hs.published⟩
  · rw [hReceived]
    exact hs.length j'
  · rw [hReceived] at hk
    exact hs.origin j' k i' n' hk

end Inv

-- ---------------------------------------------------------------------------
-- What one step does
-- ---------------------------------------------------------------------------

variable [DecidableEq κ]

def Bus.step (L : ι → Libraries ρ) (b : Bus ι κ ρ) (a : BusAct ι κ ρ) : Option (Bus ι κ ρ) :=
  if b.astray then none
  else match a with
    | .publish i calls pub r m reaches =>
      match r.perform calls pub with
      | .error _ => some { b with astray := true }
      | .ok (zmsg, _) =>
        if zmsg = some (m.wire.map some) then
          some { b with net := b.net.publish i m reaches }
        else none
    | .receive i j =>
      match b.net.wires i j with
      | [] => none
      | (n, m) :: rest =>
        if subscribed (b.worlds j).dataSub m.wire then
          if m.Deliverable then
            (World.step (L j) (b.worlds j) (.arrive m)).map fun w =>
              { b with
                worlds := Function.update b.worlds j w, net := b.net.take i j n rest true }
          else some { b with astray := true }
        else some { b with net := b.net.take i j n rest false }
    | .app j a =>
      if a.isArrive then none
      else (World.step (L j) (b.worlds j) a).map fun w =>
        { b with worlds := Function.update b.worlds j w }

/-- **Everything a step can do.** -/
inductive Bus.Moves (L : ι → Libraries ρ) (b : Bus ι κ ρ) :
    BusAct ι κ ρ → Bus ι κ ρ → Prop where
  | publish {i : ι} {calls : SendCalls} {pub : ZmqPublisherBridge} {r : SendRequest}
      {m : DataMsg} {reaches : ι → Bool} {status : MamaStatus}
      (hSend : r.perform calls pub = .ok (some (m.wire.map some), status)) :
    b.Moves L (.publish i calls pub r m reaches) { b with net := b.net.publish i m reaches }
  | faults {i : ι} {calls : SendCalls} {pub : ZmqPublisherBridge} {r : SendRequest}
      {m : DataMsg} {reaches : ι → Bool} (hFault : ¬ Inside (r.perform calls pub)) :
    b.Moves L (.publish i calls pub r m reaches) { b with astray := true }
  | receive {i j : ι} {n : Nat} {m : DataMsg} {rest : List (Nat × DataMsg)} {w : World κ ρ}
      (hHead : b.net.wires i j = (n, m) :: rest)
      (hArrive : World.step (L j) (b.worlds j) (.arrive m) = some w) :
    b.Moves L (.receive i j)
      { b with worlds := Function.update b.worlds j w, net := b.net.take i j n rest true }
  | misread {i j : ι} {n : Nat} {m : DataMsg} {rest : List (Nat × DataMsg)}
      (hHead : b.net.wires i j = (n, m) :: rest) (hNot : ¬ m.Deliverable) :
    b.Moves L (.receive i j) { b with astray := true }
  | ignore {i j : ι} {n : Nat} {m : DataMsg} {rest : List (Nat × DataMsg)}
      (hHead : b.net.wires i j = (n, m) :: rest)
      (hFilter : subscribed (b.worlds j).dataSub m.wire = false) :
    b.Moves L (.receive i j) { b with net := b.net.take i j n rest false }
  | app {j : ι} {a : WorldAct κ ρ} {w : World κ ρ} (hNot : a.isArrive = false)
      (hStep : World.step (L j) (b.worlds j) a = some w) :
    b.Moves L (.app j a) { b with worlds := Function.update b.worlds j w }

section Step

variable {L : ι → Libraries ρ} {b b' : Bus ι κ ρ} {a : BusAct ι κ ρ}

theorem Bus.moves_of_step (h : Bus.step L b a = some b') : b.Moves L a b' := by
  unfold Bus.step at h
  split at h
  · cases h
  cases a with
  | publish i calls pub r m reaches =>
    dsimp only at h
    split at h
    · rename_i f hFault
      cases h
      refine .faults ?_
      rintro ⟨out, hOut⟩
      rw [hFault] at hOut
      cases hOut
    · rename_i zmsg status hSend
      split at h
      · rename_i hWire
        cases h
        exact .publish (hWire ▸ hSend)
      · cases h
  | receive i j =>
    dsimp only at h
    split at h
    · cases h
    · rename_i n m rest hHead
      split at h
      · split at h
        · obtain ⟨w, hArrive, rfl⟩ := Option.map_eq_some_iff.mp h
          exact .receive hHead hArrive
        · rename_i hNot
          cases h
          exact .misread hHead hNot
      · rename_i hFilter
        cases h
        exact .ignore hHead (Bool.eq_false_of_not_eq_true hFilter)
  | app j a =>
    dsimp only at h
    split at h
    · cases h
    · rename_i hNot
      obtain ⟨w, hStep, rfl⟩ := Option.map_eq_some_iff.mp h
      exact .app (Bool.eq_false_of_not_eq_true hNot) hStep

-- ---------------------------------------------------------------------------
-- The transports of a run
-- ---------------------------------------------------------------------------

/-- Transport `j` has made a run of its own, with as many creations as there were. -/
def Bus.RunsAlone (L : ι → Libraries ρ) (U : ι → Uuid)
    (queueMsgs : ι → κ → ZmqBridgeMsgImpl) (b : Bus ι κ ρ) (as : List (BusAct ι κ ρ))
    (j : ι) : Prop :=
  ∃ acts, run (World.step (L j)) (World.init (U j) (queueMsgs j)) acts = some (b.worlds j) ∧
    creations acts = creations (appActs j as)

variable {U : ι → Uuid} {queueMsgs : ι → κ → ZmqBridgeMsgImpl} {as : List (BusAct ι κ ρ)}

theorem Bus.RunsAlone.step {j : ι} (hs : b.RunsAlone L U queueMsgs as j)
    (h : Bus.step L b a = some b') : b'.RunsAlone L U queueMsgs (as ++ [a]) j := by
  obtain ⟨acts, hRun, hCount⟩ := hs
  unfold Bus.RunsAlone
  rw [appActs_snoc]
  cases Bus.moves_of_step h with
  | publish _ => exact ⟨acts, hRun, by simpa [appActs] using hCount⟩
  | faults _ => exact ⟨acts, hRun, by simpa [appActs] using hCount⟩
  | misread _ _ => exact ⟨acts, hRun, by simpa [appActs] using hCount⟩
  | ignore _ _ => exact ⟨acts, hRun, by simpa [appActs] using hCount⟩
  | @receive i j' n m rest w hHead hArrive =>
    by_cases hj : j' = j
    · subst hj
      refine ⟨acts ++ [.arrive m], ?_, ?_⟩
      · show _ = some (Function.update b.worlds j' w j')
        rw [Function.update_self]
        exact run_snoc_of hRun hArrive
      · rw [creations_snoc, hCount]
        simp [appActs, WorldAct.creates]
    · refine ⟨acts, ?_, by simpa [appActs] using hCount⟩
      show _ = some (Function.update b.worlds j' w j)
      rw [Function.update_of_ne (Ne.symm hj)]
      exact hRun
  | @app j' a w _ hStep =>
    by_cases hj : j' = j
    · subst hj
      refine ⟨acts ++ [a], ?_, ?_⟩
      · show _ = some (Function.update b.worlds j' w j')
        rw [Function.update_self]
        exact run_snoc_of hRun hStep
      · have hActs : appActs j' [BusAct.app j' a] = [a] := by simp [appActs]
        rw [hActs, creations_snoc, creations_snoc, hCount]
    · refine ⟨acts, ?_, by simpa [appActs, hj] using hCount⟩
      show _ = some (Function.update b.worlds j' w j)
      rw [Function.update_of_ne (Ne.symm hj)]
      exact hRun

theorem Bus.Inv.receive (hs : b.Inv as) {i j : ι} {n : Nat} {m : DataMsg}
    {rest : List (Nat × DataMsg)} {w : World κ ρ} (hWorld : (b.worlds j).Inv)
    (hHead : b.net.wires i j = (n, m) :: rest)
    (hArrive : World.step (L j) (b.worlds j) (.arrive m) = some w) :
    Bus.Inv
      { b with worlds := Function.update b.worlds j w, net := b.net.take i j n rest true } as := by
  obtain ⟨items, rfl, -⟩ := hWorld.step_arrive hArrive
  have hOld : ∀ (k : Nat) (i' : ι) (n' : Nat) (j' : ι),
      (b.net.received j')[k]? = some (i', n') →
      ∃ m', (b.net.published i')[n']? = some m' ∧
        (Function.update b.worlds j ((b.worlds j).enqueue m items) j').arrivals[k]? =
          some m' := by
    intro k i' n' j' hk
    obtain ⟨m', hm', hArrived⟩ := hs.origin j' k i' n' hk
    refine ⟨m', hm', ?_⟩
    by_cases hj : j' = j
    · subst hj
      rw [Function.update_self]
      exact getElem?_of_prefixed (List.prefix_append _ _) hArrived
    · rwa [Function.update_of_ne hj]
  refine ⟨hs.ordered.take hHead true, fun j' => ?_, fun j' k i' n' hk => ?_, hs.published⟩
  · by_cases hj : j' = j
    · subst hj
      simp [Wires.take, World.enqueue, hs.length j']
    · simpa [Wires.take, Function.update_of_ne hj] using hs.length j'
  · by_cases hj : j' = j
    · subst hj
      have hk' : (b.net.received j' ++ [(i, n)])[k]? = some (i', n') := by
        simpa [Wires.take] using hk
      rcases Nat.lt_or_ge k (b.net.received j').length with hLt | hGe
      · rw [List.getElem?_append_left hLt] at hk'
        exact hOld k i' n' j' hk'
      · -- the message that came in just now
        rw [List.getElem?_append_right hGe] at hk'
        obtain ⟨hZero, hPair⟩ := List.getElem?_eq_some_iff.mp hk'
        simp only [List.length_singleton] at hZero
        obtain rfl : k = (b.net.received j').length := by omega
        simp only [Nat.sub_self, List.getElem_cons_zero, Prod.mk.injEq] at hPair
        obtain ⟨rfl, rfl⟩ := hPair
        refine ⟨m, hs.ordered.wires i j' n m (by rw [hHead]; exact List.mem_cons_self), ?_⟩
        show (Function.update b.worlds j' _ j').arrivals[_]? = _
        rw [Function.update_self, hs.length j']
        exact List.getElem?_concat_length
    · exact hOld k i' n' j' (by simpa [Wires.take, Function.update_of_ne hj] using hk)

theorem Bus.Inv.app (hs : b.Inv as) {j : ι} {a : WorldAct κ ρ} {w : World κ ρ}
    (hNot : a.isArrive = false) (hStep : World.step (L j) (b.worlds j) a = some w) :
    Bus.Inv { b with worlds := Function.update b.worlds j w } as := by
  have hSame : w.arrivals = (b.worlds j).arrivals := by
    rcases (World.step_history hStep).1 with hEq | ⟨m, rfl, -⟩
    · exact hEq
    · cases hNot
  have hAll : ∀ j', (Function.update b.worlds j w j').arrivals = (b.worlds j').arrivals := by
    intro j'
    by_cases hj : j' = j
    · subst hj
      rw [Function.update_self, hSame]
    · rw [Function.update_of_ne hj]
  refine ⟨hs.ordered, fun j' => ?_, fun j' k i n hk => ?_, hs.published⟩
  · rw [hAll]
    exact hs.length j'
  · rw [hAll]
    exact hs.origin j' k i n hk

end Step

-- ---------------------------------------------------------------------------
-- Whole runs
-- ---------------------------------------------------------------------------

section Run

variable {L : ι → Libraries ρ} {U : ι → Uuid} {queueMsgs : ι → κ → ZmqBridgeMsgImpl}
  {as : List (BusAct ι κ ρ)} {b : Bus ι κ ρ}

theorem Bus.runsAlone (hRun : run (Bus.step L) (Bus.init U queueMsgs) as = some b) (j : ι) :
    b.RunsAlone L U queueMsgs as j :=
  run_induction (P := fun as b => b.RunsAlone L U queueMsgs as j) ⟨[], rfl, rfl⟩
    (fun _ _ _ _ _ hs h => hs.step h) hRun

theorem Bus.inv_run (hRun : run (Bus.step L) (Bus.init U queueMsgs) as = some b)
    (hBound : ∀ j, creations (appActs j as) < 2 ^ 64) : b.Inv as := by
  revert hBound
  refine run_induction (P := fun as b =>
    (∀ j, creations (appActs j as) < 2 ^ 64) → b.Inv as) (fun _ => Bus.inv_init U queueMsgs) ?_ hRun
  intro as b a b' hAs ih h hBound
  have hBefore : ∀ j, creations (appActs j as) < 2 ^ 64 := fun j =>
    Nat.lt_of_le_of_lt (creations_appActs_mono j (List.prefix_append _ _)) (hBound j)
  have hs := ih hBefore
  cases Bus.moves_of_step h with
  | publish hSend => exact hs.publish hSend
  | faults _ => exact hs.stray _
  | misread _ _ => exact hs.stray _
  | @receive i j n m rest w hHead hArrive =>
    obtain ⟨acts, hActs, hCount⟩ := Bus.runsAlone hAs j
    have hWorld := (World.inv_run hActs (hCount ▸ hBefore j)).1
    exact (hs.receive hWorld hHead hArrive).snoc _
  | ignore hHead _ => exact (hs.ignore hHead).snoc _
  | app hNot hStep => exact (hs.app hNot hStep).snoc _

/-- **Nothing goes astray** if publishers are sound: what is on the wires was published. -/
theorem Bus.not_astray (hRun : run (Bus.step L) (Bus.init U queueMsgs) as = some b)
    (hBound : ∀ j, creations (appActs j as) < 2 ^ 64) (hSound : ∀ a ∈ as, a.Sound) :
    b.astray = false := by
  revert hBound hSound
  refine run_induction (P := fun as b => (∀ j, creations (appActs j as) < 2 ^ 64) →
    (∀ a ∈ as, a.Sound) → b.astray = false) (fun _ _ => rfl) ?_ hRun
  intro as b a b' hAs ih h hBound hSound
  have hBefore : ∀ j, creations (appActs j as) < 2 ^ 64 := fun j =>
    Nat.lt_of_le_of_lt (creations_appActs_mono j (List.prefix_append _ _)) (hBound j)
  have hOld : ∀ a ∈ as, a.Sound := fun a ha => hSound a (List.mem_append_left _ ha)
  have hNow : a.Sound := hSound a (List.mem_append_right _ (List.mem_singleton_self a))
  cases Bus.moves_of_step h with
  | publish _ => exact ih hBefore hOld
  | receive _ _ => exact ih hBefore hOld
  | ignore _ _ => exact ih hBefore hOld
  | app _ _ => exact ih hBefore hOld
  | faults hFault => exact absurd hNow.1 hFault
  | @misread i j n m rest hHead hNot =>
    have hInv := Bus.inv_run hAs hBefore
    have hWire := hInv.ordered.wires i j n m (by rw [hHead]; exact List.mem_cons_self)
    obtain ⟨calls, pub, r, reaches, status, hMem, -⟩ :=
      hInv.published i m (List.mem_of_getElem? hWire)
    exact absurd (hOld _ hMem).2 hNot

/-- The worlds of a run are in order. -/
theorem Bus.world_inv (hRun : run (Bus.step L) (Bus.init U queueMsgs) as = some b)
    (hBound : ∀ j, creations (appActs j as) < 2 ^ 64) (j : ι) :
    (b.worlds j).Inv ∧ (b.worlds j).made.length = creations (appActs j as) := by
  obtain ⟨acts, hActs, hCount⟩ := Bus.runsAlone hRun j
  rw [← hCount]
  exact World.inv_run hActs (hCount ▸ hBound j)

-- ---------------------------------------------------------------------------
-- Order and origin
-- ---------------------------------------------------------------------------

omit [DecidableEq ι] [DecidableEq κ] in
/-- Sender and number of the messages record `h` of transport `j` was called with. -/
def Bus.calledWith (b : Bus ι κ ρ) (j : ι) (h : Nat) : List (ι × Nat) :=
  ((b.worlds j).callsOf h).filterMap fun k => (b.net.received j)[k]?

/-- The message is under the topic of the record: the key of a regular subscription, the
reply handle of an inbox, or something that begins with the key of a wildcard. -/
def Made.Covers (r : Made κ) (m : DataMsg) : Prop :=
  if r.callback = .wildcard then r.topic <+: m.subject else r.topic = m.subject

/-- A record is only called with what its topic covers. -/
theorem World.CallOrigin.covers {M : Libraries ρ} {w₀ w : World κ ρ}
    {acts : List (WorldAct κ ρ)} {c : Call} (o : World.CallOrigin M w₀ acts w c) :
    o.record.Covers o.m := by
  have hReg := o.inv_arriving.registry
  unfold Made.Covers
  rcases o.queues with ⟨-, s, hs, hEq, hMatch, -⟩ | ⟨-, i, hi, hEq, -⟩
  · rw [hReg.made_of_sub o.made_eq hs hEq]
    unfold ZmqSubscription.Matches at hMatch
    unfold ZmqSubscription.made ZmqSubscription.callback ZmqSubscription.mIsWildcard
    cases hRegex : s.mCompRegex with
    | none =>
      rw [hRegex] at hMatch
      simpa using hMatch
    | some regex =>
      rw [hRegex] at hMatch
      simpa using hMatch.1
  · have hRecord := hReg.made_of_inbox o.made_eq hi hEq
    have hCb : o.record.callback = .inbox := by
      rw [hRecord]
      rfl
    rw [hCb, if_neg (by decide)]
    exact Made.topic_of_wants hCb o.wants

/--
**Only what was published, and in order.** Any number of transports, with fewer than 2^64
creations each, in every interleaving of publishers, wires, applications, dispatch threads
and queues, whatever the network drops, as long as the publishers are sound: their calls make
no invalid access, what they send has a reply handle of at most 60 bytes, and it is a reply if
it is under an inbox subject. At every transport no access is invalid, and every call of a
subscription's or inbox's callback goes back to a message that a publisher of some transport
sent under a subject the record's topic covers, and hands over its payload if the message has
less than 2^31 bytes; of the messages of one transport, a record is called with each at most
once and in the order they were published in.
-/
theorem bus_in_order (hRun : run (Bus.step L) (Bus.init U queueMsgs) as = some b)
    (hBound : ∀ j, creations (appActs j as) < 2 ^ 64) (hSound : ∀ a ∈ as, a.Sound) (j : ι) :
    b.astray = false ∧ (b.worlds j).faulted = false ∧
    (∀ c ∈ (b.worlds j).calls, ∃ i n m record,
      (b.net.received j)[c.arrival]? = some (i, n) ∧ (b.net.published i)[n]? = some m ∧
      (∃ calls pub r reaches status, .publish i calls pub r m reaches ∈ as ∧
        r.perform calls pub = .ok (some (m.wire.map some), status)) ∧
      (b.worlds j).made[c.target]? = some record ∧ record.Covers m ∧
      (m.wire.length < 2 ^ 31 → c.payload = m.payload)) ∧
    ∀ h i, (numbersOf i (b.calledWith j h)).Pairwise (· < ·) := by
  have hInv := Bus.inv_run hRun hBound
  have hWorld := (Bus.world_inv hRun hBound j).1
  obtain ⟨acts, hActs, hCount⟩ := Bus.runsAlone hRun j
  have hBound' : creations acts < 2 ^ 64 := hCount ▸ hBound j
  refine ⟨Bus.not_astray hRun hBound hSound, hWorld.notFaulted, fun c hc => ?_, fun h i => ?_⟩
  · obtain ⟨o⟩ := World.call_origin hActs hBound' hc
    have hLt : c.arrival < (b.net.received j).length := by
      rw [hInv.length j]
      exact (List.getElem?_eq_some_iff.mp o.arrived).1
    obtain ⟨m, hm, hArrived⟩ := hInv.origin j c.arrival _ _ (List.getElem?_eq_getElem hLt)
    obtain rfl : o.m = m := Option.some.inj (o.arrived.symm.trans hArrived)
    exact ⟨_, _, o.m, o.record, List.getElem?_eq_getElem hLt, hm,
      hInv.published _ o.m (List.mem_of_getElem? hm),
      getElem?_of_prefixed o.extends_arriving.made o.made_eq, o.covers,
      fun hSize => hWorld.payload_eq hc hArrived hSize⟩
  · exact hInv.ordered.picked i j
      (List.pairwise_append.mp (World.calls_ordered hActs hBound' h)).1

end Run

/-- A publisher with the subject `B`, and calls that succeed for the payload of
`publishB`. -/
def publisherB : ZmqPublisherBridge where
  mSubject := some [0x42]
  mSubject_nulFree := by decide

def callsB : SendCalls where
  getByteBuffer := .ok [9]
  initSize := true
  send := true
  updateString := fun _ _ => .ok
  stack := MamaMsgImpl.createMsgOnly

/-- One transport subscribes to `B`, the other one publishes twice, and only the second
message finds the socket subscribed. -/
def publishTwice : List (BusAct Bool Unit Unit) :=
  let publish := BusAct.publish false callsB publisherB .send publishB fun _ => true
  [publish, publish, .receive false true, .app true (.create keyB ()),
    .app true .dispatchControl, .receive false true, .app true (.runQueue ())]

def twoTransports : Bus Bool Unit Unit :=
  .init (fun i => if i then uuidA else uuidB) fun _ _ => MamaMsgImpl.createMsgOnly

theorem bus_in_order_publishTwice :
    ∃ b, run (Bus.step fun _ => acceptAll) twoTransports publishTwice = some b ∧
      b.calledWith true 0 = [(false, 1)] ∧ (b.worlds true).faulted = false ∧
      (numbersOf false (b.calledWith true 0)).Pairwise (· < ·) := by
  have hRun : run (Bus.step fun _ => acceptAll) twoTransports publishTwice = some _ := rfl
  have hSound : ∀ a ∈ publishTwice, a.Sound := by
    intro a ha
    simp only [publishTwice, List.mem_cons, List.not_mem_nil, or_false] at ha
    rcases ha with rfl | rfl | rfl | rfl | rfl | rfl | rfl
    · exact ⟨⟨_, rfl⟩, by decide⟩
    · exact ⟨⟨_, rfl⟩, by decide⟩
    all_goals trivial
  obtain ⟨-, hFault, -, hOrder⟩ := bus_in_order hRun (by decide) hSound true
  exact ⟨_, hRun, rfl, hFault, hOrder 0 false⟩

-- ---------------------------------------------------------------------------
-- Delivery
-- ---------------------------------------------------------------------------

section Delivery

variable {L : ι → Libraries ρ} {U : ι → Uuid} {queueMsgs : ι → κ → ZmqBridgeMsgImpl}
  {as : List (BusAct ι κ ρ)} {b : Bus ι κ ρ}

/-- The mailbox of every transport, seen from the bus. -/
theorem Bus.simulates (hBound : ∀ j, creations (appActs j as) < 2 ^ 64) (j : ι) :
    Mailbox.Simulates (Bus.step L) (fun b => (b.worlds j).abs) (Bus.init U queueMsgs) as := by
  rintro pre a post b b' rfl hPre h
  have hSnoc : ∀ j, creations (appActs j (pre ++ [a])) < 2 ^ 64 := fun j =>
    Nat.lt_of_le_of_lt (creations_appActs_mono j ⟨post, by simp⟩) (hBound j)
  have hInit : ∀ j, creations (appActs j pre) < 2 ^ 64 := fun j =>
    Nat.lt_of_le_of_lt (creations_appActs_mono j (List.prefix_append _ _)) (hBound j)
  -- a step of another transport, or of none
  have hOther {j' : ι} {w : World κ ρ} (hj : j' ≠ j) :
      Mailbox.Step (b.worlds j).abs (Function.update b.worlds j' w j).abs := by
    rw [Function.update_of_ne (Ne.symm hj)]
    exact .idle
  cases Bus.moves_of_step h with
  | publish _ => exact .idle
  | faults _ => exact .idle
  | misread _ _ => exact .idle
  | ignore _ _ => exact .idle
  | @receive i j' n m rest w hHead hArrive =>
    by_cases hj : j' = j
    · subst hj
      show Mailbox.Step _ (Function.update b.worlds j' w j').abs
      rw [Function.update_self]
      exact ((Bus.world_inv hPre hInit j').1.step (fun hC => by cases hC) hArrive).1.2
    · exact hOther hj
  | @app j' a w hNot hStep =>
    by_cases hj : j' = j
    · subst hj
      show Mailbox.Step _ (Function.update b.worlds j' w j').abs
      rw [Function.update_self]
      obtain ⟨hInv, hLen⟩ := Bus.world_inv hPre hInit j'
      refine (hInv.step (fun hC => ?_) hStep).1.2
      have hLt := hSnoc j'
      have hActs : appActs j' [BusAct.app (ι := ι) j' a] = [a] := by simp [appActs]
      rw [appActs_snoc, hActs, creations_snoc, if_pos hC] at hLt
      omega
    · exact hOther hj

end Delivery

end ZmqBridge
