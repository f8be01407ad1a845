import ZmqBridge.Lib.Run
import ZmqBridge.Data.Registry

/-!
# ZmqBridge — serials and reply handles

Any number of threads call `zmqBridge_generateSerial` on one counter. A call is two
steps: the atomic increment, whose result is kept in a `long long`, and the printing
of that variable with `%016llx`. Between them other threads may take any steps. A
reply handle is the inbox subject of its transport, a dot and a serial.

* `printSerial_generateSerial` — the two steps together are `generateSerial`: printing
  the signed variable gives the digits of the unsigned counter;
* `SerialCalls.Inv`            — what holds after `n` increments, kept by every step;
* `serialCalls_unique`         — the strings that are returned in a run;
* `serials_and_handles`        — serials are distinct, handles can be taken apart.
-/

namespace ZmqBridge

open Lib

variable {ι κ ρ : Type}

-- ---------------------------------------------------------------------------
-- Calls on one counter
-- ---------------------------------------------------------------------------

/-- The variable `next`: the counter as a `long long`. -/
def asLongLong (n : Nat) : Int := (n : Int).bmod (2 ^ 64)

/-- `%016llx` prints the bits of a `long long` as an unsigned number. -/
def printSerial (next : Int) : List Byte :=
  hexDigits zmqReplyHandleInboxNameSize (next % 2 ^ 64).toNat

/-- A counter and the calls of `zmqBridge_generateSerial` on it: `next` is the variable
of a thread that is between its two steps, `returned` what was returned so far. -/
structure SerialCalls (ι : Type) where
  id : Nat
  next : ι → Option Int
  returned : List (ι × List Byte)

def SerialCalls.start (id : Nat) : SerialCalls ι := ⟨id, fun _ => none, []⟩

inductive SerialAct (ι : Type) where
  /-- `next = __sync_add_and_fetch(id, 1)` -/
  | increment (t : ι)
  /-- `sprintf`, `strdup` and the return -/
  | print (t : ι)
  deriving DecidableEq

def SerialAct.isIncrement : SerialAct ι → Bool
  | .increment _ => true
  | .print _ => false

/-- The calls that were begun. -/
def callsBegun (as : List (SerialAct ι)) : Nat := as.countP SerialAct.isIncrement

/-- The calls that have returned. -/
def callsEnded (as : List (SerialAct ι)) : Nat := as.countP fun a => !a.isIncrement

def SerialCalls.step [DecidableEq ι] (s : SerialCalls ι) : SerialAct ι → Option (SerialCalls ι)
  | .increment t =>
    match s.next t with
    | some _ => none
    | none =>
      let id := (generateSerial s.id).1
      some { s with id, next := Function.update s.next t (some (asLongLong id)) }
  | .print t =>
    match s.next t with
    | none => none
    | some next => some { s with
        next := Function.update s.next t none
        returned := s.returned ++ [(t, printSerial next)] }

/-- The signed variable has the digits of the counter. -/
theorem printSerial_asLongLong {n : Nat} (h : n < 2 ^ 64) :
    printSerial (asLongLong n) = serial n := by
  have hBits : asLongLong n % 2 ^ 64 = n := by
    have hMod : asLongLong n % ((2 ^ 64 : Nat) : Int) = _ := Int.bmod_emod
    push_cast at hMod
    omega
  rw [printSerial, hBits, Int.toNat_natCast]
  rfl

/-- **The two steps are the function.** -/
theorem printSerial_generateSerial (id : Nat) :
    printSerial (asLongLong (generateSerial id).1) = (generateSerial id).2 :=
  printSerial_asLongLong (Nat.mod_lt _ (by decide))

-- ---------------------------------------------------------------------------
-- The invariant
-- ---------------------------------------------------------------------------

/-- The counter after the `k`-th increment. -/
def counterAt (id k : Nat) : Nat := (id + k) % 2 ^ 64

theorem counterAt_lt (id k : Nat) : counterAt id k < 2 ^ 64 := Nat.mod_lt _ (by decide)

/-- Less than `2 ^ 64` increments give different values, from wherever they start. -/
theorem counterAt_injective {id j k : Nat} (hj : j < 2 ^ 64) (hk : k < 2 ^ 64)
    (h : counterAt id j = counterAt id k) : j = k := by
  unfold counterAt at h
  omega

theorem serial_counterAt_injective {id j k : Nat} (hj : j < 2 ^ 64) (hk : k < 2 ^ 64)
    (h : serial (counterAt id j) = serial (counterAt id k)) : j = k :=
  counterAt_injective hj hk (serial_injective (counterAt_lt id j) (counterAt_lt id k) h)

/-- After `n` increments of a counter that started at `id`. -/
structure SerialCalls.Inv (id n : Nat) (s : SerialCalls ι) : Prop where
  counter : s.id % 2 ^ 64 = counterAt id n
  /-- A thread between its two steps has the result of some increment. -/
  held : ∀ t z, s.next t = some z → ∃ k < n, z = asLongLong (counterAt id (k + 1))
  /-- No two threads have the result of the same one. -/
  held_unique : ∀ t t' z, s.next t = some z → s.next t' = some z → t = t'
  returned : ∀ r ∈ s.returned, ∃ k < n, r.2 = serial (counterAt id (k + 1))
  /-- What a thread is going to return was not returned before. -/
  held_fresh : ∀ t z, s.next t = some z → ∀ r ∈ s.returned, r.2 ≠ printSerial z
  nodup : (s.returned.map Prod.snd).Nodup

theorem SerialCalls.inv_start (id : Nat) :
    SerialCalls.Inv id 0 (SerialCalls.start id : SerialCalls ι) where
  counter := rfl
  held t z h := by cases h
  held_unique t t' z h := by cases h
  returned r hr := by cases hr
  held_fresh t z h := by cases h
  nodup := List.nodup_nil

section Steps

variable [DecidableEq ι] {id n : Nat} {s s' : SerialCalls ι}

theorem SerialCalls.step_increment {t : ι} (h : s.step (.increment t) = some s') :
    s.next t = none ∧ s' = { s with
      id := (generateSerial s.id).1
      next := Function.update s.next t (some (asLongLong (generateSerial s.id).1)) } := by
  cases hNext : s.next t with
  | some z =>
    simp only [SerialCalls.step, hNext] at h
    cases h
  | none =>
    simp only [SerialCalls.step, hNext] at h
    exact ⟨rfl, (Option.some.inj h).symm⟩

theorem SerialCalls.step_print {t : ι} (h : s.step (.print t) = some s') :
    ∃ z, s.next t = some z ∧ s' = { s with
      next := Function.update s.next t none
      returned := s.returned ++ [(t, printSerial z)] } := by
  cases hNext : s.next t with
  | none =>
    simp only [SerialCalls.step, hNext] at h
    cases h
  | some z =>
    simp only [SerialCalls.step, hNext] at h
    exact ⟨z, rfl, (Option.some.inj h).symm⟩

/-- The increment gives a value that no thread has and that was not printed. -/
theorem SerialCalls.Inv.increment (hInv : s.Inv id n) (hn : n + 1 < 2 ^ 64) {t : ι}
    (h : s.step (.increment t) = some s') : s'.Inv id (n + 1) := by
  obtain ⟨-, rfl⟩ := SerialCalls.step_increment h
  have hCounter : (generateSerial s.id).1 = counterAt id (n + 1) := by
    have hOld := hInv.counter
    unfold counterAt at hOld ⊢
    show (s.id + 1) % 2 ^ 64 = _
    omega
  have hText : printSerial (asLongLong (counterAt id (n + 1))) = serial (counterAt id (n + 1)) :=
    printSerial_asLongLong (counterAt_lt id (n + 1))
  have hNew : ∀ k < n, serial (counterAt id (k + 1)) ≠ serial (counterAt id (n + 1)) := by
    intro k hk hEq
    have hIndex := serial_counterAt_injective (by omega) hn hEq
    omega
  have hNewValue : ∀ t', s.next t' ≠ some (asLongLong (counterAt id (n + 1))) := by
    intro t' hNext
    obtain ⟨k, hk, hEq⟩ := hInv.held t' _ hNext
    refine hNew k hk ?_
    rw [← hText, hEq, printSerial_asLongLong (counterAt_lt id (k + 1))]
  rw [hCounter]
  -- the thread itself, or one that was between its steps before
  have hCases : ∀ t' z, Function.update s.next t (some (asLongLong (counterAt id (n + 1)))) t' =
      some z → t' = t ∧ z = asLongLong (counterAt id (n + 1)) ∨ t' ≠ t ∧ s.next t' = some z := by
    intro t' z hNext
    by_cases hEq : t' = t
    · subst hEq
      rw [Function.update_self] at hNext
      exact Or.inl ⟨rfl, (Option.some.inj hNext).symm⟩
    · rw [Function.update_of_ne hEq] at hNext
      exact Or.inr ⟨hEq, hNext⟩
  constructor
  case counter => exact Nat.mod_eq_of_lt (counterAt_lt id (n + 1))
  case held =>
    intro t' z hNext
    obtain ⟨-, hz⟩ | ⟨-, hOld⟩ := hCases t' z hNext
    · exact ⟨n, Nat.lt_succ_self n, hz⟩
    · obtain ⟨k, hk, hEq⟩ := hInv.held t' z hOld
      exact ⟨k, Nat.lt_succ_of_lt hk, hEq⟩
  case held_unique =>
    intro t₁ t₂ z h₁ h₂
    obtain ⟨hEq₁, hz⟩ | ⟨-, hOld₁⟩ := hCases t₁ z h₁
    · obtain ⟨hEq₂, -⟩ | ⟨-, hOld₂⟩ := hCases t₂ z h₂
      · exact hEq₁.trans hEq₂.symm
      · exact absurd (hz ▸ hOld₂) (hNewValue t₂)
    · obtain ⟨-, hz⟩ | ⟨-, hOld₂⟩ := hCases t₂ z h₂
      · exact absurd (hz ▸ hOld₁) (hNewValue t₁)
      · exact hInv.held_unique t₁ t₂ z hOld₁ hOld₂
  case returned =>
    intro r hr
    obtain ⟨k, hk, hEq⟩ := hInv.returned r hr
    exact ⟨k, Nat.lt_succ_of_lt hk, hEq⟩
  case held_fresh =>
    intro t' z hNext r hr
    obtain ⟨-, hz⟩ | ⟨-, hOld⟩ := hCases t' z hNext
    · obtain ⟨k, hk, hEq⟩ := hInv.returned r hr
      rw [hz, hText, hEq]
      exact hNew k hk
    · exact hInv.held_fresh t' z hOld r hr
  case nodup => exact hInv.nodup

/-- The printed value was not printed before, and no other thread has it. -/
theorem SerialCalls.Inv.print (hInv : s.Inv id n) {t : ι}
    (h : s.step (.print t) = some s') : s'.Inv id n := by
  obtain ⟨z, hz, rfl⟩ := SerialCalls.step_print h
  obtain ⟨k, hk, hk'⟩ := hInv.held t z hz
  have hCases : ∀ t' z', Function.update s.next t none t' = some z' →
      t' ≠ t ∧ s.next t' = some z' := by
    intro t' z' hNext
    by_cases hEq : t' = t
    · subst hEq
      rw [Function.update_self] at hNext
      cases hNext
    · rw [Function.update_of_ne hEq] at hNext
      exact ⟨hEq, hNext⟩
  constructor
  case counter => exact hInv.counter
  case held => exact fun t' z' hNext => hInv.held t' z' (hCases t' z' hNext).2
  case held_unique =>
    exact fun t₁ t₂ z' h₁ h₂ => hInv.held_unique t₁ t₂ z' (hCases t₁ z' h₁).2 (hCases t₂ z' h₂).2
  case returned =>
    intro r hr
    rcases List.mem_append.mp hr with hOld | hLast
    · exact hInv.returned r hOld
    · rw [List.mem_singleton.mp hLast]
      refine ⟨k, hk, ?_⟩
      show printSerial z = _
      rw [hk', printSerial_asLongLong (counterAt_lt id (k + 1))]
  case held_fresh =>
    intro t' z' hNext r hr
    obtain ⟨hNe, hOld⟩ := hCases t' z' hNext
    rcases List.mem_append.mp hr with hBefore | hLast
    · exact hInv.held_fresh t' z' hOld r hBefore
    · rw [List.mem_singleton.mp hLast]
      -- the same digits come from the same increment, which one thread made
      intro hSame
      obtain ⟨j, hj, hj'⟩ := hInv.held t' z' hOld
      have hDigits : serial (counterAt id (k + 1)) = serial (counterAt id (j + 1)) := by
        rw [← printSerial_asLongLong (counterAt_lt id (k + 1)),
          ← printSerial_asLongLong (counterAt_lt id (j + 1)), ← hk', ← hj']
        exact hSame
      have hValue := serial_injective (counterAt_lt id (k + 1)) (counterAt_lt id (j + 1)) hDigits
      have hz' : z = z' := by rw [hk', hj', hValue]
      exact hNe (hInv.held_unique t' t z' hOld (hz' ▸ hz))
  case nodup =>
    rw [List.map_append, List.nodup_append]
    refine ⟨hInv.nodup, List.nodup_singleton _, ?_⟩
    intro text hText last hLast
    obtain ⟨r, hr, rfl⟩ := List.mem_map.mp hText
    rw [List.mem_singleton.mp hLast]
    exact hInv.held_fresh t z hz r hr

/-- **What holds after a run**, as long as less than `2 ^ 64` calls were begun. -/
theorem SerialCalls.inv_of_run {as : List (SerialAct ι)}
    (hRun : run SerialCalls.step (SerialCalls.start id) as = some s)
    (hCalls : callsBegun as < 2 ^ 64) : s.Inv id (callsBegun as) := by
  refine run_induction (P := fun as s => callsBegun as < 2 ^ 64 →
    SerialCalls.Inv id (callsBegun as) s) (fun _ => SerialCalls.inv_start id) ?_ hRun hCalls
  intro as s a s' _ ih hStep
  cases a with
  | increment t =>
    have hCount : callsBegun (as ++ [.increment t]) = callsBegun as + 1 :=
      List.countP_append
    rw [hCount]
    intro hCalls
    exact (ih (by omega)).increment hCalls hStep
  | print t =>
    have hCount : callsBegun (as ++ [.print t]) = callsBegun as := List.countP_append
    rw [hCount]
    intro hCalls
    exact (ih hCalls).print hStep

theorem SerialCalls.length_returned {as : List (SerialAct ι)}
    (hRun : run SerialCalls.step (SerialCalls.start id) as = some s) :
    s.returned.length = callsEnded as := by
  refine run_induction (P := fun as (s : SerialCalls ι) => s.returned.length = callsEnded as)
    rfl ?_ hRun
  intro as s a s' _ ih hStep
  cases a with
  | increment t =>
    obtain ⟨-, rfl⟩ := SerialCalls.step_increment hStep
    have hCount : callsEnded (as ++ [.increment t]) = callsEnded as := List.countP_append
    rw [hCount]
    exact ih
  | print t =>
    obtain ⟨z, -, rfl⟩ := SerialCalls.step_print hStep
    have hCount : callsEnded (as ++ [.print t]) = callsEnded as + 1 := List.countP_append
    rw [hCount, List.length_append, ih, List.length_singleton]

end Steps

/-- Every call that ended has returned a string of sixteen characters, no two the same. -/
structure SerialCalls.Unique (s : SerialCalls ι) (as : List (SerialAct ι)) : Prop where
  count : s.returned.length = callsEnded as
  distinct : (s.returned.map Prod.snd).Nodup
  width : ∀ r ∈ s.returned, r.2.length = 16

theorem serialCalls_unique [DecidableEq ι] {id : Nat} {as : List (SerialAct ι)}
    {s : SerialCalls ι} (hRun : run SerialCalls.step (SerialCalls.start id) as = some s)
    (hCalls : callsBegun as < 2 ^ 64) : s.Unique as := by
  have hInv := SerialCalls.inv_of_run hRun hCalls
  refine ⟨SerialCalls.length_returned hRun, hInv.nodup, ?_⟩
  intro r hr
  obtain ⟨k, -, hText⟩ := hInv.returned r hr
  rw [hText]
  exact serial_length _

-- ---------------------------------------------------------------------------
-- Reply handles
-- ---------------------------------------------------------------------------

/-- `createByIndex` makes this inbox. -/
def Inbox.Creates (impl : DataTransport κ ρ) (handle : Nat) (queue : κ)
    (inbox : ZmqInboxImpl κ) : Prop :=
  (Inbox.createByIndex impl handle queue).inboxes = impl.inboxes ++ [inbox]

section Handles

variable {impl impl' : DataTransport κ ρ} {handle handle' : Nat} {queue queue' : κ}
  {inbox inbox' : ZmqInboxImpl κ}

theorem Inbox.Creates.replyHandle_eq (h : Inbox.Creates impl handle queue inbox) :
    inbox.mReplyHandle = impl.mInboxSubject ++ dot :: (generateSerial impl.mInboxUid).2 := by
  have hLast := List.append_cancel_left h
  rw [← (List.cons.inj hLast).1]
  rfl

/-- What a reply handle is made of. -/
structure DataTransport.Decomposes (impl : DataTransport κ ρ) (replyHandle : List Byte) :
    Prop where
  length_eq : replyHandle.length = 60
  begins : impl.mInboxSubject <+: replyHandle
  drop_eq : replyHandle.drop zmqReplyHandleInboxNameIndex = (generateSerial impl.mInboxUid).2

theorem Inbox.Creates.decomposes (h : Inbox.Creates impl handle queue inbox) :
    impl.Decomposes inbox.mReplyHandle := by
  rw [h.replyHandle_eq]
  refine ⟨?_, List.prefix_append _ _, impl.drop_replyHandle _⟩
  have hSerial : (generateSerial impl.mInboxUid).2.length = zmqReplyHandleInboxNameSize :=
    serial_length _
  rw [List.length_append, impl.mInboxSubject_length, List.length_cons, hSerial]
  rfl

/-- An inbox subject in front of a handle is the one of its transport. -/
theorem Inbox.Creates.uuid_of_begins (h : Inbox.Creates impl' handle queue inbox)
    (hBegins : impl.mInboxSubject <+: inbox.mReplyHandle) :
    impl.mUuid.bytes = impl'.mUuid.bytes := by
  have hLen : impl.mInboxSubject.length = impl'.mInboxSubject.length := by
    rw [impl.mInboxSubject_length, impl'.mInboxSubject_length]
  have hSubject : impl.mInboxSubject = impl'.mInboxSubject :=
    (List.prefix_of_prefix_length_le hBegins h.decomposes.begins hLen.le).eq_of_length hLen
  exact (List.cons.inj (List.append_cancel_left hSubject)).2

theorem Inbox.Creates.eq_parts (h : Inbox.Creates impl handle queue inbox)
    (h' : Inbox.Creates impl' handle' queue' inbox')
    (hEq : inbox.mReplyHandle = inbox'.mReplyHandle) :
    impl.mUuid.bytes = impl'.mUuid.bytes ∧
      (generateSerial impl.mInboxUid).2 = (generateSerial impl'.mInboxUid).2 := by
  refine ⟨h'.uuid_of_begins (hEq ▸ h.decomposes.begins), ?_⟩
  rw [← h.decomposes.drop_eq, ← h'.decomposes.drop_eq, hEq]

end Handles

/-- **Reply handles can be taken apart**: `createByIndex` always makes an inbox, whose
handle has sixty characters, begins with the inbox subject of its transport and ends
with the serial; two handles are the same only if uuid and serial are; and no inbox
subject is the beginning of a handle of another transport. -/
structure HandlesDecompose (κ ρ : Type) : Prop where
  creates : ∀ (impl : DataTransport κ ρ) (handle : Nat) (queue : κ),
    ∃ inbox, Inbox.Creates impl handle queue inbox ∧ impl.Decomposes inbox.mReplyHandle
  injective : ∀ (impl impl' : DataTransport κ ρ) (handle handle' : Nat) (queue queue' : κ)
    (inbox inbox' : ZmqInboxImpl κ), Inbox.Creates impl handle queue inbox →
    Inbox.Creates impl' handle' queue' inbox' → inbox.mReplyHandle = inbox'.mReplyHandle →
    impl.mUuid.bytes = impl'.mUuid.bytes ∧
      (generateSerial impl.mInboxUid).2 = (generateSerial impl'.mInboxUid).2
  separate : ∀ (impl impl' : DataTransport κ ρ) (handle : Nat) (queue : κ)
    (inbox : ZmqInboxImpl κ), Inbox.Creates impl' handle queue inbox →
    impl.mUuid.bytes ≠ impl'.mUuid.bytes → ¬ impl.mInboxSubject <+: inbox.mReplyHandle

theorem handlesDecompose : HandlesDecompose κ ρ where
  creates impl handle queue := by
    have hMade : Inbox.Creates impl handle queue
        ⟨handle, impl.mInboxSubject ++ dot :: (generateSerial impl.mInboxUid).2, queue⟩ := rfl
    exact ⟨_, hMade, hMade.decomposes⟩
  injective _ _ _ _ _ _ _ _ h h' hEq := h.eq_parts h' hEq
  separate _ _ _ _ _ h hNe hBegins := hNe (h.uuid_of_begins hBegins)

/--
**Serials are unique, reply handles can be taken apart.** Whatever the counter starts
with and however the calls of any number of threads are interleaved, less than `2 ^ 64`
calls of `zmqBridge_generateSerial` on one counter return strings of sixteen characters,
no two the same. And for every uuid and every serial a reply handle has sixty
characters, of which the first are the inbox subject of the transport and the last the
serial; it determines both, and no inbox subject of another transport is in front.
-/
theorem serials_and_handles [DecidableEq ι] {id : Nat} {as : List (SerialAct ι)}
    {s : SerialCalls ι} (hRun : run SerialCalls.step (SerialCalls.start id) as = some s)
    (hCalls : callsBegun as < 2 ^ 64) : s.Unique as ∧ HandlesDecompose κ ρ :=
  ⟨serialCalls_unique hRun hCalls, handlesDecompose⟩

/-- Two threads whose calls overlap, on a counter that wraps around. -/
def overlappingCalls : List (SerialAct Bool) :=
  [.increment true, .increment false, .print false, .print true]

theorem serials_and_handles_overlapping :
    ∃ s, run SerialCalls.step (SerialCalls.start (2 ^ 64 - 1)) overlappingCalls = some s ∧
      s.returned = [(false, serial 1), (true, serial 0)] ∧ s.Unique overlappingCalls ∧
      HandlesDecompose Unit Unit := by
  have hExists : ∃ s, run SerialCalls.step (SerialCalls.start (2 ^ 64 - 1)) overlappingCalls =
      some s ∧ s.returned = [(false, serial 1), (true, serial 0)] :=
    exists_run (by decide +kernel)
  obtain ⟨s, hRun, hReturned⟩ := hExists
  exact ⟨s, hRun, hReturned, serials_and_handles hRun (by decide)⟩

end ZmqBridge
