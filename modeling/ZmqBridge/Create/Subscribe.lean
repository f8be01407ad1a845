import ZmqBridge.Data.World
import ZmqBridge.Subject.Key
import ZmqBridge.Model.Wildcard

/-!
# ZmqBridge — what a failed subscription leaves behind

A subscription is registered at its transport before the control message is sent
that subscribes at the data socket, and sending it is the last step that can fail.

* `SubscribeCalls.Returns`, `WildcardCalls.Returns` — a call makes no invalid access;
* `SubscribeCalls.Registers`, `WildcardCalls.Registers` — a call gets as far as the
  registration;
* `failed_subscription_unchanged_iff` — a call returns, and leaves the registries as they
  were if it fails, if and only if it makes no invalid access, and does not get as far as
  the registration or the message can be sent;
* `failed_subscription_receives` — a message is queued for a subscription that was
  never handed out.
-/

namespace ZmqBridge

open Lib

variable {κ ρ : Type}

/-- **A call that fails changes nothing**: it returns, and if not with success, the same
subscriptions are registered as before. -/
def KeepsRegistries (impl : DataTransport κ ρ)
    (out : Except Fault (DataTransport κ ρ × List ZmqControlMsg × MamaStatus)) : Prop :=
  ∃ impl' sent status, out = .ok (impl', sent, status) ∧ (status ≠ .ok →
    impl'.mSubEndpoints = impl.mSubEndpoints ∧ impl'.mWcEndpoints = impl.mWcEndpoints)

/-- The subject key of a subscription. -/
def makeKey (stack : CharArray (maxSubjectLength + 1)) (source symbol : Option (List Byte))
    (strdupKey : Bool) : Except Fault SubjectKey := do
  let (keyTarget, _) ← SubscriptionImpl.generateSubjectKey stack none source symbol strdupKey
  subjectKeyOf keyTarget

/-- With a record, the key can be made. -/
def SubscribeCalls.Returns (calls : SubscribeCalls) (source symbol : Option (List Byte)) :
    Prop :=
  calls.allocate = true → ∃ key, makeKey calls.stack source symbol calls.strdupKey = .ok key

/-- With a record and copies of the regex, the topic can be cut out of it; with the regex
compiled, the key can be made and the list has room. -/
def WildcardCalls.Returns (regcomp : List Byte → Option ρ) (calls : WildcardCalls)
    (source : Option (List Byte)) : Prop :=
  ∀ text, source = some text → calls.allocate = true → calls.strdupRegex = true →
    calls.alloca = true → ∃ topic, Subscription.wildcardTopic text = .ok topic ∧
      (calls.callocRegex = true → regcomp text ≠ none →
        (∃ key, makeKey calls.stack none (some topic) calls.strdupKey = .ok key) ∧
          calls.listElement = true)

/-- The record and the key can be made, and the pool takes the subscription. -/
def SubscribeCalls.Registers (calls : SubscribeCalls) (source symbol : Option (List Byte)) :
    Prop :=
  calls.allocate = true ∧ calls.register = true ∧
    ∃ key, makeKey calls.stack source symbol calls.strdupKey = .ok key

/-- The record, the regex, the topic and the key can be made, and the list has room. -/
def WildcardCalls.Registers (regcomp : List Byte → Option ρ) (calls : WildcardCalls)
    (source : Option (List Byte)) : Prop :=
  ∃ text regex topic key, source = some text ∧ calls.allocate = true ∧
    calls.strdupRegex = true ∧ calls.alloca = true ∧
    Subscription.wildcardTopic text = .ok topic ∧ calls.callocRegex = true ∧
    regcomp text = some regex ∧ makeKey calls.stack none (some topic) calls.strdupKey = .ok key ∧
    calls.listElement = true

theorem makeKey_bind {α : Type} (stack : CharArray (maxSubjectLength + 1))
    (source symbol : Option (List Byte)) (strdupKey : Bool) (next : SubjectKey → Except Fault α) :
    (do
      let (keyTarget, _) ← SubscriptionImpl.generateSubjectKey stack none source symbol strdupKey
      let key ← subjectKeyOf keyTarget
      next key) = makeKey stack source symbol strdupKey >>= next := by
  rw [makeKey, bind_assoc]

-- ---------------------------------------------------------------------------
-- The last step
-- ---------------------------------------------------------------------------

section Send

variable {impl : DataTransport κ ρ} {handle : Nat} {key : SubjectKey} {queue : κ} {regex : ρ}

theorem subscribe_status (topic : List Byte) (ok : Bool) :
    (SubscriptionImpl.subscribe topic ok).2 = if ok then .ok else .platform := by
  cases ok <;> rfl

/-- A subscription that is registered is still there if the message is not sent. -/
theorem create_keeps_iff (ok : Bool) :
    KeepsRegistries impl (.ok (SubscriptionImpl.create impl handle key queue ok)) ↔
      ok = true := by
  cases ok with
  | true =>
    exact iff_of_true ⟨_, _, _, rfl, fun hFail => absurd (subscribe_status key.bytes true) hFail⟩
      rfl
  | false =>
    refine iff_of_false ?_ (by decide)
    rintro ⟨impl', sent, status, hOut, hKeeps⟩
    cases hOut
    have hSame : impl.mSubEndpoints ++ [_] = impl.mSubEndpoints := (hKeeps (by decide)).1
    simp at hSame

theorem createWildcard_keeps_iff (ok : Bool) :
    KeepsRegistries impl (.ok (SubscriptionImpl.createWildcard impl handle key regex queue ok)) ↔
      ok = true := by
  cases ok with
  | true =>
    exact iff_of_true ⟨_, _, _, rfl, fun hFail => absurd (subscribe_status key.bytes true) hFail⟩
      rfl
  | false =>
    refine iff_of_false ?_ (by decide)
    rintro ⟨impl', sent, status, hOut, hKeeps⟩
    cases hOut
    have hSame : impl.mWcEndpoints ++ [_] = impl.mWcEndpoints := (hKeeps (by decide)).2
    simp at hSame

end Send

-- ---------------------------------------------------------------------------
-- The calls
-- ---------------------------------------------------------------------------

theorem keepsRegistries_same (impl : DataTransport κ ρ) (sent : List ZmqControlMsg)
    (status : MamaStatus) : KeepsRegistries impl (.ok (impl, sent, status)) :=
  ⟨impl, sent, status, rfl, fun _ => ⟨rfl, rfl⟩⟩

theorem not_keepsRegistries_fault (impl : DataTransport κ ρ) (f : Fault) :
    ¬ KeepsRegistries impl (.error f) := by
  rintro ⟨impl', sent, status, hOut, -⟩
  cases hOut

section Calls

variable (impl : DataTransport κ ρ) (handle : Nat) (queue : κ)

/-- A step that fails ends the call before anything is registered. -/
theorem keepsRegistries_unless (ok : Bool) (status : MamaStatus)
    (rest : Except Fault (DataTransport κ ρ × List ZmqControlMsg × MamaStatus)) :
    KeepsRegistries impl (if !ok then pure (impl, [], status) else rest) ↔
      (ok = true → KeepsRegistries impl rest) := by
  cases ok with
  | false => exact iff_of_true (keepsRegistries_same impl _ _) nofun
  | true => exact ⟨fun h _ => h, fun h => h rfl⟩

theorem keepsRegistries_bind {α : Type} (x : Except Fault α)
    (f : α → Except Fault (DataTransport κ ρ × List ZmqControlMsg × MamaStatus)) :
    KeepsRegistries impl (x >>= f) ↔ ∃ a, x = .ok a ∧ KeepsRegistries impl (f a) := by
  cases x with
  | error e =>
    refine iff_of_false (not_keepsRegistries_fault impl e) ?_
    rintro ⟨a, hOk, -⟩
    cases hOk
  | ok a =>
    rw [ok_bind]
    constructor
    · exact fun h => ⟨a, rfl, h⟩
    · rintro ⟨a', hOk, h⟩
      cases hOk
      exact h

/-- A regular subscription, up to its registration. -/
theorem Subscription.create_eq (calls : SubscribeCalls) (source symbol : Option (List Byte)) :
    Subscription.create calls impl handle source symbol queue =
      if !calls.allocate then pure (impl, [], .nullArg)
      else makeKey calls.stack source symbol calls.strdupKey >>= fun key =>
        let out := SubscriptionImpl.create impl handle key queue calls.send
        if calls.register = true then .ok out
        else .ok ({ out.1 with mSubEndpoints := impl.mSubEndpoints }, out.2) := by
  rw [Subscription.create, makeKey, bind_assoc]
  rfl

/-- The calls of a regular subscription, one after the other. -/
theorem Subscription.create_keeps (calls : SubscribeCalls)
    (source symbol : Option (List Byte)) :
    KeepsRegistries impl (Subscription.create calls impl handle source symbol queue) ↔
      (calls.allocate = true →
        ∃ key, makeKey calls.stack source symbol calls.strdupKey = .ok key ∧
          (calls.register = true → calls.send = true)) := by
  rw [Subscription.create_eq, keepsRegistries_unless, keepsRegistries_bind]
  refine imp_congr_right fun _ => exists_congr fun key => and_congr_right fun _ => ?_
  by_cases hReg : calls.register = true
  · simp only [if_pos hReg]
    rw [ZmqBridge.create_keeps_iff, imp_iff_right hReg]
  · simp only [if_neg hReg]
    exact iff_of_true ⟨_, _, _, rfl, fun _ => ⟨rfl, rfl⟩⟩ fun h => absurd h hReg

theorem Subscription.create_keeps_iff (calls : SubscribeCalls)
    (source symbol : Option (List Byte)) :
    KeepsRegistries impl (Subscription.create calls impl handle source symbol queue) ↔
      calls.Returns source symbol ∧ (calls.Registers source symbol → calls.send = true) := by
  rw [Subscription.create_keeps]
  constructor
  · intro h
    refine ⟨fun hAlloc => ?_, fun ⟨hAlloc, hReg, _⟩ => ?_⟩
    · obtain ⟨key, hKey, -⟩ := h hAlloc
      exact ⟨key, hKey⟩
    · obtain ⟨-, -, hSend⟩ := h hAlloc
      exact hSend hReg
  · rintro ⟨hReturns, hSend⟩ hAlloc
    obtain ⟨key, hKey⟩ := hReturns hAlloc
    exact ⟨key, hKey, fun hReg => hSend ⟨hAlloc, hReg, key, hKey⟩⟩

/-- The calls of a wildcard subscription, one after the other. -/
theorem Subscription.createWildCard_keeps (regcomp : List Byte → Option ρ)
    (calls : WildcardCalls) (text : List Byte) :
    KeepsRegistries impl
        (Subscription.createWildCard regcomp calls impl handle (some text) queue) ↔
      (calls.allocate = true → calls.strdupRegex = true → calls.alloca = true →
        ∃ topic, Subscription.wildcardTopic text = .ok topic ∧
          (calls.callocRegex = true → regcomp text ≠ none →
            ∃ key, makeKey calls.stack none (some topic) calls.strdupKey = .ok key ∧
              calls.listElement = true ∧ calls.send = true)) := by
  rw [Subscription.createWildCard, keepsRegistries_unless, keepsRegistries_unless,
    keepsRegistries_unless, keepsRegistries_bind]
  refine imp_congr_right fun _ => imp_congr_right fun _ => imp_congr_right fun _ =>
    exists_congr fun topic => and_congr_right fun _ => ?_
  rw [keepsRegistries_unless]
  refine imp_congr_right fun _ => ?_
  cases regcomp text with
  | none => exact iff_of_true (keepsRegistries_same impl _ _) fun h => absurd rfl h
  | some regex =>
    rw [imp_iff_right (Option.some_ne_none regex)]
    simp only [makeKey_bind]
    rw [keepsRegistries_bind]
    refine exists_congr fun key => and_congr_right fun _ => ?_
    cases calls.listElement with
    | false =>
      exact iff_of_false (not_keepsRegistries_fault impl _) fun h => Bool.false_ne_true h.1
    | true => exact (createWildcard_keeps_iff calls.send).trans (and_iff_right rfl).symm

theorem Subscription.createWildCard_keeps_iff (regcomp : List Byte → Option ρ)
    (calls : WildcardCalls) (source : Option (List Byte)) :
    KeepsRegistries impl (Subscription.createWildCard regcomp calls impl handle source queue) ↔
      calls.Returns regcomp source ∧ (calls.Registers regcomp source → calls.send = true) := by
  cases source with
  | none =>
    refine iff_of_true (keepsRegistries_same impl _ _) ⟨nofun, ?_⟩
    rintro ⟨text, regex, topic, key, hText, -⟩
    cases hText
  | some text =>
    rw [Subscription.createWildCard_keeps]
    constructor
    · intro h
      constructor
      · rintro _ hText hAlloc hRegex hAlloca
        cases hText
        obtain ⟨topic, hTopic, hLater⟩ := h hAlloc hRegex hAlloca
        refine ⟨topic, hTopic, fun hCalloc hComp => ?_⟩
        obtain ⟨key, hKey, hList, -⟩ := hLater hCalloc hComp
        exact ⟨⟨key, hKey⟩, hList⟩
      · rintro ⟨_, regex, topic, key, hText, hAlloc, hRegex, hAlloca, -, hCalloc, hComp, -, -⟩
        cases hText
        obtain ⟨_, -, hLater⟩ := h hAlloc hRegex hAlloca
        obtain ⟨-, -, -, hSend⟩ := hLater hCalloc (hComp ▸ Option.some_ne_none regex)
        exact hSend
    · rintro ⟨hReturns, hSend⟩ hAlloc hRegex hAlloca
      obtain ⟨topic, hTopic, hLater⟩ := hReturns text rfl hAlloc hRegex hAlloca
      refine ⟨topic, hTopic, fun hCalloc hComp => ?_⟩
      obtain ⟨⟨key, hKey⟩, hList⟩ := hLater hCalloc hComp
      obtain ⟨regex, hRegcomp⟩ := Option.ne_none_iff_exists'.mp hComp
      exact ⟨key, hKey, hList, hSend ⟨text, regex, topic, key, rfl, hAlloc, hRegex, hAlloca,
        hTopic, hCalloc, hRegcomp, hKey, hList⟩⟩

end Calls

/--
**What a failed subscription leaves behind.** For every transport and every outcome of the
steps of `zmqBridgeMamaSubscription_create` and `zmqBridgeMamaSubscription_createWildCard`: the
call returns, and leaves `mSubEndpoints` and `mWcEndpoints` as they were if it does not return
`MAMA_STATUS_OK`, if and only if

* it makes no invalid access, and
* a step before the registration fails, the registration itself fails, or the control
  message can be sent.
-/
theorem failed_subscription_unchanged_iff (impl : DataTransport κ ρ) (handle : Nat) (queue : κ) :
    (∀ calls source symbol,
      KeepsRegistries impl (Subscription.create calls impl handle source symbol queue) ↔
        calls.Returns source symbol ∧ (calls.Registers source symbol → calls.send = true)) ∧
    (∀ regcomp calls source,
      KeepsRegistries impl (Subscription.createWildCard regcomp calls impl handle source queue) ↔
        calls.Returns regcomp source ∧ (calls.Registers regcomp source → calls.send = true)) := by
  exact ⟨Subscription.create_keeps_iff impl handle queue,
    Subscription.createWildCard_keeps_iff impl handle queue⟩

/-- Every step of a subscription succeeds but the last. -/
def sendFails : SubscribeCalls := ⟨true, true, true, false, CharArray.zero _⟩

/-- The key `a`. -/
def keyA : SubjectKey := ⟨[0x61], by decide, by decide⟩

theorem makeKey_keyA : makeKey (CharArray.zero _) none (some [0x61]) true = .ok keyA := by
  rw [makeKey, generateSubjectKey_topic (by decide)]
  rfl

/-- **A subscription nobody has.** The control message of a subscription to `a` cannot be
sent; the next message to `a` is queued for it all the same. -/
theorem failed_subscription_receives :
    ∃ impl', Subscription.create sendFails (DataTransport.init uuidA : DataTransport Nat Nat)
        7 none (some [0x61]) 0 = .ok (impl', [], .platform) ∧
      ∃ item, TransportImpl.dispatchNormalMsg .all (fun _ _ => false) id impl'
        [0x61, 0x00, 0x01, 0x00, 0x41, 0x42] = .ok ([item], .ok) ∧ item.target = 7 := by
  refine ⟨(SubscriptionImpl.create (DataTransport.init uuidA) 7 keyA 0 false).1, ?_, _, rfl, rfl⟩
  rw [Subscription.create_eq, sendFails, makeKey_keyA]
  rfl

end ZmqBridge
