import ZmqBridge.Data.Dispatch
import ZmqBridge.Msg.Send
import ZmqBridge.Subject.Key

/-!
# ZmqBridge — which publishers a subscription hears

A publisher builds its subject from root, source and topic, a subscription its key
from source and topic. Both join the components with dots, and the bridge compares
the results as strings.

* `joinSubject_inj`                  — with a first component free of dots, a subject
  can be taken apart again;
* `publisher_meets_subscription_iff` — so a subscription hears exactly the publishers
  of its source and topic; a publisher with a root is heard under its root as the
  source.
-/

namespace ZmqBridge

open Lib

/-- A component that is there, and has no dot in it. -/
structure IsComponent (s : List Byte) : Prop where
  nulFree : NulFree s
  ne_nil : s ≠ []
  dot_notMem : dot ∉ s

instance (s : List Byte) : Decidable (IsComponent s) :=
  decidable_of_iff (NulFree s ∧ s ≠ [] ∧ dot ∉ s)
    ⟨fun h => ⟨h.1, h.2.1, h.2.2⟩, fun h => ⟨h.nulFree, h.ne_nil, h.dot_notMem⟩⟩

/-- What `buildSendSubject` puts behind the first component: the topic is lost if there is
a root other than that of the dictionary. -/
def behindFirst (root : Option (List Byte)) (source topic : List Byte) : List Byte :=
  match root with
  | none => topic
  | some root => if root = rootDictionary then source ++ dot :: topic else source

/-- The subject of a publisher, without cutting. -/
def publisherSubject (root : Option (List Byte)) (source topic : List Byte) : List Byte :=
  root.getD source ++ dot :: behindFirst root source topic

section Keys

variable {stack : CharArray (maxSubjectLength + 1)} {root : Option (List Byte)}
  {source topic : List Byte}

theorem joinSubject_source (h : source ≠ []) :
    joinSubject none (some source) (some topic) = source ++ dot :: topic := by
  simp [joinSubject, joinComponent, h]

theorem joinSubject_root (source topic : List Byte) {r : List Byte} (h : r ≠ []) :
    joinSubject (some r) (some source) none = r ++ dot :: source ∧
      joinSubject (some r) (some source) (some topic) = r ++ dot :: (source ++ dot :: topic) := by
  simp [joinSubject, joinComponent, h]

/-- A first component without dots can be told from what follows. -/
theorem joinSubject_inj {s s' t t' : List Byte} (hs : dot ∉ s) (hs' : dot ∉ s') :
    s ++ dot :: t = s' ++ dot :: t' ↔ s = s' ∧ t = t' := by
  constructor
  · intro h
    -- the first dot is behind the first component on both sides
    have hLen := congrArg (List.idxOf dot) h
    rw [List.idxOf_append_of_notMem hs, List.idxOf_append_of_notMem hs', List.idxOf_cons_self,
      List.idxOf_cons_self] at hLen
    obtain ⟨hFirst, hRest⟩ := List.append_inj h hLen
    exact ⟨hFirst, (List.cons.inj hRest).2⟩
  · rintro ⟨rfl, rfl⟩
    rfl

/-- The key of a subscription that fits. -/
theorem generateSubjectKey_source (hSource : IsComponent source) (hTopic : NulFree topic)
    (hLen : (source ++ dot :: topic).length < maxSubjectLength) :
    SubscriptionImpl.generateSubjectKey stack none (some source) (some topic) true =
      .ok (some (source ++ dot :: topic), .ok) := by
  have hExact : KeyExact stack none (some source) (some topic) := by
    refine keyExact_of_length_le (by simp) (by simpa using hSource.nulFree)
      (by simpa using hTopic) (by simp) ?_
    simp only [joinComponent, List.length_append, List.length_cons, if_true] at hLen ⊢
    omega
  obtain ⟨c, -, -, hKey⟩ := hExact
  rw [hKey, joinSubject_source hSource.ne_nil, List.take_of_length_le (by omega)]

/-- The key of a publisher with a root. -/
theorem generateSubjectKey_root {r : List Byte} (hRoot : IsComponent r)
    (hSource : NulFree source) {o : Option (List Byte)} (hTopic : ∀ s ∈ o, NulFree s)
    (hLen : (joinSubject (some r) (some source) o).length < maxSubjectLength) :
    SubscriptionImpl.generateSubjectKey stack (some r) (some source) o true =
      .ok (some (joinSubject (some r) (some source) o), .ok) := by
  have hExact : KeyExact stack (some r) (some source) o := by
    refine keyExact_of_length_le (by simpa using hRoot.nulFree) (by simpa using hSource)
      hTopic (by simp) ?_
    have := length_le_joinComponent (joinComponent (joinComponent [] (some r)) (some source)) o
    unfold joinSubject at hLen
    omega
  obtain ⟨c, -, -, hKey⟩ := hExact
  rw [hKey, List.take_of_length_le (by omega)]

/-- **The subject of a publisher.** -/
theorem buildSendSubject_eq (hRoot : ∀ r ∈ root, IsComponent r) (hSource : IsComponent source)
    (hTopic : NulFree topic)
    (hLen : (publisherSubject root source topic).length < maxSubjectLength) :
    PublisherImpl.buildSendSubject stack root (some source) (some topic) true =
      .ok (some (publisherSubject root source topic), .ok) := by
  unfold PublisherImpl.buildSendSubject
  unfold publisherSubject behindFirst at hLen ⊢
  cases root with
  | none =>
    dsimp only [Option.getD_none] at hLen ⊢
    rw [generateSubjectKey_source hSource hTopic hLen]
    rfl
  | some r =>
    have hr := hRoot r rfl
    obtain ⟨hShort, hLong⟩ := joinSubject_root source topic hr.ne_nil
    dsimp only [Option.getD_some] at hLen ⊢
    split at hLen
    · rename_i hDictionary
      rw [if_pos hDictionary, if_pos hDictionary,
        generateSubjectKey_root hr hSource.nulFree (by simpa using hTopic) (hLong ▸ hLen), hLong]
      rfl
    · rename_i hOther
      rw [if_neg hOther, if_neg hOther,
        generateSubjectKey_root hr hSource.nulFree (by simp) (hShort ▸ hLen), hShort]
      rfl

end Keys

/-- What is sent under the publisher's own subject. -/
theorem subject_of_send {calls : SendCalls} {pub : ZmqPublisherBridge} {m : DataMsg}
    {status : MamaStatus} {subject : List Byte} (hSubject : pub.mSubject = some subject)
    (hLen : subject.length ≤ maxSubjectLength)
    (hSend : Publisher.send calls pub = .ok (some (m.wire.map some), status)) :
    m.subject = subject := by
  have hNul : NulFree subject := pub.mSubject_nulFree subject hSubject
  obtain ⟨type, handle, hPerform⟩ :=
    (SendRequest.perform_eq calls pub .send (by simp [SendRequest.strings])).1 trivial
  have hOut := hPerform.symm.trans hSend
  obtain ⟨payload, -, hWire⟩ := SendCalls.sent_of_outcome (Except.ok.inj hOut)
  have hSame := congrArg cstr hWire
  have hRequested : SendRequest.requested pub .send = some subject := hSubject
  rw [hRequested, sentSubject_of_le hLen, cstr_wireFormat hNul] at hSame
  exact (cstr_wireFormat m.subject_nulFree).symm.trans hSame

/--
**Who hears whom.** Let a publisher be made for a root (or none), source and topic, and a
regular subscription for a source and topic, with roots and sources that are not empty and
free of dots, and nothing too long. What the publisher sends is for the subscription exactly
if source and topic are the same, when the publisher has no root. With a root it is heard by
subscriptions that have the root as their source, and as their topic the publisher's source —
or, for the dictionary `_MDDD`, source and topic joined.
-/
theorem publisher_meets_subscription_iff {κ ρ : Type} {regexec : ρ → List Byte → Bool}
    {stack stack' : CharArray (maxSubjectLength + 1)} {root : Option (List Byte)}
    {source topic source' topic' : List Byte} {pub : ZmqPublisherBridge}
    {s : ZmqSubscription κ ρ} {calls : SendCalls} {m : DataMsg} {status : MamaStatus}
    (hRoot : ∀ r ∈ root, IsComponent r) (hSource : IsComponent source) (hTopic : NulFree topic)
    (hLen : (publisherSubject root source topic).length < maxSubjectLength)
    (hSource' : IsComponent source') (hTopic' : NulFree topic')
    (hLen' : (source' ++ dot :: topic').length < maxSubjectLength)
    (hPub : PublisherImpl.buildSendSubject stack root (some source) (some topic) true =
      .ok (pub.mSubject, .ok))
    (hKey : SubscriptionImpl.generateSubjectKey stack' none (some source') (some topic') true =
      .ok (some s.mSubjectKey.bytes, .ok))
    (hRegular : s.mIsWildcard = false)
    (hSend : Publisher.send calls pub = .ok (some (m.wire.map some), status)) :
    s.Matches regexec m.subject ↔
      source' = root.getD source ∧ topic' = behindFirst root source topic := by
  have hSubject : pub.mSubject = some (publisherSubject root source topic) := by
    have hOut := hPub.symm.trans (buildSendSubject_eq hRoot hSource hTopic hLen)
    exact (Prod.mk.inj (Except.ok.inj hOut)).1
  have hBytes : s.mSubjectKey.bytes = source' ++ dot :: topic' := by
    have hOut := hKey.symm.trans (generateSubjectKey_source hSource' hTopic' hLen')
    exact Option.some.inj (Prod.mk.inj (Except.ok.inj hOut)).1
  have hFirst : dot ∉ root.getD source := by
    cases root with
    | none => exact hSource.dot_notMem
    | some r => exact (hRoot r rfl).dot_notMem
  rw [ZmqSubscription.matches_regular hRegular, hBytes,
    subject_of_send hSubject (Nat.le_of_lt hLen) hSend, publisherSubject,
    joinSubject_inj hSource'.dot_notMem hFirst]

/-- A publisher of the dictionary root, source `a` and topic `b`. -/
def dictionaryPublisher : ZmqPublisherBridge where
  mSubject := some (rootDictionary ++ [dot, 0x61, dot, 0x62])
  mSubject_nulFree := by decide

/-- What it sends. -/
def dictionaryWire : WireMsg := { publishB.toWireMsg with
  subject := rootDictionary ++ [dot, 0x61, dot, 0x62]
  subject_nulFree := by decide
  subject_le := by decide }

def dictionaryMsg : DataMsg := ⟨dictionaryWire, by decide⟩

/-- A subscription to source `_MDDD` and topic `a.b`. -/
def dictionarySubscription : ZmqSubscription Unit Unit where
  handle := 0
  mSubjectKey := ⟨rootDictionary ++ [dot, 0x61, dot, 0x62], by decide, by decide⟩
  mEndpointIdentifier := []
  mZmqQueue := ()
  mIsNotMuted := true
  mCompRegex := none

theorem publisher_meets_dictionarySubscription :
    dictionarySubscription.Matches (fun _ _ => true) dictionaryMsg.subject := by
  have hPub : PublisherImpl.buildSendSubject (.zero _) (some rootDictionary) (some [0x61])
      (some [0x62]) true = .ok (dictionaryPublisher.mSubject, .ok) := by decide +kernel
  have hKey : SubscriptionImpl.generateSubjectKey (.zero _) none (some rootDictionary)
      (some [0x61, dot, 0x62]) true = .ok (some dictionarySubscription.mSubjectKey.bytes, .ok) := by
    decide +kernel
  have hSend : Publisher.send { sendCalls with getByteBuffer := .ok publishB.payload }
      dictionaryPublisher = .ok (some (dictionaryMsg.wire.map some), .ok) := by decide +kernel
  exact (publisher_meets_subscription_iff (by decide) (by decide) (by decide) (by decide)
    (by decide) (by decide) (by decide) hPub hKey rfl hSend).mpr ⟨rfl, rfl⟩

-- with a dot in the source, another split of the same text gives the same key
example :
    SubscriptionImpl.generateSubjectKey (.zero _) none (some [0x61, dot, 0x62]) (some [0x63])
        true =
      SubscriptionImpl.generateSubjectKey (.zero _) none (some [0x61])
        (some [0x62, dot, 0x63]) true := by
  decide +kernel

end ZmqBridge
