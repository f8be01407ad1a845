import ZmqBridge.Data.Interest
import ZmqBridge.Lib.EreSyntax
import ZmqBridge.Model.Wildcard
import ZmqBridge.Subject.Key

/-!
# ZmqBridge — the filter of a wildcard subscription

A wildcard subscription filters twice: ZeroMQ and `memcmp` by a literal beginning
that was cut out of the text of the regex, then `regexec` by the regex. The
subscription receives what the regex matches exactly when the cut is right, that
is when the regex forces the literal beginning on everything it matches.

* `literalPart`         — what is cut out of the text;
* `wildcardTopic_eq`    — the cut is made inside the copy when two bytes follow the
  anchor;
* `Receives`            — a message passes ZeroMQ and `matchWildcards`;
* `wildcard_exact_iff`  — exactly the matching subjects are received if and only if
  the literal part is forced;
* `star_not_received`   — the topic `*`.
-/

namespace ZmqBridge

open Lib

variable {κ ρ : Type}

-- ---------------------------------------------------------------------------
-- The cut
-- ---------------------------------------------------------------------------

/-- The part of the text behind the anchor that is taken to be literal: up to the
first `[^/]+`; without one, all of it but a `.*` that ends the text behind a `/`. -/
def literalPart (text : List Byte) : List Byte :=
  match indexOf segmentWildcard text with
  | some i => text.take i
  | none => if superWildcard <:+ text then text.take (text.length - 2) else text

theorem nulFree_literalPart {text : List Byte} (h : NulFree text) :
    NulFree (literalPart text) := by
  rw [literalPart]
  split
  · exact fun b hb => h b (List.mem_of_mem_take hb)
  · split
    · exact fun b hb => h b (List.mem_of_mem_take hb)
    · exact h

/-- `strcmp(&prefix[l-3], "/.*")`, from two bytes on. -/
theorem strcmpEq_tail {text : List Byte} (hFree : NulFree text) (hLen : 2 ≤ text.length) :
    strcmpEq (anchorByte :: text ++ [0]) (1 + ((text.length : Int) - 3)) superWildcard =
      .ok (decide (superWildcard <:+ text)) := by
  have hDrop : (1 + ((text.length : Int) - 3)).toNat = text.length - 2 := by omega
  have hAll : NulFree (anchorByte :: text) := nulFree_cons.mpr ⟨by decide, hFree⟩
  rw [strcmpEq, if_neg (by omega), hDrop, List.drop_append_of_le_length (by simp; omega),
    strcmpGo_cstr (fun b hb => hAll b (List.mem_of_mem_drop hb)) (by decide)]
  congr 1
  rw [decide_eq_decide]
  constructor
  · intro hEq
    have hSuffix : superWildcard <:+ anchorByte :: text := hEq ▸ List.drop_suffix _ _
    rcases List.suffix_cons_iff.mp hSuffix with hWhole | hSuffix
    · cases hWhole
    · exact hSuffix
  · intro hSuffix
    have hEq := List.suffix_iff_eq_drop.mp (List.suffix_cons_iff.mpr
      (.inr hSuffix) : superWildcard <:+ anchorByte :: text)
    rw [hEq]
    congr 1

/-- The length is an `int` without loss: at most two bytes are cut off. -/
theorem length_le_of_literalPart {text : List Byte}
    (hIndex : indexOf segmentWildcard text = none)
    (hShort : (literalPart text).length < maxSubjectLength) : text.length ≤ 257 := by
  have hMax : maxSubjectLength = 256 := rfl
  rw [literalPart, hIndex] at hShort
  simp only at hShort
  split at hShort
  · rw [List.length_take] at hShort
    omega
  · omega

section Topic

variable {text : List Byte} (hFree : NulFree text)
include hFree

theorem wildcardTopic_copy :
    readCstr (anchorByte :: text ++ [0]) 1 = .ok text :=
  readCstr_at (p := [anchorByte]) hFree

/-- Cutting the copy behind the anchor. -/
theorem wildcardTopic_cut {i : Nat} (hi : i ≤ text.length) :
    (writeByte (anchorByte :: text ++ [0]) (1 + i) 0 >>= fun copy => readCstr copy 1) =
      .ok (text.take i) :=
  readCstr_writeByte (p := [anchorByte]) (r := []) hFree hi

/-- The anchor is skipped and the rest is searched for a `[^/]+`. -/
theorem wildcardTopic_strstr :
    strstr (anchorByte :: text ++ [0]) 1 segmentWildcard =
      .ok (indexOf segmentWildcard text) := by
  rw [strstr, wildcardTopic_copy hFree]
  rfl

theorem wildcardTopic_some {i : Nat} (hIndex : indexOf segmentWildcard text = some i) :
    Subscription.wildcardTopic (anchorByte :: text) = .ok (text.take i) := by
  have hRead : readByte (anchorByte :: text ++ [0]) 0 = .ok anchorByte := rfl
  have hLt : i < text.length := indexOf_lt (by decide) hIndex
  simp only [Subscription.wildcardTopic, hRead, wildcardTopic_strstr hFree, hIndex, ok_bind,
    if_true, Nat.cast_one]
  exact wildcardTopic_cut hFree hLt.le

theorem wildcardTopic_none (hIndex : indexOf segmentWildcard text = none) :
    Subscription.wildcardTopic (anchorByte :: text) =
      strcmpEq (anchorByte :: text ++ [0]) (1 + (narrowInt text.length - 3)) superWildcard >>=
        fun found =>
          if found then
            writeByte (anchorByte :: text ++ [0]) (1 + (narrowInt text.length - 2)) 0 >>=
              fun copy => readCstr copy 1
          else .ok text := by
  have hRead : readByte (anchorByte :: text ++ [0]) 0 = .ok anchorByte := rfl
  have hStrlen : strlen (anchorByte :: text ++ [0]) 1 = .ok text.length :=
    strlen_at (p := [anchorByte]) hFree
  simp only [Subscription.wildcardTopic, hRead, wildcardTopic_strstr hFree, hIndex, hStrlen,
    wildcardTopic_copy hFree, ok_bind, if_true, Nat.cast_one]

theorem wildcardTopic_eq (hShort : (literalPart text).length < maxSubjectLength) :
    Subscription.wildcardTopic (anchorByte :: text) =
      if 2 ≤ text.length then .ok (literalPart text) else .error .readOutside := by
  cases hIndex : indexOf segmentWildcard text with
  | some i =>
    have hLen : ¬ text.length < segmentWildcard.length := fun hLen => by
      rw [indexOf_eq_none hLen] at hIndex
      cases hIndex
    have hFive : segmentWildcard.length = 5 := rfl
    rw [wildcardTopic_some hFree hIndex, if_pos (by omega), literalPart, hIndex]
  | none =>
    have hSmall := length_le_of_literalPart hIndex hShort
    rw [wildcardTopic_none hFree hIndex]
    simp only [narrowInt_of_lt (show text.length < 2 ^ 31 by omega)]
    by_cases hLen : 2 ≤ text.length
    · rw [strcmpEq_tail hFree hLen, ok_bind, if_pos hLen, literalPart, hIndex]
      by_cases hSuper : superWildcard <:+ text
      · have hThree : 3 ≤ text.length := hSuper.length_le
        have hIdx : 1 + ((text.length : Int) - 2) = 1 + ((text.length - 2 : Nat) : Int) := by
          omega
        simp only [hSuper, decide_true, if_true, hIdx]
        exact wildcardTopic_cut hFree (by omega)
      · simp only [hSuper, decide_false, Bool.false_eq_true, if_false]
    · have hOutside : strcmpEq (anchorByte :: text ++ [0]) (1 + ((text.length : Int) - 3))
          superWildcard = .error .readOutside := if_pos (by omega)
      rw [hOutside, if_neg hLen, error_bind]

end Topic

-- ---------------------------------------------------------------------------
-- Receiving
-- ---------------------------------------------------------------------------

/-- The message passes the topics that were subscribed to at ZeroMQ, and is then
queued for the subscription at `handle`. -/
def Receives (reads : MemcmpReads) (regexec : ρ → List Byte → Bool) (impl : DataTransport κ ρ)
    (sent : List ZmqControlMsg) (handle : Nat) (zmsg : List Byte) : Prop :=
  (∃ msg ∈ sent, msg.command = commandSubscribe ∧ msg.arg1.cstr <+: zmsg) ∧
    ∃ item, TransportImpl.matchWildcards reads regexec impl zmsg handle = .ok (some item)

/-- The record of a new wildcard subscription. -/
theorem createWildcard_sub {impl : DataTransport κ ρ} {handle : Nat}
    (hFresh : ∀ s ∈ impl.subs, s.handle ≠ handle) (key : SubjectKey) (regex : ρ) (queue : κ)
    (sendOk : Bool) :
    (SubscriptionImpl.createWildcard impl handle key regex queue sendOk).1.sub handle =
      .ok ⟨handle, key, (generateSerial impl.mWcsUid).2, queue, true, some regex⟩ := by
  have hNone : impl.subs.find? (·.handle = handle) = none := by
    rw [List.find?_eq_none]
    intro s hs
    simpa using hFresh s hs
  rw [SubscriptionImpl.createWildcard, DataTransport.sub]
  simp only [List.find?_append, hNone, Option.none_or]
  simp

/-- A message that begins with the key is left to the regex: `memcmp` stays inside it
and finds it equal. -/
theorem matchWildcards_of_isPrefix {reads : MemcmpReads} {regexec : ρ → List Byte → Bool}
    {impl : DataTransport κ ρ} {handle : Nat} {s : ZmqSubscription κ ρ} {regex : ρ}
    {subject rest : List Byte} (hSub : impl.sub handle = .ok s)
    (hRegex : s.mCompRegex = some regex) (hFree : NulFree s.mEndpointIdentifier)
    (hLen : s.mEndpointIdentifier.length = zmqReplyHandleInboxNameSize)
    (hSubject : NulFree subject) (hKey : s.mSubjectKey.bytes <+: subject) :
    TransportImpl.matchWildcards reads regexec impl (subject ++ 0 :: rest) handle =
      .ok (if regexec regex subject then
        some (itemFor .wildcard s.mZmqQueue handle s.mEndpointIdentifier (subject ++ 0 :: rest))
      else none) := by
  have hWire : s.mSubjectKey.bytes <+: subject ++ 0 :: rest :=
    hKey.trans (List.prefix_append _ _)
  have hCmp : memcmpEq reads (subject ++ 0 :: rest) s.mSubjectKey.bytes = .ok true := by
    rw [memcmpEq, if_pos hWire.length_le, decide_eq_true hWire]
  have hRead : readCstr (subject ++ 0 :: rest) 0 = .ok subject :=
    readCstr_at (p := []) hSubject
  have hEnqueue : enqueueMsg .wildcard s.mZmqQueue handle (s.mEndpointIdentifier ++ [0]) 0
      (subject ++ 0 :: rest) = .ok (itemFor .wildcard s.mZmqQueue handle s.mEndpointIdentifier
        (subject ++ 0 :: rest)) :=
    enqueueMsg_eq (p := []) (r := []) hFree hLen
  simp only [TransportImpl.matchWildcards, hSub, hCmp, hRegex, hRead, hEnqueue, ok_bind,
    Bool.not_true, Bool.false_eq_true, if_false]
  cases regexec regex subject <;> rfl

/-- **The two filters of a wildcard subscription.** -/
theorem receives_iff {reads : MemcmpReads} {regexec : ρ → List Byte → Bool}
    {impl : DataTransport κ ρ} {handle : Nat} (hFresh : ∀ s ∈ impl.subs, s.handle ≠ handle)
    (key : SubjectKey) (regex : ρ) (queue : κ) {subject rest : List Byte}
    (hSubject : NulFree subject) :
    Receives reads regexec (SubscriptionImpl.createWildcard impl handle key regex queue true).1
        (SubscriptionImpl.createWildcard impl handle key regex queue true).2.1 handle
        (subject ++ 0 :: rest) ↔
      key.bytes <+: subject ∧ regexec regex subject = true := by
  have hSent : (SubscriptionImpl.createWildcard impl handle key regex queue true).2.1 =
      [controlMsg commandSubscribe key.bytes] := rfl
  have hZmq : (∃ msg ∈ [controlMsg commandSubscribe key.bytes],
      msg.command = commandSubscribe ∧ msg.arg1.cstr <+: subject ++ 0 :: rest) ↔
        key.bytes <+: subject := by
    simp only [List.mem_singleton, exists_eq_left, controlMsg_cstr]
    rw [prefix_cstr_iff key.nulFree]
    exact ⟨fun h => h.2, fun h => ⟨rfl, h⟩⟩
  rw [Receives, hSent, hZmq]
  refine and_congr_right fun hKey => ?_
  rw [matchWildcards_of_isPrefix (createWildcard_sub hFresh key regex queue true) rfl
    (hexDigits_nulFree _ _) (hexDigits_length _ _) hSubject hKey]
  cases regexec regex subject with
  | false => simp
  | true => simp

-- ---------------------------------------------------------------------------
-- The whole subscription
-- ---------------------------------------------------------------------------

/-- **What a wildcard subscription has to do**: the prefix is cut out without leaving
the copy, and the subscription receives exactly the subjects that its regex
matches. -/
def WildcardExact (reads : MemcmpReads) (regcomp : List Byte → Option Ere)
    (calls : WildcardCalls) (impl : DataTransport κ Ere) (handle : Nat) (source : List Byte)
    (queue : κ) (e : Ere) : Prop :=
  ∃ impl' sent,
    Subscription.createWildCard regcomp calls impl handle (some source) queue =
      .ok (impl', sent, .ok) ∧
    ∀ subject rest, NulFree subject →
      (Receives reads Ere.regexec impl' sent handle (subject ++ 0 :: rest) ↔
        e.regexec subject = true)

/-- All calls that a subscription makes succeed. -/
structure WildcardCalls.Succeed (calls : WildcardCalls) : Prop where
  allocate : calls.allocate = true
  strdupRegex : calls.strdupRegex = true
  alloca : calls.alloca = true
  callocRegex : calls.callocRegex = true
  strdupKey : calls.strdupKey = true
  listElement : calls.listElement = true
  send : calls.send = true

section Exact

variable {regcomp : List Byte → Option Ere} {calls : WildcardCalls} {impl : DataTransport κ Ere}
  {handle : Nat} {text : List Byte} {queue : κ} {e : Ere}

theorem createWildCard_eq (hCalls : calls.Succeed) (hFree : NulFree text)
    (hRegcomp : regcomp (anchorByte :: text) = some e)
    (hShort : (literalPart text).length < maxSubjectLength) :
    Subscription.createWildCard regcomp calls impl handle (some (anchorByte :: text)) queue =
      if 2 ≤ text.length then
        .ok (SubscriptionImpl.createWildcard impl handle
          ⟨literalPart text, nulFree_literalPart hFree, hShort⟩ e queue true)
      else .error .readOutside := by
  have hKey : SubscriptionImpl.generateSubjectKey calls.stack none none
      (some (literalPart text)) true = .ok (some (literalPart text), .ok) := by
    rw [generateSubjectKey_topic (nulFree_literalPart hFree),
      List.take_of_length_le (Nat.le_sub_one_of_lt hShort)]
  have hSubjectKey : subjectKeyOf (some (literalPart text)) =
      .ok ⟨literalPart text, nulFree_literalPart hFree, hShort⟩ :=
    dif_pos ⟨nulFree_literalPart hFree, hShort⟩
  simp only [Subscription.createWildCard, hCalls.allocate, hCalls.strdupRegex, hCalls.alloca,
    hCalls.callocRegex, hCalls.strdupKey, hCalls.listElement, hCalls.send,
    wildcardTopic_eq hFree hShort, hRegcomp, Bool.not_true, Bool.false_eq_true, if_false]
  by_cases hLen : 2 ≤ text.length
  · simp only [if_pos hLen, ok_bind, hKey, hSubjectKey]
    rfl
  · simp only [if_neg hLen, error_bind]

/--
**A wildcard subscription is exact if and only if its literal part is forced.** For
any regex behind an anchor, whatever `regcomp` makes of its text: the prefix is cut
out inside the copy and the subscription receives exactly the subjects that its regex
matches, if and only if at least two bytes follow the anchor and no way through the
expression ends inside the literal part or leaves it.
-/
theorem wildcard_exact_iff {reads : MemcmpReads} (hCalls : calls.Succeed)
    (hFresh : ∀ s ∈ impl.subs, s.handle ≠ handle) (hFree : NulFree text)
    (hRegcomp : regcomp (anchorByte :: text) = some e)
    (hShort : (literalPart text).length < maxSubjectLength) :
    WildcardExact reads regcomp calls impl handle (anchorByte :: text) queue e ↔
      2 ≤ text.length ∧ e.Forces (literalPart text) := by
  rw [WildcardExact, createWildCard_eq hCalls hFree hRegcomp hShort,
    Ere.forces_iff (nulFree_literalPart hFree)]
  constructor
  · rintro ⟨impl', sent, hCreated, hExact⟩
    by_cases hLen : 2 ≤ text.length
    · rw [if_pos hLen] at hCreated
      cases hCreated
      refine ⟨hLen, fun subject hSubject hMatch => ?_⟩
      exact ((receives_iff hFresh _ _ _ hSubject).mp
        ((hExact subject [] hSubject).mpr hMatch)).1
    · rw [if_neg hLen] at hCreated
      cases hCreated
  · rintro ⟨hLen, hForces⟩
    rw [if_pos hLen]
    refine ⟨_, _, rfl, fun subject rest hSubject =>
      (receives_iff hFresh _ _ _ hSubject).trans ?_⟩
    exact ⟨fun h => h.2, fun h => ⟨hForces subject hSubject h, h⟩⟩

end Exact

/-- Every call succeeds. -/
def WildcardCalls.allOk : WildcardCalls :=
  ⟨true, true, true, true, true, true, true, CharArray.zero _⟩

theorem WildcardCalls.allOk_succeed : WildcardCalls.allOk.Succeed :=
  ⟨rfl, rfl, rfl, rfl, rfl, rfl, rfl⟩

/-- The regex of the topic `a/*`, and its tree. -/
def segmentRegex : List Byte := [0x5e, 0x61, 0x2f, 0x5b, 0x5e, 0x2f, 0x5d, 0x2b, 0x24]

def segmentTree : Ere :=
  .cat (.cat (.cat (.cat .bol (.set (.single 0x61))) (.set (.single 0x2f)))
    (.rep (.set ⟨true, [(0x2f, 0x2f)]⟩) 1 none)) .eol

theorem wildcard_exact_segment :
    ws2posix [0x61, 0x2f, 0x2a] = some (segmentRegex, .ok) ∧
      WildcardExact .all regcomp .allOk (DataTransport.init uuidA) 0 segmentRegex () segmentTree :=
  ⟨by decide +kernel,
    (wildcard_exact_iff WildcardCalls.allOk_succeed (by simp [DataTransport.init]) (by decide)
      (by decide +kernel) (by decide)).mpr ⟨by decide, by decide +kernel⟩⟩

/-- The regex of the topic `*`, and its tree. -/
def starRegex : List Byte := firstSegment ++ [endByte]

def starTree : Ere :=
  .cat (.cat (.cat .bol (.set ⟨true, [(0x5f, 0x5f)]⟩))
    (.rep (.set ⟨true, [(0x2f, 0x2f)]⟩) 0 none)) .eol

/-- **The topic `*` does not get what it matches**: the subscription is accepted, its
key is the text of the regex, and a message with the subject `b`, which the regex
matches, is not received. -/
theorem star_not_received :
    ws2posix [starByte] = some (starRegex, .ok) ∧ regcomp starRegex = some starTree ∧
      starTree.regexec [0x62] = true ∧
      ∃ impl' sent,
        Subscription.createWildCard regcomp .allOk (DataTransport.init uuidA) 0
          (some starRegex) () = .ok (impl', sent, .ok) ∧
        ∀ rest, ¬ Receives .all Ere.regexec impl' sent 0 ([0x62] ++ 0 :: rest) := by
  have hRegcomp : regcomp starRegex = some starTree := by decide +kernel
  refine ⟨by decide +kernel, hRegcomp, by decide +kernel, _, _,
    createWildCard_eq WildcardCalls.allOk_succeed (by decide) hRegcomp (by decide), ?_⟩
  intro rest hReceives
  have hKey := ((receives_iff (by simp [DataTransport.init]) _ _ _ (by decide)).mp hReceives).1
  exact absurd hKey (by decide)

end ZmqBridge
