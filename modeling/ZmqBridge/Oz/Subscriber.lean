import ZmqBridge.Model.Oz
import ZmqBridge.Subject.Topics
import ZmqBridge.Subject.Wildcard

/-!
# ZmqBridge — what a subscriber of the wrapper hears

From the topic given to `oz::subscriber` to the messages that are queued for it: the type
is guessed, the topic is translated, the bridge cuts a literal beginning out of the
regular expression for ZeroMQ and for `memcmp`, and `regexec` decides the rest. Subjects
that begin with `_INBOX` are left to the inboxes, so no topic of that kind is heard.

* `Hears`                    — a message passes the socket and is queued for the
  subscription;
* `ws_subscriber_exact_iff`  — a hierarchical topic is heard as it is meant exactly if it
  has a star that does not lead. `start` translates a topic into the string that holds it,
  so one that ends in `//.` and has no star is heard behind its own text only;
* `guessed_subscriber_hears` — a topic with a dot in it and no type is heard as a
  beginning of subjects.
-/

namespace ZmqBridge

open Lib Ascii

variable {κ ρ : Type}

-- ---------------------------------------------------------------------------
-- Hearing
-- ---------------------------------------------------------------------------

/-- The message begins with a topic that was subscribed to at ZeroMQ, and
`dispatchNormalMsg` queues an item for the subscription at `handle`. -/
def Hears (order : List Nat → List Nat) (impl : DataTransport κ Ere)
    (sent : List ZmqControlMsg) (handle : Nat) (zmsg : List Byte) : Prop :=
  (∃ msg ∈ sent, msg.command = commandSubscribe ∧ msg.arg1.cstr <+: zmsg) ∧
    ∃ items status,
      TransportImpl.dispatchNormalMsg .untilDifference Ere.regexec order impl zmsg =
        .ok (items, status) ∧ handle ∈ items.map Enqueue.target

/-- A subject is not that of an inbox if it begins with something else that is too long to
be the beginning of one. -/
theorem not_inbox_of_isPrefix {pre s : List Byte} {b : Byte}
    (hPre : ¬ zmqReplyHandlePrefix <+: pre) (hb : b ∈ pre) (hNot : b ∉ zmqReplyHandlePrefix)
    (h : pre <+: s) : ¬ zmqReplyHandlePrefix <+: s := by
  intro hInbox
  rcases List.prefix_or_prefix_of_prefix hInbox h with h' | h'
  · exact hPre h'
  · exact hNot (h'.subset hb)

/-- What a subscription takes begins with its key. -/
theorem ZmqSubscription.Matches.key_isPrefix {regexec : ρ → List Byte → Bool}
    {s : ZmqSubscription κ ρ} {subject : List Byte} (h : s.Matches regexec subject) :
    s.mSubjectKey.bytes <+: subject := by
  unfold ZmqSubscription.Matches at h
  split at h
  · exact h ▸ List.prefix_refl _
  · exact h.1

/-- What is queued for inboxes is queued for no subscription. -/
theorem Registry.target_of_inbox {impl : DataTransport κ ρ} {made : List (Made κ)}
    (hReg : Registry impl made) {zmsg : List Byte} {items : List (Enqueue κ)}
    {status : MamaStatus} (h : TransportImpl.dispatchInboxMsg impl zmsg = .ok (items, status))
    {s : ZmqSubscription κ ρ} (hs : s ∈ impl.subs) : s.handle ∉ items.map Enqueue.target := by
  obtain ⟨name, -, h⟩ := bind_eq_ok h
  split at h
  · cases h
    exact List.not_mem_nil
  · rename_i handle hLookup
    obtain ⟨i, hi, rfl, -⟩ := (hReg.inboxes name handle).mp hLookup
    obtain ⟨inbox, -, h⟩ := bind_eq_ok h
    obtain ⟨item, hItem, h⟩ := bind_eq_ok h
    obtain ⟨identifier, -, hItem⟩ := bind_eq_ok hItem
    cases hItem
    cases h
    intro hMem
    have hDisjoint := (List.nodup_append.mp hReg.nodup).2.2
    exact hDisjoint _ (List.mem_map_of_mem hs) _ (List.mem_map_of_mem hi)
      (List.mem_singleton.mp hMem)

section Hears

variable {impl : DataTransport κ Ere} {made : List (Made κ)} {order : List Nat → List Nat}
  (hReg : Registry impl made) (hOrder : ∀ l, (order l).Perm l)

include hReg hOrder

/-- **A subscription hears what it takes**, unless it is for an inbox. -/
theorem Registry.hears_iff {s : ZmqSubscription κ Ere} (hs : s ∈ impl.subs)
    (hMuted : s.mIsNotMuted = true) (m : DataMsg) :
    Hears order impl [controlMsg commandSubscribe s.mSubjectKey.bytes] s.handle m.wire ↔
      ¬ zmqReplyHandlePrefix <+: m.subject ∧ s.Matches Ere.regexec m.subject := by
  obtain ⟨items, status, hDispatch, -, hItems⟩ :=
    hReg.dispatchSubMsg_spec m Ere.regexec hOrder
  unfold Hears
  rw [dispatchNormalMsg_eq m Ere.regexec order]
  constructor
  · rintro ⟨-, items', status', hDispatch', hTarget⟩
    by_cases hInbox : zmqReplyHandlePrefix <+: m.subject
    · rw [if_pos hInbox] at hDispatch'
      exact absurd hTarget (hReg.target_of_inbox hDispatch' hs)
    · refine ⟨hInbox, ?_⟩
      rw [if_neg hInbox, hDispatch] at hDispatch'
      cases hDispatch'
      obtain ⟨item, hItem, hHandle⟩ := List.mem_map.mp hTarget
      obtain ⟨s', hs', hMatches, -, rfl⟩ := (hItems item).mp hItem
      obtain rfl : s' = s := hReg.sub_unique hs' hs hHandle
      exact hMatches
  · rintro ⟨hInbox, hMatches⟩
    refine ⟨⟨_, List.mem_singleton_self _, rfl, ?_⟩, items, status, ?_, ?_⟩
    · rw [controlMsg_cstr]
      exact hMatches.key_isPrefix.trans (List.prefix_append _ _)
    · rw [if_neg hInbox, hDispatch]
    · exact List.mem_map.mpr
        ⟨_, (hItems _).mpr ⟨s, hs, hMatches, Or.inr hMuted, rfl⟩, rfl⟩

variable (hBound : made.length + 1 < 2 ^ 64)

include hBound

theorem Registry.hears_create (key : SubjectKey) (queue : κ) (m : DataMsg) :
    Hears order (SubscriptionImpl.create impl made.length key queue true).1
        (SubscriptionImpl.create impl made.length key queue true).2.1 made.length m.wire ↔
      ¬ zmqReplyHandlePrefix <+: m.subject ∧ key.bytes = m.subject := by
  obtain ⟨s, hHandle, rfl, -, hMuted, hRegex, hSubs, hReg'⟩ := hReg.create hBound key queue true
  have hs : s ∈ (SubscriptionImpl.create impl made.length s.mSubjectKey queue true).1.subs := by
    rw [hSubs]
    exact List.mem_append_right _ (List.mem_singleton_self s)
  have hHears := hReg'.hears_iff hOrder hs hMuted m
  rw [ZmqSubscription.Matches, hRegex, hHandle] at hHears
  exact hHears

theorem Registry.hears_createWildcard (key : SubjectKey) (e : Ere) (queue : κ)
    (m : DataMsg) :
    Hears order (SubscriptionImpl.createWildcard impl made.length key e queue true).1
        (SubscriptionImpl.createWildcard impl made.length key e queue true).2.1 made.length
        m.wire ↔ ¬ zmqReplyHandlePrefix <+: m.subject ∧ key.bytes <+: m.subject ∧
          e.regexec m.subject = true := by
  obtain ⟨s, hHandle, rfl, -, hMuted, hRegex, hSubs, hReg'⟩ :=
    hReg.createWildcard hBound key e queue true
  have hs : s ∈
      (SubscriptionImpl.createWildcard impl made.length s.mSubjectKey e queue true).1.subs := by
    rw [hSubs]
    exact List.mem_append_right _ (List.mem_singleton_self s)
  have hHears := hReg'.hears_iff hOrder hs hMuted m
  rw [ZmqSubscription.Matches, hRegex, hHandle] at hHears
  exact hHears

end Hears

-- ---------------------------------------------------------------------------
-- Starting
-- ---------------------------------------------------------------------------

/-- Every call that a start makes succeeds. -/
structure SubscriberCalls.Succeed (calls : SubscriberCalls) : Prop where
  allocate : calls.allocate = .ok
  basicAllocate : calls.basic.allocate = true
  strdupKey : calls.basic.strdupKey = true
  register : calls.basic.register = true
  send : calls.basic.send = true
  wildcard : calls.wildcard.Succeed

section Start

variable {calls : SubscriberCalls} (hCalls : calls.Succeed) {mama : MamaSubscription κ Ere}
  (hMama : mama.HandsOver regcomp calls) {impl : DataTransport κ Ere} {handle : Nat}
  {queue : κ} {topic text : List Byte}

include hCalls hMama

/-- A translated topic, with at least two bytes behind the anchor. -/
theorem start_ws {e : Ere} (hWs : ws2posixInto topic topic = some (anchorByte :: text, .ok))
    (hFree : NulFree text) (hRegcomp : regcomp (anchorByte :: text) = some e)
    (hShort : (literalPart text).length < maxSubjectLength) (hLen : 2 ≤ text.length) :
    Subscriber.start mama impl handle topic .ws queue =
      .ok (some (SubscriptionImpl.createWildcard impl handle
        ⟨literalPart text, nulFree_literalPart hFree, hShort⟩ e queue true)) := by
  have hGuess : WcType.ws.guess topic = .ws := if_neg fun h => WcType.noConfusion h.1
  simp only [Subscriber.start, hMama.allocate, hCalls.allocate, hGuess, hWs, ne_eq,
    not_true_eq_false, if_false, hMama.createBasicWildCard,
    createWildCard_eq hCalls.wildcard hFree hRegcomp hShort, if_pos hLen]
  rfl

/-- A topic that is rejected. -/
theorem start_ws_rejected {regex : List Byte} {status : MamaStatus}
    (hWs : ws2posixInto topic topic = some (regex, status)) (hStatus : status ≠ .ok) :
    Subscriber.start mama impl handle topic .ws queue =
      .ok (some (impl, [], status)) := by
  have hGuess : WcType.ws.guess topic = .ws := if_neg fun h => WcType.noConfusion h.1
  simp only [Subscriber.start, hMama.allocate, hCalls.allocate, hGuess, hWs, ne_eq,
    not_true_eq_false, if_false, hStatus, not_false_eq_true, if_true]

end Start

-- ---------------------------------------------------------------------------
-- The literal parts of translated topics
-- ---------------------------------------------------------------------------

theorem bracket_notMem_of_isPlain {s : List Byte} (h : ∀ b ∈ s, isPlain b = true) :
    bracketOpen ∉ s := fun hMem => absurd (h _ hMem) (by decide)

/-- Without a `[^/]+`, only a trailing `.*` is cut off. -/
theorem literalPart_super {text : List Byte} (h : bracketOpen ∉ text) :
    literalPart (text ++ superWildcard) = text ++ [slash] := by
  have hMem : bracketOpen ∉ text ++ superWildcard := by
    rw [List.mem_append]
    exact not_or.mpr ⟨h, by decide⟩
  have hSegment : segmentWildcard = bracketOpen :: [0x5e, 0x2f, 0x5d, 0x2b] := rfl
  have hLen : (text ++ superWildcard).length - 2 = (text ++ [slash]).length := by
    simp [superWildcard]
  have hSplit : text ++ superWildcard = text ++ [slash] ++ [0x2e, 0x2a] := by
    rw [List.append_assoc]
    rfl
  rw [literalPart, hSegment, indexOf_of_notMem hMem]
  simp only [List.suffix_append, if_true, hLen]
  rw [hSplit, List.take_left]

/-- In front of a `[^/]+`. -/
theorem literalPart_segment {text : List Byte} (h : bracketOpen ∉ text) (rest : List Byte) :
    literalPart (text ++ (segmentWildcard ++ rest)) = text := by
  have hIndex : indexOf segmentWildcard (text ++ (segmentWildcard ++ rest)) =
      some text.length := indexOf_append h rest
  rw [literalPart, hIndex]
  exact List.take_left

/-- The text that a leading star becomes is never cut. -/
theorem firstSegment_isPrefix_literalPart (rest : List Byte) :
    firstSegment.tail <+: literalPart (firstSegment.tail ++ rest) := by
  have hIndex : indexOf segmentWildcard (firstSegment.tail ++ rest) =
      (indexOf segmentWildcard rest).map (· + 9) := by
    simp [firstSegment, segmentWildcard, indexOf, Option.map_map, Function.comp_def]
  have hNine : firstSegment.tail.length = 9 := rfl
  have hTake : ∀ n, 9 ≤ n → firstSegment.tail <+: (firstSegment.tail ++ rest).take n := by
    intro n hn
    exact List.prefix_take_iff.mpr ⟨List.prefix_append _ _, hNine ▸ hn⟩
  rw [literalPart, hIndex]
  cases hRest : indexOf segmentWildcard rest with
  | some i => exact hTake (i + 9) (Nat.le_add_left 9 i)
  | none =>
    simp only [Option.map_none]
    split
    · rename_i hSuper
      refine hTake _ ?_
      -- `/.*` does not end inside the first nine bytes or right behind them
      by_contra hShort
      rw [List.length_append, hNine] at hShort
      have hRestLen : rest.length < 2 := by omega
      rcases Nat.lt_or_ge rest.length 1 with hNil | hOne
      · rw [List.length_eq_zero_iff.mp (Nat.lt_one_iff.mp hNil)] at hSuper
        exact absurd hSuper (by decide)
      · obtain ⟨b, rfl⟩ := List.length_eq_one_iff.mp (show rest.length = 1 by omega)
        have hEq := List.suffix_iff_eq_drop.mp hSuper
        simp [superWildcard, firstSegment] at hEq
    · exact List.prefix_append _ _

theorem literalPart_length_le (text : List Byte) :
    (literalPart text).length ≤ text.length := by
  rw [literalPart]
  split
  · exact List.length_take_le' _ _
  · split
    · exact List.length_take_le' _ _
    · exact Nat.le_refl _

/-- However many stars are replaced, the literal part ends at the first. -/
theorem literalPart_replaceStars_le (p s r : List Byte) :
    (literalPart (p ++ replaceStars s ++ r)).length ≤ p.length + s.length + r.length := by
  by_cases hStar : starByte ∈ s
  · obtain ⟨pre, post, rfl, hPre⟩ := List.eq_append_cons_of_mem hStar
    have hText : p ++ replaceStars (pre ++ starByte :: post) ++ r =
        p ++ pre ++ (segmentWildcard ++ (replaceStars post ++ r)) := by
      rw [replaceStars_append, replaceStars_eq_self hPre, replaceStars, if_pos rfl]
      simp only [List.append_assoc]
    obtain ⟨i, hi, hIndex⟩ := indexOf_le (show segmentWildcard ≠ [] by decide) (p ++ pre)
      (replaceStars post ++ r)
    rw [hText, literalPart, hIndex]
    simp only [List.length_append, List.length_take, List.length_cons] at hi ⊢
    omega
  · rw [replaceStars_eq_self hStar]
    refine (literalPart_length_le _).trans_eq ?_
    simp only [List.length_append]

theorem nulFree_replaceStars {s : List Byte} (h : NulFree s) : NulFree (replaceStars s) := by
  induction s with
  | nil => exact h
  | cons b s ih =>
    obtain ⟨hb, hs⟩ := nulFree_cons.mp h
    rw [replaceStars]
    split
    · exact nulFree_append.mpr ⟨by decide, ih hs⟩
    · exact nulFree_cons.mpr ⟨hb, ih hs⟩

theorem nulFree_of_isPlain {s : List Byte} (h : ∀ b ∈ s, isPlain b = true) : NulFree s := by
  rintro _ hb rfl
  exact absurd (h 0 hb) (by decide)

/-- Text without a star matches itself: a dot matches a dot. -/
theorem mem_language_self {s : List Byte} (h : starByte ∉ s) :
    s ∈ language (s.map plainPiece) := by
  induction s with
  | nil => exact Language.nil_mem_one
  | cons b s ih =>
    obtain ⟨hb, hs⟩ := not_or.mp (mt List.mem_cons.mpr h)
    rw [List.map_cons, language_cons, plainPiece, if_neg (Ne.symm hb)]
    refine Language.append_mem_mul (a := [b]) ?_ (ih hs)
    split
    · exact mem_lang_once.mpr ⟨b, ByteSet.mem_any b, rfl⟩
    · exact mem_lang_once.mpr ⟨b, ByteSet.mem_single.mpr rfl, rfl⟩

theorem nulFree_endText (super : Bool) : NulFree (endText super) := by
  cases super with
  | false => decide
  | true => decide

-- ---------------------------------------------------------------------------
-- Hierarchical topics
-- ---------------------------------------------------------------------------

namespace Topic

variable {t : Topic}

theorem nulFree_body (t : Topic) : NulFree t.body := by
  intro b hb
  rcases Topic.mem_body hb with hPlain | rfl | ⟨rfl, -⟩
  · exact (isTopicByte_facts b hPlain).2.2.1
  · decide
  · decide

theorem isPlain_text (t : Topic) : ∀ b ∈ t.text, isPlain b = true := by
  refine List.forall_mem_append.mpr ⟨t.isPlain_body, ?_⟩
  cases t.super with
  | false => exact fun b hb => absurd hb List.not_mem_nil
  | true => decide +kernel

theorem star_mem_body (hStar : t.hasStar = true) : starByte ∈ t.body := by
  rcases List.mem_append.mp (hasStar_iff.mp hStar) with hBody | hEnd
  · exact hBody
  · cases hSuper : t.super with
    | false =>
      rw [hSuper] at hEnd
      exact absurd hEnd List.not_mem_nil
    | true =>
      rw [hSuper] at hEnd
      exact absurd hEnd (by decide)

theorem body_length_lt (t : Topic) (h : t.super = true) :
    t.body.length + 3 = t.text.length := by
  rw [Topic.text, h, List.length_append]
  rfl

theorem body_length_le (t : Topic) : t.body.length ≤ t.text.length :=
  (List.prefix_append _ _).length_le

theorem restText_length_lt (t : Topic) : t.restText.length < t.text.length := by
  have hFirst := List.length_pos_of_ne_nil t.first.text_ne_nil
  have hBody : t.body.length = t.first.text.length + t.restText.length := List.length_append
  have hLe := t.body_length_le
  omega

/-- What stands in front of the first star of a topic is in front of what it stands
for. -/
theorem Matches.isPrefix {pre post s : List Byte} (h : t.Matches s)
    (hFirst : t.first.isStar = false) (hBody : t.body = pre ++ starByte :: post)
    (hPre : starByte ∉ pre) : pre <+: s := by
  have hLiteral : ∀ b ∈ pre, b ≠ starByte ∧ b ≠ dot := by
    intro b hb
    refine ⟨fun hEq => hPre (hEq ▸ hb), fun hEq => t.dot_notMem_body ?_⟩
    rw [hBody]
    exact List.mem_append_left _ (hEq ▸ hb)
  obtain ⟨v, hv, hEnds⟩ := (matches_iff hFirst).mp h
  rw [hBody, List.map_append, language_append] at hv
  obtain ⟨u, hu, w, -, rfl⟩ := Language.mem_mul.mp hv
  obtain rfl := (mem_language_literal hLiteral).mp hu
  unfold EndsWith at hEnds
  split at hEnds
  · obtain ⟨rest, rfl⟩ := hEnds
    rw [List.append_assoc]
    exact List.prefix_append _ _
  · rw [hEnds]
    exact List.prefix_append _ _

/-- A topic with a star behind its first segment stands for no `_INBOX` subject, unless it
begins like one. -/
theorem Matches.not_inbox {s : List Byte} (h : t.Matches s) (hStar : t.hasStar = true)
    (hFirst : t.first.isStar = false) (hInbox : ¬ zmqReplyHandlePrefix <+: t.text) :
    ¬ zmqReplyHandlePrefix <+: s := by
  obtain ⟨part, parts, tail, rfl, hPart, -, hParts, -⟩ := h
  have hText : part = t.first.text := by
    cases hSeg : t.first with
    | star =>
      rw [hSeg] at hFirst
      cases hFirst
    | literal text nonempty plain =>
      rw [hSeg] at hPart
      exact hPart
  -- there is a second segment, so a slash ends the first
  have hNot : ¬ zmqReplyHandlePrefix <+: part ++ [slash] := by
    rw [List.prefix_concat_iff, hText]
    rintro (hEq | hPre)
    · have hSlash : slash ∈ zmqReplyHandlePrefix := by
        rw [hEq]
        exact List.mem_append_right _ (List.mem_singleton_self slash)
      exact absurd hSlash (by decide)
    · refine hInbox (hPre.trans ?_)
      rw [text, body, List.append_assoc]
      exact List.prefix_append _ _
  refine not_inbox_of_isPrefix hNot (List.mem_append_right _ (List.mem_singleton_self slash))
    (by decide) ?_
  cases parts with
  | nil =>
    rw [List.forall₂_nil_right_iff] at hParts
    rw [hasStar, hFirst, hParts] at hStar
    cases hStar
  | cons p parts =>
    refine ⟨p ++ (parts.flatMap fun p => slash :: p) ++ tail, ?_⟩
    simp only [List.flatMap_cons, List.append_assoc, List.cons_append, List.nil_append]

theorem slash_mem_text (hSuper : t.super = true) : slash ∈ t.text := by
  rw [text, hSuper]
  exact List.mem_append_right _ List.mem_cons_self

end Topic

section Hierarchical

variable {calls : SubscriberCalls} (hCalls : calls.Succeed) {mama : MamaSubscription κ Ere}
  (hMama : mama.HandsOver regcomp calls) {impl : DataTransport κ Ere} {made : List (Made κ)}
  (hReg : Registry impl made) (hBound : made.length + 1 < 2 ^ 64)
  {order : List Nat → List Nat} (hOrder : ∀ l, (order l).Perm l) (queue : κ) {t : Topic}
  (hInbox : ¬ zmqReplyHandlePrefix <+: t.text) (hLen : 2 * t.text.length < maxSubjectLength)

include hCalls hMama hReg hBound hOrder

/-- A translated topic is heard by its literal part and its expression. -/
theorem ws_subscriber_hears {topic text : List Byte} {e : Ere}
    (hWs : ws2posixInto topic topic = some (anchorByte :: text, .ok)) (hFree : NulFree text)
    (hRegcomp : regcomp (anchorByte :: text) = some e)
    (hShort : (literalPart text).length < maxSubjectLength) (hTwo : 2 ≤ text.length) :
    ∃ impl' sent, Subscriber.start mama impl made.length topic .ws queue =
        .ok (some (impl', sent, .ok)) ∧
      ∀ m : DataMsg, Hears order impl' sent made.length m.wire ↔
        ¬ zmqReplyHandlePrefix <+: m.subject ∧ literalPart text <+: m.subject ∧
          e.regexec m.subject = true :=
  ⟨_, _, start_ws hCalls hMama hWs hFree hRegcomp hShort hTwo, fun m =>
    hReg.hears_createWildcard hOrder hBound _ e queue m⟩

include hLen

include hInbox in
/-- **A star that does not lead.** -/
theorem ws_subscriber_star (hStar : t.hasStar = true) (hFirst : t.first.isStar = false) :
    ∃ impl' sent, Subscriber.start mama impl made.length t.text .ws queue =
        .ok (some (impl', sent, .ok)) ∧
      ∀ m : DataMsg, Hears order impl' sent made.length m.wire ↔ t.Matches m.subject := by
  obtain ⟨e, hRegcomp, hMatches⟩ := regcomp_ends (lexes_replaceStars t.isPlain_body) t.super
  obtain ⟨pre, post, hBody, hPre⟩ := List.eq_append_cons_of_mem (Topic.star_mem_body hStar)
  have hText : replaceStars t.body ++ endText t.super =
      pre ++ (segmentWildcard ++ (replaceStars post ++ endText t.super)) := by
    rw [hBody, replaceStars_append, replaceStars_eq_self hPre, replaceStars, if_pos rfl]
    simp only [List.append_assoc]
  have hBracket : bracketOpen ∉ pre := by
    intro hMem
    refine bracket_notMem_of_isPlain t.isPlain_body ?_
    rw [hBody]
    exact List.mem_append_left _ hMem
  have hLiteral : literalPart (replaceStars t.body ++ endText t.super) = pre := by
    rw [hText, literalPart_segment hBracket]
  have hFree : NulFree (replaceStars t.body ++ endText t.super) :=
    nulFree_append.mpr ⟨nulFree_replaceStars t.nulFree_body, nulFree_endText _⟩
  have hPreLen : pre.length + 1 ≤ t.text.length := by
    refine Nat.le_trans ?_ t.body_length_le
    rw [hBody, List.length_append, List.length_cons]
    omega
  have hShort : (literalPart (replaceStars t.body ++ endText t.super)).length <
      maxSubjectLength := by
    rw [hLiteral]
    omega
  have hTwo : 2 ≤ (replaceStars t.body ++ endText t.super).length := by
    rw [hText, List.length_append, List.length_append]
    have hFive : segmentWildcard.length = 5 := rfl
    omega
  have hWs : ws2posixInto t.text t.text = _ := Topic.ws2posixInto_star hStar hFirst
  rw [List.cons_append] at hWs hRegcomp
  obtain ⟨impl', sent, hStart, hHears⟩ :=
    ws_subscriber_hears hCalls hMama hReg hBound hOrder queue hWs hFree hRegcomp hShort hTwo
  refine ⟨impl', sent, hStart, fun m => ?_⟩
  rw [hHears, hLiteral, hMatches, ← Topic.matches_iff hFirst]
  constructor
  · exact fun h => h.2.2
  · exact fun hm => ⟨hm.not_inbox hStar hFirst hInbox, hm.isPrefix hFirst hBody hPre, hm⟩

/-- **A leading star** leaves its own regular expression as the literal beginning. -/
theorem ws_subscriber_leadingStar (hFirst : t.first.isStar = true) :
    ∃ impl' sent, Subscriber.start mama impl made.length t.text .ws queue =
        .ok (some (impl', sent, .ok)) ∧
      ∀ m : DataMsg, Hears order impl' sent made.length m.wire →
        firstSegment.tail <+: m.subject := by
  obtain ⟨e, hRegcomp, -⟩ := regcomp_ends t.lexes_leadingStar t.super
  have hRest := t.restText_length_lt
  have hNul : NulFree t.restText := fun b hb => t.nulFree_body b (List.mem_append_right _ hb)
  have hFree : NulFree (firstSegment.tail ++ replaceStars t.restText ++ endText t.super) :=
    nulFree_append.mpr ⟨nulFree_append.mpr ⟨by decide, nulFree_replaceStars hNul⟩,
      nulFree_endText _⟩
  have hNine : firstSegment.tail.length = 9 := rfl
  have hEnd : (endText t.super).length ≤ 3 := by
    cases t.super with
    | false => decide
    | true => decide
  have hShort : (literalPart (firstSegment.tail ++ replaceStars t.restText ++
      endText t.super)).length < maxSubjectLength := by
    have hMax : maxSubjectLength = 256 := rfl
    have hLe := literalPart_replaceStars_le firstSegment.tail t.restText (endText t.super)
    omega
  have hTwo : 2 ≤ (firstSegment.tail ++ replaceStars t.restText ++ endText t.super).length := by
    rw [List.length_append, List.length_append]
    omega
  obtain ⟨impl', sent, hStart, hHears⟩ := ws_subscriber_hears hCalls hMama hReg hBound hOrder queue
    (Topic.ws2posixInto_leadingStar hFirst) hFree hRegcomp hShort hTwo
  refine ⟨impl', sent, hStart, fun m hm => ?_⟩
  have hLiteral := firstSegment_isPrefix_literalPart (replaceStars t.restText ++ endText t.super)
  rw [← List.append_assoc] at hLiteral
  exact hLiteral.trans ((hHears m).mp hm).2.1

include hInbox in
/-- **Without a star, `//.`** is looked for behind the topic itself. -/
theorem ws_subscriber_super (hStar : t.hasStar = false) (hSuper : t.super = true) :
    ∃ impl' sent, Subscriber.start mama impl made.length t.text .ws queue =
        .ok (some (impl', sent, .ok)) ∧
      ∀ m : DataMsg, Hears order impl' sent made.length m.wire ↔
        t.text ++ t.body ++ [slash] <+: m.subject := by
  have hPlain : ∀ b ∈ t.text ++ t.body, isPlain b = true :=
    List.forall_mem_append.mpr ⟨t.isPlain_text, t.isPlain_body⟩
  have hNone : starByte ∉ t.text ++ t.body := by
    rw [List.mem_append]
    refine not_or.mpr ⟨fun hMem => ?_, fun hMem => (Topic.mem_body_of_literal hStar hMem).1 rfl⟩
    exact Bool.false_ne_true (hStar.symm.trans (Topic.hasStar_iff.mpr hMem))
  obtain ⟨e, hRegcomp, hMatches⟩ := regcomp_ends (lexes_replaceStars hPlain) true
  have hWs := Topic.ws2posixInto_super hStar hSuper t.isPlain_text
  rw [List.cons_append, replaceStars_eq_self hNone] at hRegcomp hWs
  have hLiteral : literalPart (t.text ++ t.body ++ endText true) = t.text ++ t.body ++ [slash] :=
    literalPart_super (bracket_notMem_of_isPlain hPlain)
  have hFree : NulFree (t.text ++ t.body ++ endText true) :=
    nulFree_append.mpr ⟨nulFree_of_isPlain hPlain, nulFree_endText true⟩
  have hBody := t.body_length_lt hSuper
  have hShort : (literalPart (t.text ++ t.body ++ endText true)).length < maxSubjectLength := by
    rw [hLiteral]
    simp only [List.length_append, List.length_singleton]
    omega
  have hTwo : 2 ≤ (t.text ++ t.body ++ endText true).length := by
    have hThree : (endText true).length = 3 := rfl
    rw [List.length_append]
    omega
  obtain ⟨impl', sent, hStart, hHears⟩ :=
    ws_subscriber_hears hCalls hMama hReg hBound hOrder queue hWs hFree hRegcomp hShort hTwo
  refine ⟨impl', sent, hStart, fun m => ?_⟩
  rw [hHears, hLiteral, hMatches]
  constructor
  · exact fun h => h.2.1
  · intro hm
    have hText : t.text <+: m.subject := by
      refine List.IsPrefix.trans ?_ hm
      rw [List.append_assoc]
      exact List.prefix_append _ _
    refine ⟨not_inbox_of_isPrefix hInbox (Topic.slash_mem_text hSuper) (by decide) hText, hm, ?_⟩
    -- the expression matches the text that it was made of
    obtain ⟨rest, hEq⟩ := hm
    refine ⟨t.text ++ t.body, mem_language_self hNone, rest, ?_⟩
    rw [← hEq, List.append_assoc]
    rfl

omit hReg hBound hOrder hLen in
/-- **A literal** is rejected. -/
theorem ws_subscriber_literal (hStar : t.hasStar = false) (hSuper : t.super = false) :
    Subscriber.start mama impl made.length t.text .ws queue =
      .ok (some (impl, [], .invalidArg)) := by
  have hText : t.text = t.body := by
    rw [Topic.text, hSuper]
    exact List.append_nil _
  have hTwo : 2 ≤ (t.text ++ t.text).length := by
    have := List.length_pos_of_ne_nil t.body_ne_nil
    rw [hText, List.length_append]
    omega
  have hTranslates := (Topic.translates_literal_iff hStar hSuper).mpr hTwo
  rw [Topic.Translates, if_neg (by rw [hStar, hSuper]; decide)] at hTranslates
  obtain ⟨regex, hWs⟩ := hTranslates
  exact start_ws_rejected hCalls hMama hWs (by decide)

end Hierarchical

/-- A message that is published under a subject. -/
def wireUnder (subject : List Byte) (hFree : NulFree subject)
    (hLen : subject.length ≤ maxSubjectLength) : WireMsg :=
  { publishB.toWireMsg with subject, subject_nulFree := hFree, subject_le := hLen }

theorem wireUnder_handleFits (subject : List Byte) (hFree : NulFree subject)
    (hLen : subject.length ≤ maxSubjectLength) : (wireUnder subject hFree hLen).HandleFits :=
  fun h => ZmqMsgType.noConfusion h

def publishUnder (subject : List Byte) (hFree : NulFree subject)
    (hLen : subject.length ≤ maxSubjectLength) : DataMsg :=
  ⟨wireUnder subject hFree hLen, wireUnder_handleFits subject hFree hLen⟩

/-- A subject that a topic with a leading star stands for. -/
theorem Topic.matches_leadingSample {t : Topic} (hFirst : t.first.isStar = true) :
    t.Matches (0x61 :: t.restSample ++ if t.super then [slash] else []) := by
  have hSeg : t.first = .star := by
    cases hSeg : t.first with
    | star => rfl
    | literal text nonempty plain =>
      rw [hSeg] at hFirst
      cases hFirst
  refine ⟨[0x61], t.rest.map TopicSegment.sample, if t.super then [slash] else [], rfl, ?_,
    fun _ => by decide, t.forall₂_sample, ?_⟩
  · rw [hSeg]
    exact TopicSegment.star.matches_sample
  · cases t.super with
    | false => rfl
    | true => exact ⟨[], rfl⟩

theorem Topic.restSample_length (t : Topic) : t.restSample.length = t.restText.length := by
  have hSeg : ∀ seg : TopicSegment, seg.sample.length = seg.text.length := by
    intro seg
    cases seg with
    | star => rfl
    | literal text nonempty plain => rfl
  unfold Topic.restSample Topic.restText
  induction t.rest with
  | nil => rfl
  | cons seg rest ih =>
    simp only [List.map_cons, List.flatMap_cons, List.length_append, List.length_cons, hSeg, ih]

/-- With a leading star: a message that begins with `a`. -/
theorem Topic.exists_leadingMsg {t : Topic} (hFirst : t.first.isStar = true)
    (hLen : 2 * t.text.length < maxSubjectLength) :
    ∃ m : DataMsg, t.Matches m.subject ∧ ¬ firstSegment.tail <+: m.subject := by
  have hFree : NulFree (0x61 :: t.restSample ++ if t.super then [slash] else []) := by
    refine nulFree_append.mpr ⟨nulFree_cons.mpr ⟨by decide, t.nulFree_restSample⟩, ?_⟩
    cases t.super with
    | false => exact nulFree_nil
    | true => decide
  have hTail : (if t.super then [slash] else []).length ≤ 1 := by
    cases t.super with
    | false => exact Nat.zero_le 1
    | true => exact Nat.le_refl 1
  have hFits : (0x61 :: t.restSample ++ if t.super then [slash] else []).length ≤
      maxSubjectLength := by
    have hRest := t.restText_length_lt
    rw [List.length_append, List.length_cons, t.restSample_length]
    omega
  refine ⟨publishUnder _ hFree hFits, Topic.matches_leadingSample hFirst, fun hPre => ?_⟩
  have hHead : (0x5b : Byte) = 0x61 := (List.cons_prefix_cons.mp hPre).1
  exact absurd hHead (by decide)

/-- With `//.` and no star: a message that is too short. -/
theorem Topic.exists_superMsg {t : Topic} (hStar : t.hasStar = false) (hSuper : t.super = true)
    (hLen : 2 * t.text.length < maxSubjectLength) :
    ∃ m : DataMsg, t.Matches m.subject ∧ ¬ t.text ++ t.body ++ [slash] <+: m.subject := by
  have hFirst : t.first.isStar = false := (Bool.or_eq_false_iff.mp hStar).1
  have hNone : starByte ∉ t.body := fun hMem => (Topic.mem_body_of_literal hStar hMem).1 rfl
  have hBody := t.body_length_lt hSuper
  have hFree : NulFree (t.body ++ [slash]) := nulFree_append.mpr ⟨t.nulFree_body, by decide⟩
  have hFits : (t.body ++ [slash]).length ≤ maxSubjectLength := by
    rw [List.length_append, List.length_singleton]
    omega
  refine ⟨publishUnder _ hFree hFits, ?_, fun hPre => ?_⟩
  · refine (Topic.matches_iff hFirst).mpr ⟨t.body, mem_language_self hNone, ?_⟩
    rw [hSuper]
    exact ⟨[], rfl⟩
  · have hLong : (t.text ++ t.body ++ [slash]).length ≤ (t.body ++ [slash]).length :=
      hPre.length_le
    simp only [List.length_append, List.length_singleton] at hLong
    omega

/--
**What a hierarchical subscriber hears.** For every topic `t` of less than 128 bytes that is
given to `oz::subscriber` as a `WS` topic and does not begin with `_INBOX`, in every state
of the transport, with all calls succeeding:

* the subscriber is started and hears exactly the messages under the subjects that `t`
  stands for, if and only if `t` has a star and does not begin with one;
* with a leading star, it hears only subjects that begin with the text `[^_][^/]*`;
* with `//.` and no star, it hears exactly the subjects that begin with the text of `t`
  followed by `t` again;
* with neither, it is not started.
-/
theorem ws_subscriber_exact_iff {calls : SubscriberCalls} (hCalls : calls.Succeed)
    {mama : MamaSubscription κ Ere} (hMama : mama.HandsOver regcomp calls)
    {impl : DataTransport κ Ere} {made : List (Made κ)} (hReg : Registry impl made)
    (hBound : made.length + 1 < 2 ^ 64) {order : List Nat → List Nat}
    (hOrder : ∀ l, (order l).Perm l) (queue : κ) (t : Topic)
    (hInbox : ¬ zmqReplyHandlePrefix <+: t.text)
    (hLen : 2 * t.text.length < maxSubjectLength) :
    ((∃ impl' sent, Subscriber.start mama impl made.length t.text .ws queue =
          .ok (some (impl', sent, .ok)) ∧
        ∀ m : DataMsg, Hears order impl' sent made.length m.wire ↔ t.Matches m.subject) ↔
      t.hasStar = true ∧ t.first.isStar = false) ∧
    (t.first.isStar = true →
      ∃ impl' sent, Subscriber.start mama impl made.length t.text .ws queue =
          .ok (some (impl', sent, .ok)) ∧
        ∀ m : DataMsg, Hears order impl' sent made.length m.wire →
          firstSegment.tail <+: m.subject) ∧
    (t.hasStar = false → t.super = true →
      ∃ impl' sent, Subscriber.start mama impl made.length t.text .ws queue =
          .ok (some (impl', sent, .ok)) ∧
        ∀ m : DataMsg, Hears order impl' sent made.length m.wire ↔
          t.text ++ t.body ++ [slash] <+: m.subject) ∧
    (t.hasStar = false → t.super = false →
      Subscriber.start mama impl made.length t.text .ws queue =
        .ok (some (impl, [], .invalidArg))) := by
  have hLeading := ws_subscriber_leadingStar hCalls hMama hReg hBound hOrder queue hLen
  have hSuper := ws_subscriber_super hCalls hMama hReg hBound hOrder queue hInbox hLen
  have hLiteral := @ws_subscriber_literal κ calls hCalls mama hMama impl made queue t
  refine ⟨⟨?_, fun h => ws_subscriber_star hCalls hMama hReg hBound hOrder queue hInbox hLen
    h.1 h.2⟩, hLeading, hSuper, hLiteral⟩
  rintro ⟨impl', sent, hStart, hExact⟩
  cases hFirst : t.first.isStar with
  | true =>
    obtain ⟨impl'', sent', hStart', hOnly⟩ := hLeading hFirst
    rw [hStart'] at hStart
    cases hStart
    obtain ⟨m, hMatches, hOther⟩ := Topic.exists_leadingMsg hFirst hLen
    exact absurd (hOnly m ((hExact m).mpr hMatches)) hOther
  | false =>
    cases hStar : t.hasStar with
    | true => exact ⟨rfl, rfl⟩
    | false =>
      cases hEnd : t.super with
      | false =>
        rw [hLiteral hStar hEnd] at hStart
        cases hStart
      | true =>
        obtain ⟨impl'', sent', hStart', hOnly⟩ := hSuper hStar hEnd
        rw [hStart'] at hStart
        cases hStart
        obtain ⟨m, hMatches, hOther⟩ := Topic.exists_superMsg hStar hEnd hLen
        exact absurd ((hOnly m).mp ((hExact m).mpr hMatches)) hOther

/-- Every call succeeds. -/
def SubscriberCalls.allOk : SubscriberCalls :=
  ⟨.ok, ⟨true, true, true, true, CharArray.zero _⟩, .allOk⟩

theorem SubscriberCalls.allOk_succeed : SubscriberCalls.allOk.Succeed :=
  ⟨rfl, rfl, rfl, rfl, rfl, WildcardCalls.allOk_succeed⟩

/-- A new transport. -/
theorem registry_init (mUuid : Uuid) :
    Registry (DataTransport.init mUuid : DataTransport Unit Ere) [] :=
  (World.inv_init mUuid fun _ => publishB.bridgeMsg).registry

theorem ws_subscriber_exact_segment :
    ∃ impl' sent, Subscriber.start (.direct regcomp .allOk) (DataTransport.init uuidA) 0
        [0x61, slash, starByte] .ws () = .ok (some (impl', sent, .ok)) ∧
      ∀ m : DataMsg, Hears id impl' sent 0 m.wire ↔
        Topic.Matches ⟨segmentA, [.star], false⟩ m.subject :=
  (ws_subscriber_exact_iff SubscriberCalls.allOk_succeed
    (MamaSubscription.direct_handsOver regcomp .allOk) (registry_init uuidA) (by decide)
    List.Perm.refl () ⟨segmentA, [.star], false⟩ (by decide) (by decide)).1.mpr ⟨rfl, rfl⟩

-- ---------------------------------------------------------------------------
-- Guessed types
-- ---------------------------------------------------------------------------

theorem isRegexByte_iff : ∀ b, isPlain b = true → b ≠ starByte →
    (regexBytes.contains b = true ↔ b = dot) := by
  decide +kernel

/-- A topic of plain text without stars is guessed by its dots. -/
theorem guess_plain {topic : List Byte} (hPlain : ∀ b ∈ topic, isPlain b = true)
    (hStar : starByte ∉ topic) :
    WcType.unspecified.guess topic = if dot ∈ topic then .posix else .unspecified := by
  have hAny : topic.any (regexBytes.contains ·) = true ↔ dot ∈ topic := by
    rw [List.any_eq_true]
    constructor
    · rintro ⟨b, hb, hRegex⟩
      have hDot := (isRegexByte_iff b (hPlain b hb) fun h => hStar (h ▸ hb)).mp hRegex
      exact hDot ▸ hb
    · exact fun hDot => ⟨dot, hDot, by decide⟩
  simp only [WcType.guess, hAny, true_and]

/-- Without an anchor, three bytes are looked at in front of the end of the topic. -/
theorem wildcardTopic_plain {topic : List Byte} (hNil : topic ≠ [])
    (hPlain : ∀ b ∈ topic, isPlain b = true) (hStar : starByte ∉ topic)
    (hLen : topic.length < maxSubjectLength) :
    Subscription.wildcardTopic topic =
      if 3 ≤ topic.length then .ok topic else .error .readOutside := by
  have hFree := nulFree_of_isPlain hPlain
  have hRead : ∃ b, readByte (topic ++ [0]) 0 = .ok b ∧ b ≠ anchorByte := by
    obtain ⟨b, rest, rfl⟩ := List.exists_cons_of_ne_nil hNil
    refine ⟨b, rfl, ?_⟩
    rintro rfl
    exact absurd (hPlain _ List.mem_cons_self) (by decide)
  obtain ⟨b, hRead, hAnchor⟩ := hRead
  have hCopy : readCstr (topic ++ [0]) 0 = .ok topic := readCstr_at (p := []) hFree
  have hStrlen : strlen (topic ++ [0]) 0 = .ok topic.length := strlen_at (p := []) hFree
  have hStrstr : strstr (topic ++ [0]) 0 segmentWildcard = .ok none := by
    have hIndex : indexOf segmentWildcard topic = none :=
      indexOf_of_notMem (bracket_notMem_of_isPlain hPlain)
    rw [strstr, hCopy]
    exact congrArg Except.ok hIndex
  have hMax : maxSubjectLength = 256 := rfl
  have hNarrow : narrowInt topic.length = topic.length := narrowInt_of_lt (by omega)
  simp only [Subscription.wildcardTopic, hRead, ok_bind, if_neg hAnchor, hStrstr, hStrlen,
    hNarrow, hCopy]
  by_cases hThree : 3 ≤ topic.length
  · -- the last three bytes are not `/.*`
    have hDrop : (((0 : Nat) : Int) + ((topic.length : Int) - 3)).toNat = topic.length - 3 := by
      omega
    have hNot : topic.drop (topic.length - 3) ≠ superWildcard := fun hEq =>
      hStar (List.mem_of_mem_drop (hEq ▸ (by decide : starByte ∈ superWildcard)))
    have hCmp : strcmpEq (topic ++ [0]) (((0 : Nat) : Int) + ((topic.length : Int) - 3))
        superWildcard = .ok false := by
      rw [strcmpEq, if_neg (by omega), hDrop, List.drop_append_of_le_length (by omega),
        strcmpGo_cstr (fun b hb => hFree b (List.mem_of_mem_drop hb)) (by decide),
        decide_eq_false hNot]
    rw [hCmp, if_pos hThree]
    rfl
  · have hOutside : strcmpEq (topic ++ [0]) (((0 : Nat) : Int) + ((topic.length : Int) - 3))
        superWildcard = .error .readOutside := if_pos (by omega)
    rw [hOutside, if_neg hThree, error_bind]

/-- Plain text compiles to an expression that matches wherever the text is. -/
theorem regcomp_plain {topic : List Byte} (hNil : topic ≠ [])
    (hPlain : ∀ b ∈ topic, isPlain b = true) (hStar : starByte ∉ topic) :
    ∃ e, regcomp topic = some e ∧ ∀ s, topic <+: s → e.regexec s = true := by
  have hLex := lexes_replaceStars hPlain
  rw [replaceStars_eq_self hStar] at hLex
  have hSelf := mem_language_self hStar
  obtain ⟨b, rest, rfl⟩ := List.exists_cons_of_ne_nil hNil
  refine ⟨_, regcomp_anywhere hLex, fun s hs => ?_⟩
  exact regexec_anywhere.mpr ⟨b :: rest, hSelf, hs.isInfix⟩

section Guessed

variable {calls : SubscriberCalls} (hCalls : calls.Succeed) {mama : MamaSubscription κ Ere}
  (hMama : mama.HandsOver regcomp calls) {impl : DataTransport κ Ere} {handle : Nat}
  {queue : κ} {topic : List Byte} (hFree : NulFree topic)
  (hLen : topic.length < maxSubjectLength)

include hCalls hMama hFree hLen

/-- A basic subscription, whose key is the topic. -/
theorem start_basic {wcType : WcType} (hType : wcType.guess topic = .unspecified ∨
      wcType.guess topic = .none) :
    Subscriber.start mama impl handle topic wcType queue =
      .ok (some (SubscriptionImpl.create impl handle ⟨topic, hFree, hLen⟩ queue true)) := by
  have hKey : SubscriptionImpl.generateSubjectKey calls.basic.stack none none (some topic) true =
      .ok (some topic, .ok) := by
    rw [generateSubjectKey_topic hFree, List.take_of_length_le (Nat.le_sub_one_of_lt hLen)]
  have hSubjectKey : subjectKeyOf (some topic) = .ok ⟨topic, hFree, hLen⟩ :=
    dif_pos ⟨hFree, hLen⟩
  have hCreate : Subscription.create calls.basic impl handle none (some topic) queue =
      .ok (SubscriptionImpl.create impl handle ⟨topic, hFree, hLen⟩ queue true) := by
    simp only [Subscription.create, hCalls.basicAllocate, hCalls.strdupKey, hCalls.register,
      hCalls.send, hKey, hSubjectKey, ok_bind, Bool.not_true, Bool.false_eq_true, if_false,
      if_true]
    rfl
  rcases hType with hType | hType
  · simp only [Subscriber.start, hMama.allocate, hCalls.allocate, hType, hMama.createBasic,
      hCreate, ne_eq, not_true_eq_false, if_false]
    rfl
  · simp only [Subscriber.start, hMama.allocate, hCalls.allocate, hType, hMama.createBasic,
      hCreate, ne_eq, not_true_eq_false, if_false]
    rfl

/-- A wildcard subscription to text that is all literal. -/
theorem start_posix {wcType : WcType} {e : Ere} (hType : wcType.guess topic = .posix)
    (hTopic : Subscription.wildcardTopic topic = .ok topic)
    (hRegcomp : regcomp topic = some e) :
    Subscriber.start mama impl handle topic wcType queue =
      .ok (some (SubscriptionImpl.createWildcard impl handle ⟨topic, hFree, hLen⟩ e queue
        true)) := by
  have hKey : SubscriptionImpl.generateSubjectKey calls.wildcard.stack none none (some topic)
      true = .ok (some topic, .ok) := by
    rw [generateSubjectKey_topic hFree, List.take_of_length_le (Nat.le_sub_one_of_lt hLen)]
  have hSubjectKey : subjectKeyOf (some topic) = .ok ⟨topic, hFree, hLen⟩ :=
    dif_pos ⟨hFree, hLen⟩
  have hCalls' := hCalls.wildcard
  have hCreate : Subscription.createWildCard regcomp calls.wildcard impl handle (some topic)
      queue =
        .ok (SubscriptionImpl.createWildcard impl handle ⟨topic, hFree, hLen⟩ e queue true) := by
    simp only [Subscription.createWildCard, hCalls'.allocate, hCalls'.strdupRegex,
      hCalls'.alloca, hCalls'.callocRegex, hCalls'.strdupKey, hCalls'.listElement, hCalls'.send,
      hTopic, hRegcomp, hKey, hSubjectKey, ok_bind, Bool.not_true, Bool.false_eq_true, if_false]
    rfl
  simp only [Subscriber.start, hMama.allocate, hCalls.allocate, hType,
    hMama.createBasicWildCard, hCreate, ne_eq, not_true_eq_false, if_false]
  rfl

omit hFree hLen in
theorem start_posix_faults {wcType : WcType} {f : Fault} (hType : wcType.guess topic = .posix)
    (hTopic : Subscription.wildcardTopic topic = .error f) :
    Subscriber.start mama impl handle topic wcType queue = .error f := by
  have hCalls' := hCalls.wildcard
  have hCreate : Subscription.createWildCard regcomp calls.wildcard impl handle (some topic)
      queue = .error f := by
    simp only [Subscription.createWildCard, hCalls'.allocate, hCalls'.strdupRegex,
      hCalls'.alloca, hTopic, error_bind, Bool.not_true, Bool.false_eq_true, if_false]
  simp only [Subscriber.start, hMama.allocate, hCalls.allocate, hType,
    hMama.createBasicWildCard, hCreate, ne_eq, not_true_eq_false, if_false]
  rfl

end Guessed

/--
**What a subscriber to plain text hears.** A topic of less than 256 letters, digits, `-`,
`_`, `/` and dots that does not begin with `_INBOX`, in every state of the transport, with
all calls succeeding. Given to `oz::subscriber` as no wildcard, it is heard as it is. With
the type left open

* it is heard as it is if it has no dot;
* with a dot it is taken for a regular expression, and every subject that begins with it is
  heard;
* with a dot and less than three bytes, `createWildCard` reads in front of its copy of it.
-/
theorem guessed_subscriber_hears {calls : SubscriberCalls} (hCalls : calls.Succeed)
    {mama : MamaSubscription κ Ere} (hMama : mama.HandsOver regcomp calls)
    {impl : DataTransport κ Ere} {made : List (Made κ)} (hReg : Registry impl made)
    (hBound : made.length + 1 < 2 ^ 64) {order : List Nat → List Nat}
    (hOrder : ∀ l, (order l).Perm l) (queue : κ) {topic : List Byte}
    (hPlain : ∀ b ∈ topic, isPlain b = true) (hStar : starByte ∉ topic)
    (hInbox : ¬ zmqReplyHandlePrefix <+: topic) (hLen : topic.length < maxSubjectLength) :
    (∃ impl' sent, Subscriber.start mama impl made.length topic .none queue =
        .ok (some (impl', sent, .ok)) ∧
      ∀ m : DataMsg, Hears order impl' sent made.length m.wire ↔ topic = m.subject) ∧
    (if dot ∈ topic ∧ topic.length < 3 then
      Subscriber.start mama impl made.length topic .unspecified queue =
        .error .readOutside
    else
      ∃ impl' sent, Subscriber.start mama impl made.length topic .unspecified queue =
          .ok (some (impl', sent, .ok)) ∧
        ∀ m : DataMsg, Hears order impl' sent made.length m.wire ↔
          if dot ∈ topic then topic <+: m.subject else topic = m.subject) := by
  have hFree := nulFree_of_isPlain hPlain
  have hGuess := guess_plain hPlain hStar
  have hNone : WcType.none.guess topic = .none := if_neg fun h => WcType.noConfusion h.1
  -- as a basic subscription the topic is the subject
  have hBasic : ∀ m : DataMsg, Hears order
      (SubscriptionImpl.create impl made.length ⟨topic, hFree, hLen⟩ queue true).1
      (SubscriptionImpl.create impl made.length ⟨topic, hFree, hLen⟩ queue true).2.1
      made.length m.wire ↔ topic = m.subject := by
    intro m
    refine (hReg.hears_create hOrder hBound ⟨topic, hFree, hLen⟩ queue m).trans ?_
    exact and_iff_right_of_imp fun hEq => hEq ▸ hInbox
  refine ⟨⟨_, _, start_basic hCalls hMama hFree hLen (Or.inr hNone), hBasic⟩, ?_⟩
  by_cases hDot : dot ∈ topic
  · have hNil : topic ≠ [] := List.ne_nil_of_mem hDot
    have hTopic := wildcardTopic_plain hNil hPlain hStar hLen
    rw [if_pos hDot] at hGuess
    by_cases hShort : topic.length < 3
    · rw [if_pos ⟨hDot, hShort⟩]
      rw [if_neg (by omega)] at hTopic
      exact start_posix_faults hCalls hMama hGuess hTopic
    · rw [if_neg fun h => hShort h.2]
      rw [if_pos (by omega)] at hTopic
      obtain ⟨e, hRegcomp, hMatches⟩ := regcomp_plain hNil hPlain hStar
      refine ⟨_, _, start_posix hCalls hMama hFree hLen hGuess hTopic hRegcomp, fun m => ?_⟩
      rw [if_pos hDot]
      refine (hReg.hears_createWildcard hOrder hBound ⟨topic, hFree, hLen⟩ e queue m).trans ?_
      constructor
      · exact fun h => h.2.1
      · exact fun hm => ⟨not_inbox_of_isPrefix hInbox hDot (by decide) hm, hm,
          hMatches m.subject hm⟩
  · rw [if_neg hDot] at hGuess
    rw [if_neg fun h => hDot h.1]
    refine ⟨_, _, start_basic hCalls hMama hFree hLen (Or.inl hGuess), fun m => ?_⟩
    rw [if_neg hDot]
    exact hBasic m

/-- A subscriber to `a.b` hears a message under `a.bc`. -/
theorem guessed_subscriber_overhears :
    ∃ impl' sent, Subscriber.start (.direct regcomp .allOk) (DataTransport.init uuidA) 0
        [0x61, dot, 0x62] .unspecified () = .ok (some (impl', sent, .ok)) ∧
      ∀ m : DataMsg, m.subject = [0x61, dot, 0x62, 0x63] → Hears id impl' sent 0 m.wire := by
  obtain ⟨impl', sent, hStart, hHears⟩ :=
    (guessed_subscriber_hears SubscriberCalls.allOk_succeed
      (MamaSubscription.direct_handsOver regcomp .allOk) (registry_init uuidA) (by decide)
      List.Perm.refl () (show ∀ b ∈ [0x61, dot, 0x62], isPlain b = true by decide +kernel)
      (by decide) (by decide) (by decide)).2
  refine ⟨impl', sent, hStart, fun m hm => (hHears m).mpr ?_⟩
  rw [if_pos (by decide), hm]
  decide

end ZmqBridge
