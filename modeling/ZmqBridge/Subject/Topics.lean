import ZmqBridge.Lib.ErePieces
import ZmqBridge.Model.Wildcard

/-!
# ZmqBridge — hierarchical topics as regular expressions

`ws2posix` turns a topic of `/`-separated segments into an extended regular
expression by editing a string: the stars are replaced, a trailing `/.` becomes `.*`,
and the result is anchored. A topic with a star is written to the result string,
any other is appended to what the string holds.

* `Topic.Matches`           — what a topic stands for;
* `Topic.Translates`        — the expression matches exactly that, or the topic is
  rejected;
* `ws2posix_translates_iff` — which topics are translated, and after which contents of
  the result string;
* `topics_mistranslated`    — a leading star matches a slash, what the string held
  stays in front of a topic without a star, and one character throws.
-/

namespace ZmqBridge

open Lib Ascii

-- ---------------------------------------------------------------------------
-- Topics
-- ---------------------------------------------------------------------------

/-- Letters, digits, `-` and `_`. -/
def isTopicByte (b : Byte) : Bool :=
  (decide (0x30 ≤ b) && decide (b ≤ 0x39)) || (decide (0x41 ≤ b) && decide (b ≤ 0x5a)) ||
    (decide (0x61 ≤ b) && decide (b ≤ 0x7a)) || b = minus || b = 0x5f

/-- A segment: a star, or a literal that is not empty. -/
inductive TopicSegment where
  | star
  | literal (text : List Byte) (nonempty : text ≠ [])
      (plain : ∀ b ∈ text, isTopicByte b = true)

def TopicSegment.isStar : TopicSegment → Bool
  | .star => true
  | .literal .. => false

def TopicSegment.text : TopicSegment → List Byte
  | .star => [starByte]
  | .literal text .. => text

/-- A topic: its segments, and whether it ends in `//.`. -/
structure Topic where
  first : TopicSegment
  rest : List TopicSegment
  super : Bool

/-- The segments with slashes in between. -/
def Topic.body (t : Topic) : List Byte :=
  t.first.text ++ t.rest.flatMap fun seg => slash :: seg.text

def Topic.text (t : Topic) : List Byte :=
  t.body ++ if t.super then [slash, slash, dot] else []

def Topic.hasStar (t : Topic) : Bool := t.first.isStar || t.rest.any TopicSegment.isStar

/-- A literal matches itself, a star any segment that is not empty. -/
def TopicSegment.Matches : TopicSegment → List Byte → Prop
  | .star, part => part ≠ [] ∧ slash ∉ part
  | .literal text .., part => part = text

/-- **What a topic stands for**: its segments one by one, where a leading star does not
match a beginning underscore, and with `//.` anything behind another slash. -/
def Topic.Matches (t : Topic) (s : List Byte) : Prop :=
  ∃ part parts tail, s = part ++ (parts.flatMap fun p => slash :: p) ++ tail ∧
    t.first.Matches part ∧ (t.first.isStar = true → part.head? ≠ some 0x5f) ∧
    List.Forall₂ TopicSegment.Matches t.rest parts ∧
    if t.super then ∃ rest, tail = slash :: rest else tail = []

/-- **A topic is translated**: to an expression for what it stands for, or, if there is
nothing to translate, to an error. -/
def Topic.Translates (t : Topic) (out : List Byte) : Prop :=
  if t.hasStar = true ∨ t.super = true then
    ∃ regex e, ws2posixInto t.text out = some (regex, .ok) ∧ regcomp regex = some e ∧
      ∀ s, NulFree s → (e.regexec s = true ↔ t.Matches s)
  else ∃ regex, ws2posixInto t.text out = some (regex, .invalidArg)

/-- **When a topic is translated.** With a star, the first segment is none. With `//.` and
no star, the result string is empty. With neither, the text in it gets longer than one
character. -/
def Topic.TranslatableInto (t : Topic) (out : List Byte) : Prop :=
  if t.hasStar = true then t.first.isStar = false
  else if t.super = true then out = []
  else 2 ≤ (out ++ t.text).length

/-- Text that has no operators of regular expressions but stars and dots. -/
def isPlain (b : Byte) : Bool := isTopicByte b || b = slash || b = starByte || b = dot

-- ---------------------------------------------------------------------------
-- Bytes
-- ---------------------------------------------------------------------------

theorem isTopicByte_facts : ∀ b, isTopicByte b = true →
    isSpecial b = false ∧ b ≠ slash ∧ b ≠ 0 ∧ b ≠ starByte ∧ b ≠ dot := by
  decide +kernel

theorem TopicSegment.text_ne_nil (seg : TopicSegment) : seg.text ≠ [] := by
  cases seg with
  | star => exact List.cons_ne_nil _ _
  | literal text nonempty plain => exact nonempty

theorem TopicSegment.mem_text {seg : TopicSegment} {b : Byte} (h : b ∈ seg.text) :
    isTopicByte b = true ∨ b = starByte ∧ seg.isStar = true := by
  cases seg with
  | star => exact Or.inr ⟨List.mem_singleton.mp h, rfl⟩
  | literal text nonempty plain => exact Or.inl (plain b h)

theorem Topic.mem_body {t : Topic} {b : Byte} (h : b ∈ t.body) :
    isTopicByte b = true ∨ b = slash ∨ b = starByte ∧ t.hasStar = true := by
  rcases List.mem_append.mp h with hFirst | hRest
  · rcases TopicSegment.mem_text hFirst with hPlain | ⟨hStar, hSeg⟩
    · exact Or.inl hPlain
    · exact Or.inr (Or.inr ⟨hStar, by rw [Topic.hasStar, hSeg, Bool.true_or]⟩)
  · obtain ⟨seg, hMem, hb⟩ := List.mem_flatMap.mp hRest
    rcases List.mem_cons.mp hb with hSlash | hText
    · exact Or.inr (Or.inl hSlash)
    · rcases TopicSegment.mem_text hText with hPlain | ⟨hStar, hSeg⟩
      · exact Or.inl hPlain
      · refine Or.inr (Or.inr ⟨hStar, ?_⟩)
        rw [Topic.hasStar, List.any_eq_true.mpr ⟨seg, hMem, hSeg⟩, Bool.or_true]

theorem Topic.body_ne_nil (t : Topic) : t.body ≠ [] := fun h =>
  t.first.text_ne_nil (List.append_eq_nil_iff.mp h).1

theorem Topic.dot_notMem_body (t : Topic) : dot ∉ t.body := by
  intro h
  rcases Topic.mem_body h with hPlain | hSlash | ⟨hStar, -⟩
  · exact (isTopicByte_facts _ hPlain).2.2.2.2 rfl
  · exact absurd hSlash (by decide)
  · exact absurd hStar (by decide)

theorem Topic.isPlain_body {t : Topic} : ∀ b ∈ t.body, isPlain b = true := by
  intro b hb
  unfold isPlain
  rcases Topic.mem_body hb with hPlain | rfl | ⟨rfl, -⟩
  · rw [hPlain]
    rfl
  · rfl
  · rfl

-- ---------------------------------------------------------------------------
-- Stars
-- ---------------------------------------------------------------------------

theorem replaceStars_append (s t : List Byte) :
    replaceStars (s ++ t) = replaceStars s ++ replaceStars t := by
  induction s with
  | nil => rfl
  | cons b s ih =>
    rw [List.cons_append, replaceStars, replaceStars]
    split
    · rw [ih, List.append_assoc]
    · rw [ih, List.cons_append]

theorem replaceStars_eq_self {s : List Byte} (h : starByte ∉ s) : replaceStars s = s := by
  induction s with
  | nil => rfl
  | cons b s ih =>
    obtain ⟨hb, hs⟩ := not_or.mp (mt List.mem_cons.mpr h)
    rw [replaceStars, if_neg (Ne.symm hb), ih hs]

theorem length_le_replaceStars (s : List Byte) : s.length ≤ (replaceStars s).length := by
  induction s with
  | nil => exact Nat.le_refl _
  | cons b s ih =>
    rw [replaceStars]
    split
    · rw [List.length_append, List.length_cons]
      have hSegment : segmentWildcard.length = 5 := rfl
      omega
    · exact Nat.succ_le_succ ih

/-- What a byte of plain text becomes. -/
def plainPiece (b : Byte) : Piece :=
  if b = starByte then ⟨⟨true, [(slash, slash)]⟩, some 1⟩
  else if b = dot then ⟨.any, none⟩
  else ⟨.single b, none⟩

/-- **Plain text is read byte by byte.** -/
theorem lexes_replaceStars {s : List Byte} (h : ∀ b ∈ s, isPlain b = true) :
    Lexes (replaceStars s) ((s.map plainPiece).flatMap Piece.tokens) := by
  induction s with
  | nil => exact lexes_nil
  | cons b s ih =>
    obtain ⟨hb, hs⟩ := List.forall_mem_cons.mp h
    rw [List.map_cons, List.flatMap_cons, replaceStars]
    split
    · rename_i hStar
      rw [plainPiece, if_pos hStar]
      refine Lexes.append ?_ (ih hs)
      have hSegment := (lexes_negated (b := slash) (by decide)).append
        (lexes_special plus (.dup 1 none) rfl)
      exact hSegment
    · rename_i hStar
      rw [plainPiece, if_neg hStar]
      split
      · rename_i hDot
        rw [hDot]
        exact Lexes.append (lexes_special dot (.set .any) rfl) (ih hs)
      · rename_i hDot
        refine Lexes.append (lexes_ordinary ?_) (ih hs)
        simp only [isPlain, Bool.or_eq_true, decide_eq_true_eq] at hb
        rcases hb with ((hPlain | hSlash) | h) | h
        · exact (isTopicByte_facts b hPlain).1
        · rw [hSlash]
          decide
        · exact absurd h hStar
        · exact absurd h hDot

-- ---------------------------------------------------------------------------
-- Languages
-- ---------------------------------------------------------------------------

theorem plainPiece_lang_nil (b : Byte) : [] ∉ (plainPiece b).lang := by
  intro h
  unfold plainPiece at h
  split at h
  · exact absurd h.2 (Nat.not_succ_le_zero 0)
  · split at h
    · exact absurd h.2 Nat.zero_ne_one
    · exact absurd h.2 Nat.zero_ne_one

/-- A literal matches itself. -/
theorem mem_language_literal {l : List Byte} (h : ∀ b ∈ l, b ≠ starByte ∧ b ≠ dot) :
    ∀ {w : List Byte}, w ∈ language (l.map plainPiece) ↔ w = l := by
  induction l with
  | nil =>
    intro w
    exact Iff.rfl
  | cons b l ih =>
    intro w
    obtain ⟨⟨hStar, hDot⟩, hl⟩ := List.forall_mem_cons.mp h
    have hPiece : plainPiece b = ⟨.single b, none⟩ := by
      rw [plainPiece, if_neg hStar, if_neg hDot]
    rw [List.map_cons, language_cons, Language.mem_mul, hPiece]
    constructor
    · rintro ⟨u, hu, v, hv, rfl⟩
      obtain ⟨c, hc, rfl⟩ := mem_lang_once.mp hu
      rw [ByteSet.mem_single.mp hc, (ih hl).mp hv]
      rfl
    · rintro rfl
      exact ⟨[b], mem_lang_once.mpr ⟨b, ByteSet.mem_single.mpr rfl, rfl⟩, l, (ih hl).mpr rfl, rfl⟩

theorem mem_language_segment {seg : TopicSegment} {w : List Byte} :
    w ∈ language (seg.text.map plainPiece) ↔ seg.Matches w := by
  cases seg with
  | star =>
    have hOne : language (TopicSegment.star.text.map plainPiece) = (plainPiece starByte).lang :=
      mul_one _
    rw [hOne, TopicSegment.Matches, plainPiece, if_pos rfl, mem_lang]
    simp only [ByteSet.mem_negated]
    constructor
    · rintro ⟨hAll, hLen⟩
      exact ⟨List.ne_nil_of_length_pos hLen, fun hSlash => hAll slash hSlash rfl⟩
    · rintro ⟨hNil, hSlash⟩
      exact ⟨fun b hb hEq => hSlash (hEq ▸ hb), List.length_pos_of_ne_nil hNil⟩
  | literal text nonempty plain =>
    refine mem_language_literal fun b hb => ?_
    have hFacts := isTopicByte_facts b (plain b hb)
    exact ⟨hFacts.2.2.2.1, hFacts.2.2.2.2⟩

/-- A slash and what follows. -/
theorem mem_language_slash {ps : List Piece} {w : List Byte} :
    w ∈ language (plainPiece slash :: ps) ↔ ∃ v ∈ language ps, w = slash :: v := by
  rw [language_cons, Language.mem_mul]
  have hSlash : ∀ u, u ∈ (plainPiece slash).lang ↔ u = [slash] := by
    intro u
    refine mem_lang_once.trans ?_
    constructor
    · rintro ⟨b, hb, rfl⟩
      rw [ByteSet.mem_single.mp hb]
    · rintro rfl
      exact ⟨slash, ByteSet.mem_single.mpr rfl, rfl⟩
  constructor
  · rintro ⟨u, hu, v, hv, rfl⟩
    rw [(hSlash u).mp hu]
    exact ⟨v, hv, rfl⟩
  · rintro ⟨v, hv, rfl⟩
    exact ⟨[slash], (hSlash _).mpr rfl, v, hv, rfl⟩

/-- The segments behind the first. -/
theorem mem_language_rest {rest : List TopicSegment} : ∀ {w : List Byte},
    w ∈ language ((rest.flatMap fun seg => slash :: seg.text).map plainPiece) ↔
      ∃ parts, w = (parts.flatMap fun p => slash :: p) ∧
        List.Forall₂ TopicSegment.Matches rest parts := by
  induction rest with
  | nil =>
    intro w
    constructor
    · intro hw
      exact ⟨[], hw, .nil⟩
    · rintro ⟨parts, rfl, hParts⟩
      cases hParts
      exact Language.nil_mem_one
  | cons seg rest ih =>
    intro w
    rw [List.flatMap_cons, List.map_append, language_append, Language.mem_mul]
    constructor
    · rintro ⟨u, hu, v, hv, rfl⟩
      obtain ⟨part, hPart, rfl⟩ := mem_language_slash.mp hu
      obtain ⟨parts, rfl, hParts⟩ := ih.mp hv
      exact ⟨part :: parts, rfl, .cons (mem_language_segment.mp hPart) hParts⟩
    · rintro ⟨parts, rfl, hParts⟩
      obtain ⟨part, parts, hPart, hRest, rfl⟩ := List.forall₂_cons_left_iff.mp hParts
      exact ⟨slash :: part, mem_language_slash.mpr ⟨part, mem_language_segment.mpr hPart, rfl⟩, _,
        ih.mpr ⟨parts, rfl, hRest⟩, rfl⟩

/-- **The pieces of a topic** match its segments one by one. -/
theorem Topic.mem_language_body {t : Topic} {w : List Byte} :
    w ∈ language (t.body.map plainPiece) ↔ ∃ part parts,
      w = part ++ (parts.flatMap fun p => slash :: p) ∧ t.first.Matches part ∧
        List.Forall₂ TopicSegment.Matches t.rest parts := by
  rw [Topic.body, List.map_append, language_append, Language.mem_mul]
  constructor
  · rintro ⟨u, hu, v, hv, rfl⟩
    obtain ⟨parts, rfl, hParts⟩ := mem_language_rest.mp hv
    exact ⟨u, parts, rfl, mem_language_segment.mp hu, hParts⟩
  · rintro ⟨part, parts, rfl, hPart, hParts⟩
    exact ⟨part, mem_language_segment.mpr hPart, _,
      mem_language_rest.mpr ⟨parts, rfl, hParts⟩, rfl⟩

-- ---------------------------------------------------------------------------
-- Ends
-- ---------------------------------------------------------------------------

/-- What stands at the end of the expression. -/
def endText (super : Bool) : List Byte := if super then superWildcard else [endByte]

/-- `…/` and anything, or nothing more. -/
def EndsWith (super : Bool) (v s : List Byte) : Prop :=
  if super then ∃ rest, s = v ++ slash :: rest else s = v

/-- **An anchored expression** of plain pieces, up to its end. -/
theorem regcomp_ends {text : List Byte} {ps : List Piece}
    (hLex : Lexes text (ps.flatMap Piece.tokens)) (super : Bool) :
    ∃ e, regcomp (anchorByte :: text ++ endText super) = some e ∧
      ∀ s, e.regexec s = true ↔ ∃ v ∈ language ps, EndsWith super v s := by
  cases super with
  | false =>
    refine ⟨_, regcomp_whole hLex, fun s => regexec_whole.trans ?_⟩
    constructor
    · intro hs
      exact ⟨s, hs, rfl⟩
    · rintro ⟨v, hv, rfl⟩
      exact hv
  | true =>
    have hAny : Lexes [dot, starByte] (Piece.tokens ⟨.any, some 0⟩) :=
      (lexes_special dot (.set .any) rfl).append
        (lexes_special starByte (.dup 0 none) rfl)
    have hSlash : Lexes [slash] (Piece.tokens (plainPiece slash)) :=
      lexes_ordinary (by decide)
    have hAll : Lexes (text ++ superWildcard)
        ((ps ++ [plainPiece slash, ⟨.any, some 0⟩]).flatMap Piece.tokens) := by
      rw [List.flatMap_append]
      exact hLex.append (hSlash.append hAny)
    refine ⟨_, regcomp_beginning hAll, fun s => regexec_beginning.trans ?_⟩
    constructor
    · rintro ⟨w, hw, rest, rfl⟩
      rw [language_append] at hw
      obtain ⟨v, hv, u, hu, rfl⟩ := Language.mem_mul.mp hw
      obtain ⟨u, -, rfl⟩ := mem_language_slash.mp hu
      exact ⟨v, hv, u ++ rest, by rw [List.append_assoc, List.cons_append]⟩
    · rintro ⟨v, hv, rest, rfl⟩
      refine ⟨v ++ [slash], ?_, rest, by rw [List.append_assoc, List.singleton_append]⟩
      rw [language_append]
      refine Language.append_mem_mul hv (mem_language_slash.mpr ⟨[], ?_, rfl⟩)
      exact Language.mem_mul.mpr ⟨[], ⟨fun b _ => ByteSet.mem_any b, Nat.zero_le 0⟩, [],
        Language.nil_mem_one, rfl⟩

/-- What `rfind` finds is there. -/
theorem rfind_some {needle s : List Byte} {i : Nat} (h : rfind needle s = some i) :
    needle <+: s.drop i := by
  induction s generalizing i with
  | nil =>
    rw [rfind] at h
    split at h
    · rename_i hNil
      rw [hNil]
      exact List.nil_prefix
    · cases h
  | cons b s ih =>
    rw [rfind] at h
    split at h
    · rename_i j hj
      cases h
      exact ih hj
    · split at h
      · rename_i hBegins
        cases h
        exact hBegins
      · cases h

theorem rfind_of_short {needle s : List Byte} (h : s.length < needle.length) :
    rfind needle s = none := by
  cases hFound : rfind needle s with
  | none => rfl
  | some i =>
    have hLen := (rfind_some hFound).length_le
    rw [List.length_drop] at hLen
    omega

/-- What stands at the end is found there. -/
theorem rfind_append {needle : List Byte} (hNeedle : needle ≠ []) (s : List Byte) :
    rfind needle (s ++ needle) = some s.length := by
  induction s with
  | nil =>
    obtain ⟨b, t, rfl⟩ := List.exists_cons_of_ne_nil hNeedle
    have hShort : rfind (b :: t) t = none := rfind_of_short (Nat.lt_succ_self _)
    rw [List.nil_append, rfind, hShort]
    exact if_pos (List.prefix_refl _)
  | cons b s ih =>
    rw [List.cons_append, rfind, ih]
    rfl

theorem lengthMinusTwo_append (s : List Byte) (b c : Byte) :
    lengthMinusTwo (s ++ [b, c]) = some s.length := by
  rcases s with _ | ⟨a, _ | ⟨a', s⟩⟩
  · rfl
  · rfl
  · rw [List.cons_append, List.cons_append, lengthMinusTwo, List.length_append]
    rfl

/-- **A trailing `//.`** becomes a super wildcard. -/
theorem finishRegex_super {regex : List Byte} (status : MamaStatus) :
    finishRegex (regex ++ [slash, slash, dot]) status =
      some (if (regex ++ superWildcard).head? = some anchorByte then regex ++ superWildcard
        else anchorByte :: (regex ++ superWildcard), .ok) := by
  have hSplit : regex ++ [slash, slash, dot] = regex ++ [slash] ++ [slash, dot] := by
    rw [List.append_assoc, List.singleton_append]
  have hFound : rfind [slash, dot] (regex ++ [slash] ++ [slash, dot]) =
      some (regex.length + 1) := by
    rw [rfind_append (List.cons_ne_nil _ _), List.length_append]
    rfl
  have hLen : lengthMinusTwo (regex ++ [slash] ++ [slash, dot]) = some (regex.length + 1) := by
    rw [lengthMinusTwo_append, List.length_append]
    rfl
  have hTake : (regex ++ [slash] ++ [slash, dot]).take (regex.length + 1) ++ [dot, starByte] =
      regex ++ superWildcard := by
    rw [List.take_left' (by rw [List.length_append]; rfl), List.append_assoc]
    rfl
  rw [hSplit]
  unfold finishRegex
  simp only [show ([0x2f, 0x2e] : List Byte) = [slash, dot] from rfl, hFound, hLen, if_true]
  rw [show ([0x2e, 0x2a] : List Byte) = [dot, starByte] from rfl, hTake]

theorem exists_last_two {l : List Byte} (h : 2 ≤ l.length) :
    ∃ start b c, l = start ++ [b, c] := by
  rcases List.eq_nil_or_concat l with rfl | ⟨front, c, rfl⟩
  · exact absurd h (by decide)
  · rcases List.eq_nil_or_concat front with rfl | ⟨start, b, rfl⟩
    · exact absurd h (by simp)
    · exact ⟨start, b, c, by simp⟩

/-- Without a dot at the end there is nothing to replace. -/
theorem finishRegex_plain {regex : List Byte} (hLen : 2 ≤ regex.length)
    (hLast : regex.getLast? ≠ some dot) (status : MamaStatus) :
    finishRegex regex status =
      some (if status = .ok then regex ++ [endByte] else regex, status) := by
  obtain ⟨start, b, c, rfl⟩ := exists_last_two hLen
  have hNot : rfind [slash, dot] (start ++ [b, c]) ≠ some start.length := by
    intro hFound
    have hBegins := rfind_some hFound
    rw [List.drop_left] at hBegins
    have hEq := hBegins.eq_of_length rfl
    apply hLast
    rw [← hEq]
    simp
  unfold finishRegex
  simp only [show ([0x2f, 0x2e] : List Byte) = [slash, dot] from rfl, lengthMinusTwo_append,
    if_neg hNot]
  split
  · rfl
  · rfl

/-- The length of one character wraps around, and `replace` throws. -/
theorem finishRegex_single (b : Byte) (status : MamaStatus) : finishRegex [b] status = none := by
  have hFound : rfind [slash, dot] [b] = none := rfind_of_short (Nat.lt_succ_self 1)
  unfold finishRegex
  simp only [show ([0x2f, 0x2e] : List Byte) = [slash, dot] from rfl, hFound]
  rfl

/-- An anchored expression with no dot in it gets its end. -/
theorem finishRegex_anchored {text : List Byte} (hText : text ≠ []) (hDot : dot ∉ text)
    (super : Bool) :
    finishRegex (anchorByte :: text ++ if super then [slash, slash, dot] else []) .ok =
      some (anchorByte :: text ++ endText super, .ok) := by
  cases super with
  | false =>
    have hLen : 2 ≤ (anchorByte :: text).length :=
      Nat.succ_le_succ (List.length_pos_of_ne_nil hText)
    have hLast : (anchorByte :: text).getLast? ≠ some dot := by
      intro hGet
      rcases List.mem_cons.mp (List.mem_of_getLast? hGet) with hEq | hMem
      · exact absurd hEq (by decide)
      · exact hDot hMem
    simp only [Bool.false_eq_true, if_false, List.append_nil]
    exact finishRegex_plain hLen hLast .ok
  | true =>
    simp only [if_true]
    rw [finishRegex_super]
    rfl

-- ---------------------------------------------------------------------------
-- The three kinds of topics
-- ---------------------------------------------------------------------------

theorem dot_notMem_replaceStars {s : List Byte} (h : dot ∉ s) : dot ∉ replaceStars s := by
  induction s with
  | nil => exact List.not_mem_nil
  | cons b s ih =>
    obtain ⟨hb, hs⟩ := not_or.mp (mt List.mem_cons.mpr h)
    rw [replaceStars]
    split
    · intro hMem
      rcases List.mem_append.mp hMem with hSegment | hRest
      · exact absurd hSegment (by decide)
      · exact ih hs hRest
    · intro hMem
      rcases List.mem_cons.mp hMem with hEq | hRest
      · exact hb hEq
      · exact ih hs hRest

theorem replaceStars_super (super : Bool) :
    replaceStars (if super then [slash, slash, dot] else []) =
      if super then [slash, slash, dot] else [] := by
  cases super with
  | false => rfl
  | true => rfl

namespace Topic

variable {t : Topic} {out : List Byte}

/-- The text behind the first segment. -/
def restText (t : Topic) : List Byte := t.rest.flatMap fun seg => slash :: seg.text

theorem isPlain_restText : ∀ b ∈ t.restText, isPlain b = true := fun b hb =>
  isPlain_body b (List.mem_append_right _ hb)

theorem dot_notMem_restText (t : Topic) : dot ∉ t.restText := fun h =>
  t.dot_notMem_body (List.mem_append_right _ h)

theorem isStar_iff {seg : TopicSegment} : seg.isStar = true ↔ starByte ∈ seg.text := by
  constructor
  · intro h
    cases seg with
    | star => exact List.mem_singleton_self _
    | literal text nonempty plain => cases h
  · intro h
    rcases TopicSegment.mem_text h with hPlain | ⟨-, hStar⟩
    · exact absurd rfl (isTopicByte_facts _ hPlain).2.2.2.1
    · exact hStar

theorem hasStar_iff : t.hasStar = true ↔ starByte ∈ t.text := by
  have hEnd : starByte ∉ (if t.super then [slash, slash, dot] else []) := by
    cases t.super with
    | false => decide
    | true => decide
  constructor
  · intro h
    rcases Bool.or_eq_true_iff.mp h with hFirst | hRest
    · exact List.mem_append_left _ (List.mem_append_left _ (isStar_iff.mp hFirst))
    · obtain ⟨seg, hMem, hSeg⟩ := List.any_eq_true.mp hRest
      refine List.mem_append_left _ (List.mem_append_right _ ?_)
      exact List.mem_flatMap.mpr ⟨seg, hMem, List.mem_cons_of_mem _ (isStar_iff.mp hSeg)⟩
  · intro h
    rcases List.mem_append.mp h with hBody | hSuper
    · rcases Topic.mem_body hBody with hPlain | hSlash | ⟨-, hStar⟩
      · exact absurd rfl (isTopicByte_facts _ hPlain).2.2.2.1
      · exact absurd hSlash (by decide)
      · exact hStar
    · exact absurd hSuper hEnd

/-- A topic that begins with a star. -/
theorem ws2posixInto_leadingStar (h : t.first.isStar = true) :
    ws2posixInto t.text out =
      some (firstSegment ++ replaceStars t.restText ++ endText t.super, .ok) := by
  have hText : t.text =
      starByte :: (t.restText ++ if t.super then [slash, slash, dot] else []) := by
    have hFirst : t.first.text = [starByte] := by
      cases hSeg : t.first with
      | star => rfl
      | literal text nonempty plain =>
        rw [hSeg] at h
        cases h
    rw [Topic.text, Topic.body, hFirst]
    rfl
  have hDot : dot ∉ firstSegment.tail ++ replaceStars t.restText := by
    intro hMem
    rcases List.mem_append.mp hMem with hFirst | hRest
    · exact absurd hFirst (by decide)
    · exact dot_notMem_replaceStars t.dot_notMem_restText hRest
  rw [ws2posixInto, hText, List.idxOf?_cons, if_pos (beq_self_eq_true _)]
  simp only [List.drop_one, List.tail_cons]
  rw [replaceStars_append, replaceStars_super, ← List.append_assoc]
  exact finishRegex_anchored (List.cons_ne_nil _ _) hDot t.super

/-- A topic with a star further on. -/
theorem ws2posixInto_star (hStar : t.hasStar = true) (h : t.first.isStar = false) :
    ws2posixInto t.text out =
      some (anchorByte :: replaceStars t.body ++ endText t.super, .ok) := by
  have hMem := hasStar_iff.mp hStar
  obtain ⟨b, tail, hText⟩ := List.exists_cons_of_ne_nil t.first.text_ne_nil
  have hb : b ≠ starByte := by
    rintro rfl
    have hFirst : t.first.isStar = true := by
      rw [isStar_iff, hText]
      exact List.mem_cons_self
    exact Bool.false_ne_true (h.symm.trans hFirst)
  obtain ⟨i, hIdx⟩ : ∃ i, t.text.idxOf? starByte = some (i + 1) := by
    rw [Topic.text, Topic.body, hText, List.cons_append, List.cons_append] at hMem ⊢
    rw [List.idxOf?_cons, if_neg (by simpa using hb)]
    cases hRest : List.idxOf? starByte
        (tail ++ (t.rest.flatMap fun seg => slash :: seg.text) ++
          if t.super then [slash, slash, dot] else []) with
    | some i => exact ⟨i, rfl⟩
    | none =>
      rw [List.idxOf?_eq_none_iff] at hRest
      rcases List.mem_cons.mp hMem with hEq | hTail
      · exact absurd hEq.symm hb
      · exact absurd hTail hRest
  have hBody : replaceStars t.body ≠ [] := by
    rw [Topic.body, hText, List.cons_append, replaceStars, if_neg hb]
    exact List.cons_ne_nil _ _
  rw [ws2posixInto, hIdx]
  simp only
  rw [replaceStars, if_neg (by decide), Topic.text, replaceStars_append, replaceStars_super]
  exact finishRegex_anchored hBody (dot_notMem_replaceStars t.dot_notMem_body) t.super

/-- A topic without a star is appended to what is there. -/
theorem ws2posixInto_append (hStar : t.hasStar = false) :
    ws2posixInto t.text out = finishRegex (replaceStars (out ++ t.text)) .invalidArg := by
  have hIdx : t.text.idxOf? starByte = none := by
    rw [List.idxOf?_eq_none_iff, ← hasStar_iff, hStar]
    exact Bool.false_ne_true
  rw [ws2posixInto, hIdx]

/-- What a topic stands for, in terms of its pieces. -/
theorem matches_iff (h : t.first.isStar = false) {s : List Byte} :
    t.Matches s ↔ ∃ v ∈ language (t.body.map plainPiece), EndsWith t.super v s := by
  constructor
  · rintro ⟨part, parts, tail, rfl, hFirst, -, hRest, hTail⟩
    refine ⟨_, mem_language_body.mpr ⟨part, parts, rfl, hFirst, hRest⟩, ?_⟩
    unfold EndsWith
    cases hSuper : t.super with
    | false =>
      rw [hSuper] at hTail
      obtain rfl : tail = [] := hTail
      exact List.append_nil _
    | true =>
      rw [hSuper] at hTail
      obtain ⟨rest, rfl⟩ : ∃ rest, tail = slash :: rest := hTail
      exact ⟨rest, rfl⟩
  · rintro ⟨v, hv, hEnds⟩
    obtain ⟨part, parts, rfl, hFirst, hRest⟩ := mem_language_body.mp hv
    have hUnderscore : t.first.isStar = true → part.head? ≠ some 0x5f := fun hTrue =>
      absurd (h.symm.trans hTrue) Bool.false_ne_true
    unfold EndsWith at hEnds
    cases hSuper : t.super with
    | false =>
      rw [hSuper] at hEnds
      obtain rfl : s = _ := hEnds
      refine ⟨part, parts, [], (List.append_nil _).symm, hFirst, hUnderscore, hRest, ?_⟩
      rw [hSuper]
      rfl
    | true =>
      rw [hSuper] at hEnds
      obtain ⟨rest, rfl⟩ : ∃ rest, s = _ ++ slash :: rest := hEnds
      refine ⟨part, parts, slash :: rest, rfl, hFirst, hUnderscore, hRest, ?_⟩
      rw [hSuper]
      exact ⟨rest, rfl⟩

/-- **A topic with a star that does not lead** is translated. -/
theorem translates_of_star (hStar : t.hasStar = true) (h : t.first.isStar = false) :
    t.Translates out := by
  obtain ⟨e, hRegcomp, hMatches⟩ := regcomp_ends (lexes_replaceStars t.isPlain_body) t.super
  rw [Topic.Translates, if_pos (Or.inl hStar)]
  exact ⟨_, e, ws2posixInto_star hStar h, hRegcomp, fun s _ =>
    (hMatches s).trans (matches_iff h).symm⟩

end Topic

/-- A part that the segment matches. -/
def TopicSegment.sample : TopicSegment → List Byte
  | .star => [0x61]
  | .literal text .. => text

theorem TopicSegment.matches_sample (seg : TopicSegment) : seg.Matches seg.sample := by
  cases seg with
  | star => exact ⟨List.cons_ne_nil _ _, by decide⟩
  | literal text nonempty plain => rfl

theorem TopicSegment.nulFree_sample (seg : TopicSegment) : NulFree seg.sample := by
  cases seg with
  | star => decide
  | literal text nonempty plain => exact fun b hb => (isTopicByte_facts b (plain b hb)).2.2.1

namespace Topic

variable {t : Topic} {out : List Byte}

/-- Parts for the segments behind the first. -/
def restSample (t : Topic) : List Byte :=
  (t.rest.map TopicSegment.sample).flatMap fun p => slash :: p

theorem forall₂_sample (t : Topic) :
    List.Forall₂ TopicSegment.Matches t.rest (t.rest.map TopicSegment.sample) :=
  List.forall₂_map_right_iff.mpr (List.forall₂_same.mpr fun seg _ => seg.matches_sample)

theorem nulFree_restSample (t : Topic) : NulFree t.restSample := by
  intro b hb
  obtain ⟨part, hPart, hb⟩ := List.mem_flatMap.mp hb
  obtain ⟨seg, -, rfl⟩ := List.mem_map.mp hPart
  rcases List.mem_cons.mp hb with rfl | hMem
  · decide
  · exact seg.nulFree_sample b hMem

/-- The leading star is read as `[^_][^/]*`. -/
theorem lexes_leadingStar (t : Topic) :
    Lexes (firstSegment.tail ++ replaceStars t.restText)
      ((⟨⟨true, [(0x5f, 0x5f)]⟩, none⟩ :: ⟨⟨true, [(slash, slash)]⟩, some 0⟩ ::
        t.restText.map plainPiece).flatMap Piece.tokens) := by
  have hFirst := (lexes_negated (b := 0x5f) (by decide)).append
    ((lexes_negated (b := slash) (by decide)).append
      (lexes_special starByte (.dup 0 none) rfl))
  exact hFirst.append (lexes_replaceStars t.isPlain_restText)

/-- **A leading star** also matches a slash, and then an empty first segment. -/
theorem not_translates_of_leadingStar (h : t.first.isStar = true) : ¬ t.Translates out := by
  have hStar : t.hasStar = true := by
    rw [Topic.hasStar, h, Bool.true_or]
  obtain ⟨e, hRegcomp, hMatches⟩ := regcomp_ends t.lexes_leadingStar t.super
  rw [Topic.Translates, if_pos (Or.inl hStar)]
  rintro ⟨regex, e', hOut, hRegcomp', hExact⟩
  rw [ws2posixInto_leadingStar h] at hOut
  cases hOut
  have hSame : e' = e := Option.some.inj (hRegcomp'.symm.trans hRegcomp)
  subst hSame
  -- the subject `//...`, with parts for the other segments
  let tail : List Byte := if t.super then [slash] else []
  let subject := slash :: t.restSample ++ tail
  have hNulFree : NulFree subject := by
    refine nulFree_append.mpr ⟨nulFree_cons.mpr ⟨by decide, t.nulFree_restSample⟩, ?_⟩
    show NulFree (if t.super then [slash] else [])
    cases t.super with
    | false => decide
    | true => decide
  have hMatched : e'.regexec subject = true := by
    refine (hMatches subject).mpr ⟨slash :: t.restSample, ?_, ?_⟩
    · refine Language.append_mem_mul (a := [slash]) (b := t.restSample) ?_ ?_
      · exact mem_lang_once.mpr ⟨slash, by decide, rfl⟩
      · refine Language.append_mem_mul (a := []) (b := t.restSample) ?_ ?_
        · exact ⟨fun b hb => absurd hb List.not_mem_nil, Nat.zero_le 0⟩
        · exact mem_language_rest.mpr ⟨_, rfl, t.forall₂_sample⟩
    · show EndsWith t.super (slash :: t.restSample)
        (slash :: t.restSample ++ if t.super then [slash] else [])
      cases t.super with
      | false => exact List.append_nil _
      | true => exact ⟨[], rfl⟩
  obtain ⟨part, parts, end', hEq, hPart, -⟩ := (hExact subject hNulFree).mp hMatched
  have hFirst : part ≠ [] ∧ slash ∉ part := by
    cases hSeg : t.first with
    | star =>
      rw [hSeg] at hPart
      exact hPart
    | literal text nonempty plain =>
      rw [hSeg] at h
      cases h
  obtain ⟨b, part, rfl⟩ := List.exists_cons_of_ne_nil hFirst.1
  have hHead : slash = b := (List.cons.inj hEq).1
  exact hFirst.2 (hHead ▸ List.mem_cons_self)

/-- Text that is not anchored gets an anchor. -/
theorem finishRegex_appended {text : List Byte} (hText : text.head? ≠ some anchorByte)
    (hNil : text ≠ []) :
    finishRegex (text ++ [slash, slash, dot]) .invalidArg =
      some (anchorByte :: text ++ endText true, .ok) := by
  have hHead : (text ++ superWildcard).head? = text.head? := by
    rw [List.head?_append_of_ne_nil _ hNil]
  rw [finishRegex_super, hHead, if_neg hText]
  rfl

theorem head_replaceStars_ne {s : List Byte} (h : ∀ b ∈ s, isPlain b = true) :
    (replaceStars s).head? ≠ some anchorByte := by
  cases s with
  | nil => decide
  | cons b s =>
    rw [replaceStars]
    split
    · exact fun hEq => absurd hEq (by simp [segmentWildcard, anchorByte])
    · intro hEq
      have hb := h b List.mem_cons_self
      rw [List.head?_cons, Option.some.injEq] at hEq
      rw [hEq] at hb
      exact absurd hb (by decide)

/-- The bytes of a topic without a star stand for themselves. -/
theorem mem_body_of_literal (hStar : t.hasStar = false) {b : Byte} (h : b ∈ t.body) :
    b ≠ starByte ∧ b ≠ dot ∧ b ≠ 0 := by
  rcases Topic.mem_body h with hPlain | rfl | ⟨-, hTrue⟩
  · have hFacts := isTopicByte_facts b hPlain
    exact ⟨hFacts.2.2.2.1, hFacts.2.2.2.2, hFacts.2.2.1⟩
  · decide
  · exact absurd (hStar.symm.trans hTrue) Bool.false_ne_true

/-- A topic with `//.` and no star, behind plain text. -/
theorem ws2posixInto_super (hStar : t.hasStar = false) (hSuper : t.super = true)
    (hOut : ∀ b ∈ out, isPlain b = true) :
    ws2posixInto t.text out =
      some (anchorByte :: replaceStars (out ++ t.body) ++ endText true, .ok) := by
  have hPlain : ∀ b ∈ out ++ t.body, isPlain b = true :=
    List.forall_mem_append.mpr ⟨hOut, t.isPlain_body⟩
  have hText : out ++ t.text = out ++ t.body ++ [slash, slash, dot] := by
    rw [Topic.text, hSuper, List.append_assoc]
    rfl
  have hNil : replaceStars (out ++ t.body) ≠ [] := by
    have hPos := List.length_pos_of_ne_nil t.body_ne_nil
    have hLe := length_le_replaceStars (out ++ t.body)
    rw [List.length_append] at hLe
    exact List.ne_nil_of_length_pos (by omega)
  rw [ws2posixInto_append hStar, hText, replaceStars_append]
  exact finishRegex_appended (head_replaceStars_ne hPlain) hNil

/-- **A topic with `//.` and no star** is translated exactly when nothing is in front of
it. -/
theorem translates_super_iff (hStar : t.hasStar = false) (hSuper : t.super = true)
    (hOut : ∀ b ∈ out, isPlain b = true) : t.Translates out ↔ out = [] := by
  have hFirst : t.first.isStar = false := (Bool.or_eq_false_iff.mp hStar).1
  have hPlain : ∀ b ∈ out ++ t.body, isPlain b = true :=
    List.forall_mem_append.mpr ⟨hOut, t.isPlain_body⟩
  obtain ⟨e, hRegcomp, hMatches⟩ := regcomp_ends (lexes_replaceStars hPlain) true
  rw [Topic.Translates, if_pos (Or.inr hSuper)]
  constructor
  · rintro ⟨regex, e', hWs, hRegcomp', hExact⟩
    rw [ws2posixInto_super hStar hSuper hOut] at hWs
    cases hWs
    have hSame : e' = e := Option.some.inj (hRegcomp'.symm.trans hRegcomp)
    subst hSame
    -- the topic itself, up to a slash, is too short for what is in front
    have hBody : t.body ∈ language (t.body.map plainPiece) := by
      refine (mem_language_literal fun b hb => ?_).mpr rfl
      have hFacts := mem_body_of_literal hStar hb
      exact ⟨hFacts.1, hFacts.2.1⟩
    have hNulFree : NulFree (t.body ++ [slash]) :=
      nulFree_append.mpr ⟨fun b hb => (mem_body_of_literal hStar hb).2.2, by decide⟩
    have hSpec : t.Matches (t.body ++ [slash]) := by
      refine (matches_iff hFirst).mpr ⟨t.body, hBody, ?_⟩
      rw [hSuper]
      exact ⟨[], rfl⟩
    obtain ⟨v, hv, rest, hEq⟩ := (hMatches _).mp ((hExact _ hNulFree).mpr hSpec)
    have hLong := length_le_of_mem_language (fun p hp => by
      obtain ⟨b, -, rfl⟩ := List.mem_map.mp hp
      exact plainPiece_lang_nil b) hv
    have hLen := congrArg List.length hEq
    simp only [List.length_map, List.length_append, List.length_cons, List.length_nil]
      at hLong hLen
    exact List.eq_nil_of_length_eq_zero (by omega)
  · rintro rfl
    refine ⟨_, e, ws2posixInto_super hStar hSuper hOut, hRegcomp, fun s _ => ?_⟩
    rw [hMatches, matches_iff hFirst, hSuper]
    rfl

/-- **A topic with neither** is rejected, unless it is all there is and one character
long. -/
theorem translates_literal_iff (hStar : t.hasStar = false) (hSuper : t.super = false) :
    t.Translates out ↔ 2 ≤ (out ++ t.text).length := by
  have hNot : ¬ (t.hasStar = true ∨ t.super = true) := by
    rw [hStar, hSuper]
    decide
  have hText : t.text = t.body := by
    rw [Topic.text, hSuper]
    exact List.append_nil _
  rw [Topic.Translates, if_neg hNot, ws2posixInto_append hStar, hText]
  by_cases hLen : 2 ≤ (out ++ t.body).length
  · have hLast : (replaceStars (out ++ t.body)).getLast? ≠ some dot := by
      intro hGet
      have hSelf : replaceStars t.body = t.body :=
        replaceStars_eq_self fun hMem => (mem_body_of_literal hStar hMem).1 rfl
      rw [replaceStars_append, hSelf, List.getLast?_append_of_ne_nil _ t.body_ne_nil] at hGet
      exact t.dot_notMem_body (List.mem_of_getLast? hGet)
    have hFinish := finishRegex_plain (hLen.trans (length_le_replaceStars _)) hLast .invalidArg
    exact iff_of_true ⟨_, hFinish⟩ hLen
  · refine iff_of_false ?_ hLen
    have hPos := List.length_pos_of_ne_nil t.body_ne_nil
    rw [List.length_append] at hLen
    obtain rfl : out = [] := List.eq_nil_of_length_eq_zero (by omega)
    obtain ⟨b, hb⟩ := List.length_eq_one_iff.mp (show t.body.length = 1 by omega)
    have hSelf : replaceStars t.body = t.body :=
      replaceStars_eq_self fun hMem => (mem_body_of_literal hStar hMem).1 rfl
    rintro ⟨regex, hWs⟩
    rw [List.nil_append, hSelf, hb, finishRegex_single] at hWs
    cases hWs

/-- **The three kinds together.** -/
theorem translates_iff (hOut : t.hasStar = true ∨ t.super = false ∨ ∀ b ∈ out, isPlain b = true) :
    t.Translates out ↔ t.TranslatableInto out := by
  unfold Topic.TranslatableInto
  by_cases hStar : t.hasStar = true
  · rw [if_pos hStar]
    cases hFirst : t.first.isStar with
    | false => exact iff_of_true (translates_of_star hStar hFirst) rfl
    | true => exact iff_of_false (not_translates_of_leadingStar hFirst) Bool.noConfusion
  · have hNone := Bool.eq_false_of_not_eq_true hStar
    rw [if_neg hStar]
    cases hSuper : t.super with
    | false =>
      rw [if_neg Bool.false_ne_true]
      exact translates_literal_iff hNone hSuper
    | true =>
      rw [if_pos rfl]
      refine translates_super_iff hNone hSuper ?_
      exact (hOut.resolve_left hStar).resolve_left (by rw [hSuper]; exact Bool.noConfusion)

end Topic

/--
**When hierarchical topics are translated.** For every topic:

* whatever the result string holds, it becomes an expression for exactly what the topic
  stands for (or the topic is rejected, if it has nothing to translate), if and only if
  the topic has a star but not in first place, or is a literal of several characters
  without `//.`;
* for a given content of the result string, if and only if the topic has no leading star,
  or the string is empty where the topic is appended to it and ends in `//.`, or what is
  rejected is longer than one character. For a topic with `//.` and no star the content
  has to be plain text here.
-/
theorem ws2posix_translates_iff (t : Topic) :
    ((∀ out, t.Translates out) ↔
      if t.hasStar = true then t.first.isStar = false
      else t.super = false ∧ 2 ≤ t.text.length) ∧
    ∀ out, (t.hasStar = true ∨ t.super = false ∨ ∀ b ∈ out, isPlain b = true) →
      (t.Translates out ↔ t.TranslatableInto out) := by
  refine ⟨?_, fun out hOut => t.translates_iff hOut⟩
  by_cases hStar : t.hasStar = true
  · rw [if_pos hStar]
    have hInto : ∀ out, t.Translates out ↔ t.first.isStar = false := fun out => by
      rw [t.translates_iff (Or.inl hStar), Topic.TranslatableInto, if_pos hStar]
    exact ⟨fun hAll => (hInto []).mp (hAll []), fun hFirst out => (hInto out).mpr hFirst⟩
  · rw [if_neg hStar]
    cases hSuper : t.super with
    | false =>
      have hInto : ∀ out, t.Translates out ↔ 2 ≤ (out ++ t.text).length := fun out => by
        rw [t.translates_iff (Or.inr (Or.inl hSuper)), Topic.TranslatableInto, if_neg hStar,
          hSuper, if_neg Bool.false_ne_true]
      constructor
      · exact fun hAll => ⟨rfl, (hInto []).mp (hAll [])⟩
      · intro hLen out
        refine (hInto out).mpr (hLen.2.trans ?_)
        rw [List.length_append]
        exact Nat.le_add_left _ _
    | true =>
      -- text in front of it is not taken away
      refine iff_of_false (fun hAll => ?_) (fun h => Bool.noConfusion h.1)
      have hPlain : ∀ b ∈ [slash], isPlain b = true := fun b hb => by
        rw [List.mem_singleton.mp hb]
        rfl
      have hSome := (t.translates_iff (Or.inr (Or.inr hPlain))).mp (hAll [slash])
      rw [Topic.TranslatableInto, if_neg hStar, if_pos hSuper] at hSome
      cases hSome

/-- The literal `a`. -/
def segmentA : TopicSegment := .literal [0x61] (List.cons_ne_nil _ _) (by decide +kernel)

/-- The topic `a/*` is translated, whatever the result string holds, and `a//.` if it
is empty. -/
theorem ws2posix_translates_star :
    (∀ out, Topic.Translates ⟨segmentA, [.star], false⟩ out) ∧
      Topic.Translates ⟨segmentA, [], true⟩ [] :=
  ⟨(ws2posix_translates_iff ⟨segmentA, [.star], false⟩).1.mpr rfl,
    ((ws2posix_translates_iff ⟨segmentA, [], true⟩).2 []
      (Or.inr (Or.inr fun _ hb => absurd hb List.not_mem_nil))).mpr rfl⟩

/-- **Three topics that are not translated.** The expression for `*` matches the subject
`/`. The topic `a//.`, translated into a string that holds it already, becomes
`^a//.a/.*`, which does not match `a/b`. The topic `a`, translated into an empty string,
throws. -/
theorem topics_mistranslated :
    (∃ regex, ws2posixInto [starByte] [] = some (regex, .ok) ∧
      (regcomp regex).map (·.regexec [slash]) = some true ∧
      ¬ Topic.Matches ⟨.star, [], false⟩ [slash]) ∧
    (∃ regex, ws2posixInto [0x61, slash, slash, dot] [0x61, slash, slash, dot] =
        some (regex, .ok) ∧
      (regcomp regex).map (·.regexec [0x61, slash, 0x62]) = some false ∧
      Topic.Matches ⟨segmentA, [], true⟩ [0x61, slash, 0x62]) ∧
    ws2posixInto [0x61] [] = none := by
  refine ⟨⟨_, rfl, by decide +kernel, ?_⟩, ⟨_, rfl, by decide +kernel, ?_⟩, rfl⟩
  · rintro ⟨part, parts, tail, hEq, ⟨hNil, hSlash⟩, -⟩
    obtain ⟨b, part, rfl⟩ := List.exists_cons_of_ne_nil hNil
    exact hSlash ((List.cons.inj hEq).1 ▸ List.mem_cons_self)
  · exact ⟨[0x61], [], [slash, 0x62], rfl, rfl, Bool.noConfusion, .nil, [0x62], rfl⟩

end ZmqBridge
