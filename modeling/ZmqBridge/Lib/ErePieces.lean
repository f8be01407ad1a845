import ZmqBridge.Lib.EreSyntax
import Mathlib

/-!
# Expressions that are a sequence of pieces

Extended regular expressions without groups and alternatives: behind the anchor `^`
stands one piece after another, each a set of bytes, once or repeated. Their text is
lexed piece by piece, their tree is a chain, and what they match is a product of
languages.

* `Piece`             — a set of bytes and how often;
* `Lexes`             — a piece of text has these tokens, whatever follows;
* `regcomp_whole`, `regcomp_beginning` — the trees of `^…$` and `^…`;
* `regexec_whole`     — `^…$` matches the words of the language;
* `regexec_beginning` — `^…` matches what begins with one.
-/

namespace ZmqBridge.Lib

open Ascii

-- ---------------------------------------------------------------------------
-- Pieces
-- ---------------------------------------------------------------------------

/-- A set of bytes, once or at least so many times. -/
structure Piece where
  set : ByteSet
  atLeast : Option Nat
  deriving DecidableEq, Repr

def Piece.tokens (p : Piece) : List Token :=
  .set p.set :: (p.atLeast.map fun lo => Token.dup lo none).toList

def Piece.ere (p : Piece) : Ere :=
  match p.atLeast with
  | none => .set p.set
  | some lo => .rep (.set p.set) lo none

/-- How long a word of the piece may be. -/
def Piece.Fits (p : Piece) (n : Nat) : Prop :=
  match p.atLeast with
  | none => n = 1
  | some lo => lo ≤ n

def Piece.lang (p : Piece) : Language Byte :=
  { w | (∀ b ∈ w, p.set.mem b = true) ∧ p.Fits w.length }

/-- One piece after another. -/
def Ere.sequence (e : Ere) (ps : List Piece) : Ere := ps.foldl (fun e p => .cat e p.ere) e

def language (ps : List Piece) : Language Byte := (ps.map Piece.lang).prod

theorem language_cons (p : Piece) (ps : List Piece) :
    language (p :: ps) = p.lang * language ps := rfl

theorem language_append (ps qs : List Piece) :
    language (ps ++ qs) = language ps * language qs := by
  rw [language, List.map_append, List.prod_append]
  rfl

theorem mem_lang {p : Piece} {w : List Byte} :
    w ∈ p.lang ↔ (∀ b ∈ w, p.set.mem b = true) ∧ p.Fits w.length := Iff.rfl

-- ---------------------------------------------------------------------------
-- Words
-- ---------------------------------------------------------------------------

theorem ByteSet.range_iff {c b : Byte} : (c ≤ b ∧ b ≤ c) ↔ b = c := by
  constructor
  · rintro ⟨hle, hge⟩
    exact UInt8.le_antisymm hge hle
  · rintro rfl
    exact ⟨UInt8.le_refl b, UInt8.le_refl b⟩

theorem ByteSet.mem_single {c b : Byte} : (ByteSet.single c).mem b = true ↔ b = c := by
  simp [ByteSet.mem, ByteSet.single, ByteSet.range_iff]

/-- `[^c]`. -/
theorem ByteSet.mem_negated {c b : Byte} : ByteSet.mem ⟨true, [(c, c)]⟩ b = true ↔ b ≠ c := by
  have hNot : ByteSet.mem ⟨true, [(c, c)]⟩ b = !(ByteSet.single c).mem b := by
    rw [ByteSet.mem, ByteSet.mem, ByteSet.single, Bool.bne_true, Bool.bne_false]
  rw [hNot, Bool.not_eq_true', ← Bool.not_eq_true, ByteSet.mem_single]

theorem ByteSet.mem_any (b : Byte) : ByteSet.any.mem b = true := rfl

theorem mem_lang_once {s : ByteSet} {w : List Byte} :
    w ∈ Piece.lang ⟨s, none⟩ ↔ ∃ b, s.mem b = true ∧ w = [b] := by
  rw [mem_lang]
  constructor
  · rintro ⟨hAll, hLen⟩
    obtain ⟨b, rfl⟩ := List.length_eq_one_iff.mp hLen
    exact ⟨b, hAll b (List.mem_singleton_self b), rfl⟩
  · rintro ⟨b, hb, rfl⟩
    exact ⟨fun c hc => List.mem_singleton.mp hc ▸ hb, rfl⟩

/-- Words of pieces that are not empty are at least as long as there are pieces. -/
theorem length_le_of_mem_language {ps : List Piece} (h : ∀ p ∈ ps, [] ∉ p.lang) :
    ∀ {w : List Byte}, w ∈ language ps → ps.length ≤ w.length := by
  induction ps with
  | nil =>
    intro w _
    exact Nat.zero_le _
  | cons p ps ih =>
    intro w hw
    obtain ⟨hp, hps⟩ := List.forall_mem_cons.mp h
    obtain ⟨u, hu, v, hv, rfl⟩ := Language.mem_mul.mp hw
    have hPos : 0 < u.length := List.length_pos_of_ne_nil fun hNil => hp (hNil ▸ hu)
    have hRest := ih hps hv
    rw [List.length_cons, List.length_append]
    omega

-- ---------------------------------------------------------------------------
-- Matching
-- ---------------------------------------------------------------------------

theorem Track.path_append_iff {T : Track} {w v : List Byte} : ∀ {p q : Nat},
    T.Path p (w ++ v) q ↔ ∃ m, T.Path p w m ∧ T.Path m v q := by
  induction w with
  | nil =>
    intro p q
    exact ⟨fun h => ⟨p, rfl, h⟩, fun ⟨m, hw, hv⟩ => hw ▸ hv⟩
  | cons b w ih =>
    intro p q
    constructor
    · rintro ⟨n, hn, h⟩
      obtain ⟨m, hw, hv⟩ := ih.mp h
      exact ⟨m, ⟨n, hn, hw⟩, hv⟩
    · rintro ⟨m, ⟨n, hn, hw⟩, hv⟩
      exact ⟨n, hn, ih.mpr ⟨m, hw, hv⟩⟩

/-- The ways along a string. -/
theorem Track.path_ofString {s w : List Byte} : ∀ {p q : Nat},
    (Track.ofString s).Path p w q ↔ w <+: s.drop p ∧ q = p + w.length := by
  induction w with
  | nil =>
    intro p q
    exact ⟨fun h => ⟨List.nil_prefix, h.symm⟩, fun h => h.2.symm⟩
  | cons b w ih =>
    intro p q
    have hHead : b :: w <+: s.drop p ↔ s[p]? = some b ∧ w <+: s.drop (p + 1) := by
      rw [← List.head?_drop, ← List.tail_drop]
      cases s.drop p with
      | nil => simp
      | cons c t =>
        rw [List.cons_prefix_cons, List.head?_cons, List.tail_cons, Option.some.injEq]
        exact and_congr_left fun _ => eq_comm
    rw [hHead]
    constructor
    · rintro ⟨m, hm, h⟩
      obtain ⟨hb, rfl⟩ := Track.mem_ofString.mp hm
      obtain ⟨hw, rfl⟩ := ih.mp h
      exact ⟨⟨hb, hw⟩, by rw [List.length_cons]; omega⟩
    · rintro ⟨⟨hb, hw⟩, rfl⟩
      refine ⟨p + 1, Track.mem_ofString.mpr ⟨hb, rfl⟩, ih.mpr ⟨hw, ?_⟩⟩
      rw [List.length_cons]
      omega

/-- A set `n` times over. -/
theorem steps_set_iff {T : Track} {s : ByteSet} {n : Nat} : ∀ {p q : Nat},
    Steps ((Ere.set s).Matches T) n p q ↔
      ∃ w, ((∀ b ∈ w, s.mem b = true) ∧ w.length = n) ∧ T.Path p w q := by
  induction n with
  | zero =>
    intro p q
    constructor
    · intro h
      exact ⟨[], ⟨fun b hb => absurd hb List.not_mem_nil, rfl⟩, h⟩
    · rintro ⟨w, ⟨-, hLen⟩, h⟩
      rw [List.length_eq_zero_iff] at hLen
      subst hLen
      exact h
  | succ n ih =>
    intro p q
    constructor
    · rintro ⟨m, ⟨b, hb, hMove⟩, h⟩
      obtain ⟨w, ⟨hw, hLen⟩, hPath⟩ := ih.mp h
      refine ⟨b :: w, ⟨?_, by rw [List.length_cons, hLen]⟩, m, hMove, hPath⟩
      exact List.forall_mem_cons.mpr ⟨hb, hw⟩
    · rintro ⟨w, ⟨hw, hLen⟩, hPath⟩
      cases w with
      | nil => cases hLen
      | cons b w =>
        obtain ⟨m, hMove, hPath⟩ := hPath
        obtain ⟨hb, hw⟩ := List.forall_mem_cons.mp hw
        exact ⟨m, ⟨b, hb, hMove⟩, ih.mpr ⟨w, ⟨hw, Nat.succ.inj hLen⟩, hPath⟩⟩

/-- **A piece matches the words of its language.** -/
theorem Piece.matches_iff {T : Track} {p : Piece} {i j : Nat} :
    p.ere.Matches T i j ↔ ∃ w ∈ p.lang, T.Path i w j := by
  obtain ⟨s, atLeast⟩ := p
  cases atLeast with
  | none =>
    have hOnce : (Ere.set s).Matches T i j ↔ Steps ((Ere.set s).Matches T) 1 i j :=
      ⟨fun h => ⟨j, h, rfl⟩, fun ⟨m, h, hEq⟩ => hEq ▸ h⟩
    exact hOnce.trans steps_set_iff
  | some lo =>
    constructor
    · rintro ⟨n, hLo, -, hSteps⟩
      obtain ⟨w, ⟨hw, rfl⟩, hPath⟩ := steps_set_iff.mp hSteps
      exact ⟨w, ⟨hw, hLo⟩, hPath⟩
    · rintro ⟨w, ⟨hw, hLo⟩, hPath⟩
      have hSteps : Steps ((Ere.set s).Matches T) w.length i j :=
        steps_set_iff.mpr ⟨w, ⟨hw, rfl⟩, hPath⟩
      exact ⟨w.length, hLo, fun k hk => absurd hk (Option.not_mem_none k), hSteps⟩

/-- A sequence matches what its beginning matches, followed by a word. -/
theorem Ere.sequence_matches_iff {T : Track} {ps : List Piece} : ∀ {e : Ere} {i j : Nat},
    (e.sequence ps).Matches T i j ↔
      ∃ m, e.Matches T i m ∧ ∃ w ∈ language ps, T.Path m w j := by
  induction ps with
  | nil =>
    intro e i j
    constructor
    · intro h
      exact ⟨j, h, [], Language.nil_mem_one, rfl⟩
    · rintro ⟨m, h, w, hw, hPath⟩
      obtain rfl : w = [] := hw
      obtain rfl : m = j := hPath
      exact h
  | cons p ps ih =>
    intro e i j
    refine ih.trans ?_
    constructor
    · rintro ⟨m, ⟨k, he, hp⟩, v, hv, hRest⟩
      obtain ⟨w, hw, hPath⟩ := Piece.matches_iff.mp hp
      exact ⟨k, he, w ++ v, Language.append_mem_mul hw hv, hPath.append hRest⟩
    · rintro ⟨k, he, u, hu, hPath⟩
      obtain ⟨w, hw, v, hv, rfl⟩ := Language.mem_mul.mp hu
      obtain ⟨m, hFirst, hRest⟩ := Track.path_append_iff.mp hPath
      exact ⟨m, ⟨k, he, Piece.matches_iff.mpr ⟨w, hw, hFirst⟩⟩, v, hv, hRest⟩

/-- **`^…` matches what begins with a word of the language.** -/
theorem regexec_beginning {ps : List Piece} {s : List Byte} :
    (Ere.bol.sequence ps).regexec s = true ↔ ∃ w ∈ language ps, w <+: s := by
  rw [Ere.regexec_iff]
  constructor
  · rintro ⟨i, -, j, hMatch⟩
    obtain ⟨m, ⟨rfl, rfl⟩, w, hw, hPath⟩ := Ere.sequence_matches_iff.mp hMatch
    exact ⟨w, hw, (Track.path_ofString.mp hPath).1⟩
  · rintro ⟨w, hw, hBegins⟩
    refine ⟨0, Nat.zero_le _, w.length, Ere.sequence_matches_iff.mpr ⟨0, ⟨rfl, rfl⟩, w, hw, ?_⟩⟩
    exact Track.path_ofString.mpr ⟨hBegins, (Nat.zero_add _).symm⟩

/-- **`^…$` matches the words of the language.** -/
theorem regexec_whole {ps : List Piece} {s : List Byte} :
    (Ere.cat (Ere.bol.sequence ps) .eol).regexec s = true ↔ s ∈ language ps := by
  rw [Ere.regexec_iff]
  constructor
  · rintro ⟨i, -, j, m, hMatch, hLast, -⟩
    obtain ⟨k, ⟨rfl, rfl⟩, w, hw, hPath⟩ := Ere.sequence_matches_iff.mp hMatch
    obtain ⟨hBegins, hLen⟩ := Track.path_ofString.mp hPath
    rw [Nat.zero_add] at hLen
    have hAll : w = s := hBegins.eq_of_length (hLen.symm.trans hLast)
    exact hAll ▸ hw
  · intro hs
    refine ⟨0, Nat.zero_le _, s.length, s.length, ?_, rfl, rfl⟩
    refine Ere.sequence_matches_iff.mpr ⟨0, ⟨rfl, rfl⟩, s, hs, ?_⟩
    exact Track.path_ofString.mpr ⟨List.prefix_refl s, (Nat.zero_add _).symm⟩

/-- **`…` matches what has a word of the language in it.** -/
theorem regexec_anywhere {p : Piece} {ps : List Piece} {s : List Byte} :
    (p.ere.sequence ps).regexec s = true ↔ ∃ w ∈ language (p :: ps), w <:+: s := by
  rw [Ere.regexec_iff]
  constructor
  · rintro ⟨i, -, j, hMatch⟩
    obtain ⟨m, hFirst, v, hv, hRest⟩ := Ere.sequence_matches_iff.mp hMatch
    obtain ⟨u, hu, hPath⟩ := Piece.matches_iff.mp hFirst
    have hBegins := (Track.path_ofString.mp (hPath.append hRest)).1
    exact ⟨u ++ v, Language.append_mem_mul hu hv,
      hBegins.isInfix.trans (List.drop_suffix i s).isInfix⟩
  · rintro ⟨w, hw, before, behind, rfl⟩
    obtain ⟨u, hu, v, hv, rfl⟩ := Language.mem_mul.mp hw
    have hDrop : (before ++ (u ++ v) ++ behind).drop before.length = u ++ v ++ behind := by
      rw [List.append_assoc, List.drop_left]
    have hPath : (Track.ofString (before ++ (u ++ v) ++ behind)).Path before.length (u ++ v)
        (before.length + (u ++ v).length) :=
      Track.path_ofString.mpr ⟨hDrop ▸ List.prefix_append _ _, rfl⟩
    obtain ⟨m, hFirst, hRest⟩ := Track.path_append_iff.mp hPath
    have hMatch : (p.ere.sequence ps).Matches (Track.ofString (before ++ (u ++ v) ++ behind))
        before.length (before.length + (u ++ v).length) :=
      Ere.sequence_matches_iff.mpr ⟨m, Piece.matches_iff.mpr ⟨u, hu, hFirst⟩, v, hv, hRest⟩
    exact ⟨before.length, by simp only [List.length_append]; omega, _, hMatch⟩

-- ---------------------------------------------------------------------------
-- Parsing
-- ---------------------------------------------------------------------------

/-- The parser appends one piece after another to the branch it reads. -/
theorem parse_pieces (ps : List Piece) : ∀ (frame : Frame) (e : Ere),
    frame.branch = some e → ∃ frame', (ps.flatMap Piece.tokens).foldlM parseToken (frame, []) =
      some (frame', []) ∧ frame'.alts = frame.alts ∧ frame'.branch = some (e.sequence ps) := by
  induction ps with
  | nil =>
    intro frame e hBranch
    exact ⟨frame, rfl, rfl, hBranch⟩
  | cons p ps ih =>
    intro frame e hBranch
    have hPiece : p.tokens.foldlM parseToken (frame, ([] : List Frame)) =
        some (⟨frame.alts, some e, some p.ere⟩, []) := by
      obtain ⟨s, atLeast⟩ := p
      cases atLeast with
      | none => simp [Piece.tokens, parseToken, Frame.piece, hBranch, Piece.ere]
      | some lo => simp [Piece.tokens, parseToken, Frame.piece, hBranch, Piece.ere]
    obtain ⟨frame', hFold, hAlts, hNext⟩ :=
      ih ⟨frame.alts, some e, some p.ere⟩ (.cat e p.ere) rfl
    refine ⟨frame', ?_, hAlts, hNext⟩
    rw [List.flatMap_cons, List.foldlM_append, hPiece]
    exact hFold

theorem parse_beginning (ps : List Piece) :
    parse (.bol :: ps.flatMap Piece.tokens) = some (Ere.bol.sequence ps) := by
  obtain ⟨frame, hFold, hAlts, hBranch⟩ :=
    parse_pieces ps ⟨none, some .bol, none⟩ .bol rfl
  have hTokens : (Token.bol :: ps.flatMap Piece.tokens).foldlM parseToken (Frame.empty, []) =
      some (frame, []) := hFold
  rw [parse, hTokens]
  simp only [Frame.close, hBranch, hAlts]
  rfl

theorem parse_whole (ps : List Piece) :
    parse (.bol :: ps.flatMap Piece.tokens ++ [Token.eol]) =
      some (.cat (Ere.bol.sequence ps) .eol) := by
  obtain ⟨frame, hFold, hAlts, hBranch⟩ :=
    parse_pieces ps ⟨none, some .bol, none⟩ .bol rfl
  have hTokens : (Token.bol :: ps.flatMap Piece.tokens ++ [Token.eol]).foldlM parseToken
      (Frame.empty, []) = some (frame.anchor .eol, []) := by
    rw [List.foldlM_append, show (Token.bol :: ps.flatMap Piece.tokens).foldlM parseToken
      (Frame.empty, []) = some (frame, []) from hFold]
    rfl
  rw [parse, hTokens]
  simp only [Frame.close, Frame.anchor, hBranch, hAlts]
  rfl

theorem parse_anywhere (p : Piece) (ps : List Piece) :
    parse ((p :: ps).flatMap Piece.tokens) = some (p.ere.sequence ps) := by
  have hFirst : p.tokens.foldlM parseToken (Frame.empty, ([] : List Frame)) =
      some (⟨none, none, some p.ere⟩, []) := by
    obtain ⟨s, atLeast⟩ := p
    cases atLeast with
    | none => rfl
    | some lo => rfl
  obtain ⟨frame, hFold, hAlts, hBranch⟩ :=
    parse_pieces ps ⟨none, none, some p.ere⟩ p.ere rfl
  have hTokens : ((p :: ps).flatMap Piece.tokens).foldlM parseToken (Frame.empty, []) =
      some (frame, []) := by
    rw [List.flatMap_cons, List.foldlM_append, hFirst]
    exact hFold
  rw [parse, hTokens]
  simp only [Frame.close, hBranch, hAlts]
  rfl

-- ---------------------------------------------------------------------------
-- Lexing
-- ---------------------------------------------------------------------------

/-- The text has these tokens, whatever follows it. -/
def Lexes (text : List Byte) (tokens : List Token) : Prop :=
  ∀ rest more, (∀ n, rest.length ≤ n → lex n rest = some more) →
    ∀ n, (text ++ rest).length ≤ n → lex n (text ++ rest) = some (tokens ++ more)

theorem lexes_nil : Lexes [] [] := fun _ _ h n hn => h n hn

theorem Lexes.append {text text' : List Byte} {tokens tokens' : List Token}
    (h : Lexes text tokens) (h' : Lexes text' tokens') :
    Lexes (text ++ text') (tokens ++ tokens') := by
  intro rest more hRest n hn
  rw [List.append_assoc] at hn ⊢
  rw [List.append_assoc]
  exact h (text' ++ rest) (tokens' ++ more) (h' rest more hRest) n hn

/-- One token. -/
theorem lexes_token {b : Byte} {text : List Byte} {token : Token}
    (h : ∀ rest, lexToken b (text ++ rest) = some (token, rest)) :
    Lexes (b :: text) [token] := by
  intro rest more hRest n hn
  cases n with
  | zero => exact absurd hn (Nat.not_succ_le_zero _)
  | succ n =>
    rw [List.cons_append, lex, h]
    simp only
    rw [hRest n]
    · rfl
    · simp only [List.cons_append, List.length_cons, List.length_append] at hn
      omega

theorem lexes_special (b : Byte) (token : Token) (h : specialToken b = some token) :
    Lexes [b] [token] := by
  refine lexes_token fun rest => ?_
  have hb : b ≠ backslash ∧ b ≠ bracketOpen ∧ b ≠ braceOpen := by
    refine ⟨?_, ?_, ?_⟩ <;> rintro rfl <;> cases h
  unfold lexToken
  rw [if_neg hb.1, if_neg hb.2.1, if_neg hb.2.2, h]
  rfl

/-- A character that stands for itself. -/
theorem lexes_ordinary {b : Byte} (h : isSpecial b = false) :
    Lexes [b] [.set (.single b)] := by
  refine lexes_token fun rest => ?_
  simp only [isSpecial, Bool.or_eq_false_iff, decide_eq_false_iff_not,
    Option.isSome_eq_false_iff, Option.isNone_iff_eq_none] at h
  obtain ⟨⟨⟨hToken, hBracket⟩, hBackslash⟩, hBrace⟩ := h
  unfold lexToken
  rw [if_neg hBackslash, if_neg hBracket, if_neg hBrace, hToken]
  rfl

/-- `[^b]`. -/
theorem lexes_negated {b : Byte} (h : b ≠ bracketOpen) :
    Lexes [bracketOpen, caret, b, bracketClose] [.set ⟨true, [(b, b)]⟩] := by
  refine lexes_token fun rest => ?_
  have hItem : bracketItem (b :: bracketClose :: rest) =
      some ([(b, b)], bracketClose :: rest) := by
    have hByte : bracketByte (b :: bracketClose :: rest) = some (b, bracketClose :: rest) := by
      rw [bracketByte, if_neg fun hOpen => h hOpen.1]
    have hPlain : ∀ c, ¬ [bracketOpen, c] <+: b :: bracketClose :: rest := fun c hBegins =>
      h (List.cons_prefix_cons.mp hBegins).1.symm
    unfold bracketItem
    rw [if_neg (hPlain colon), if_neg (hPlain equals), hByte]
    have hMinus : (bracketClose :: rest).head? ≠ some minus := by
      rw [List.head?_cons]
      decide
    exact if_neg fun hRange => hMinus hRange.1
  have hItems : bracketItems (rest.length + 3) true (b :: bracketClose :: rest) =
      some ([(b, b)], rest) := by
    rw [bracketItems, if_neg (by simp), hItem]
    rfl
  show Option.map _ (bracketExpression (caret :: b :: bracketClose :: rest)) = _
  rw [bracketExpression, if_pos (List.head?_cons (a := caret))]
  show Option.map _ (Option.map _
    (bracketItems (rest.length + 3) true (b :: bracketClose :: rest))) = _
  rw [hItems]
  rfl

/-- The tree of a text with given tokens. -/
theorem regcomp_of_lexes {text : List Byte} {tokens : List Token} (h : Lexes text tokens) :
    regcomp text = parse tokens := by
  have hLex := h [] [] (fun n _ => by cases n <;> rfl) text.length (by rw [List.append_nil])
  rw [List.append_nil, List.append_nil] at hLex
  rw [regcomp, hLex]
  rfl

/-- **The tree of `^…`.** -/
theorem regcomp_beginning {text : List Byte} {ps : List Piece}
    (h : Lexes text (ps.flatMap Piece.tokens)) :
    regcomp (caret :: text) = some (Ere.bol.sequence ps) := by
  rw [← parse_beginning]
  exact regcomp_of_lexes ((lexes_special caret .bol rfl).append h)

/-- **The tree of `…`.** -/
theorem regcomp_anywhere {text : List Byte} {p : Piece} {ps : List Piece}
    (h : Lexes text ((p :: ps).flatMap Piece.tokens)) :
    regcomp text = some (p.ere.sequence ps) :=
  (regcomp_of_lexes h).trans (parse_anywhere p ps)

/-- **The tree of `^…$`.** -/
theorem regcomp_whole {text : List Byte} {ps : List Piece}
    (h : Lexes text (ps.flatMap Piece.tokens)) :
    regcomp (caret :: text ++ [dollar]) = some (.cat (Ere.bol.sequence ps) .eol) := by
  rw [← parse_whole]
  exact regcomp_of_lexes (((lexes_special caret .bol rfl).append h).append
    (lexes_special dollar .eol rfl))

end ZmqBridge.Lib
