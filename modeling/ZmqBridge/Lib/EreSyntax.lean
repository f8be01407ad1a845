import ZmqBridge.Lib.Ere

/-!
# The text of extended regular expressions

`regcomp` with `REG_EXTENDED`, for the POSIX locale: the text is cut into tokens,
and the tokens are put together to a tree by a parser with an explicit stack of
open groups. Text whose meaning POSIX leaves undefined is rejected: an empty
alternative, a duplication with nothing to apply to, an escape of an ordinary
character, an interval that is none.

* `lexToken`, `lex`  — tokens, with bracket expressions and intervals;
* `Frame`, `parseToken` — the parser;
* `regcomp`         — text to tree.
-/

namespace ZmqBridge.Lib

-- ---------------------------------------------------------------------------
-- Tokens
-- ---------------------------------------------------------------------------

namespace Ascii

def dollar : Byte := 0x24
def parenOpen : Byte := 0x28
def parenClose : Byte := 0x29
def star : Byte := 0x2a
def plus : Byte := 0x2b
def comma : Byte := 0x2c
def minus : Byte := 0x2d
def dot : Byte := 0x2e
def slash : Byte := 0x2f
def colon : Byte := 0x3a
def equals : Byte := 0x3d
def question : Byte := 0x3f
def bracketOpen : Byte := 0x5b
def backslash : Byte := 0x5c
def bracketClose : Byte := 0x5d
def caret : Byte := 0x5e
def braceOpen : Byte := 0x7b
def bar : Byte := 0x7c
def braceClose : Byte := 0x7d

end Ascii

open Ascii

inductive Token where
  | set (s : ByteSet)
  | bol
  | eol
  | parenOpen
  | parenClose
  | bar
  | dup (lo : Nat) (more : Option Nat)
  deriving DecidableEq, Repr

/-- The set of one byte. -/
def ByteSet.single (b : Byte) : ByteSet := ⟨false, [(b, b)]⟩

/-- What `.` stands for; a C string has no terminator inside. -/
def ByteSet.any : ByteSet := ⟨true, []⟩

/-- The tokens of one special character. -/
def specialToken (b : Byte) : Option Token :=
  if b = dot then some (.set .any)
  else if b = caret then some .bol
  else if b = dollar then some .eol
  else if b = parenOpen then some .parenOpen
  else if b = parenClose then some .parenClose
  else if b = bar then some .bar
  else if b = star then some (.dup 0 none)
  else if b = plus then some (.dup 1 none)
  else if b = question then some (.dup 0 (some 1))
  else none

/-- The characters that do not stand for themselves. -/
def isSpecial (b : Byte) : Bool :=
  (specialToken b).isSome || b = bracketOpen || b = backslash || b = braceOpen

/-- The classes `[:name:]` in the POSIX locale. -/
def classRanges : List (List Byte × List (Byte × Byte)) :=
  [([0x61, 0x6c, 0x6e, 0x75, 0x6d], [(0x30, 0x39), (0x41, 0x5a), (0x61, 0x7a)]),  -- alnum
   ([0x61, 0x6c, 0x70, 0x68, 0x61], [(0x41, 0x5a), (0x61, 0x7a)]),                -- alpha
   ([0x62, 0x6c, 0x61, 0x6e, 0x6b], [(0x09, 0x09), (0x20, 0x20)]),                -- blank
   ([0x63, 0x6e, 0x74, 0x72, 0x6c], [(0x00, 0x1f), (0x7f, 0x7f)]),                -- cntrl
   ([0x64, 0x69, 0x67, 0x69, 0x74], [(0x30, 0x39)]),                              -- digit
   ([0x67, 0x72, 0x61, 0x70, 0x68], [(0x21, 0x7e)]),                              -- graph
   ([0x6c, 0x6f, 0x77, 0x65, 0x72], [(0x61, 0x7a)]),                              -- lower
   ([0x70, 0x72, 0x69, 0x6e, 0x74], [(0x20, 0x7e)]),                              -- print
   ([0x70, 0x75, 0x6e, 0x63, 0x74],
     [(0x21, 0x2f), (0x3a, 0x40), (0x5b, 0x60), (0x7b, 0x7e)]),                   -- punct
   ([0x73, 0x70, 0x61, 0x63, 0x65], [(0x09, 0x0d), (0x20, 0x20)]),                -- space
   ([0x75, 0x70, 0x70, 0x65, 0x72], [(0x41, 0x5a)]),                              -- upper
   ([0x78, 0x64, 0x69, 0x67, 0x69, 0x74],
     [(0x30, 0x39), (0x41, 0x46), (0x61, 0x66)])]                                 -- xdigit

/-- A byte inside a bracket expression, plain or as `[.b.]`. -/
def bracketByte : List Byte → Option (Byte × List Byte)
  | [] => none
  | b :: rest =>
    if b = bracketOpen ∧ rest.head? = some dot then
      match rest.drop 1 with
      | c :: d :: e :: rest => if d = dot ∧ e = bracketClose then some (c, rest) else none
      | _ => none
    else some (b, rest)

/-- One item of a bracket expression: `[:name:]`, `[=b=]`, a byte or a range. -/
def bracketItem (text : List Byte) : Option (List (Byte × Byte) × List Byte) :=
  if [bracketOpen, colon] <+: text then
    let name := (text.drop 2).takeWhile (· ≠ colon)
    match classRanges.lookup name, text.drop (2 + name.length) with
    | some ranges, c :: d :: rest =>
      if c = colon ∧ d = bracketClose then some (ranges, rest) else none
    | _, _ => none
  else if [bracketOpen, equals] <+: text then
    match text.drop 2 with
    | b :: c :: d :: rest =>
      if c = equals ∧ d = bracketClose then some ([(b, b)], rest) else none
    | _ => none
  else
    match bracketByte text with
    | none => none
    | some (lo, rest) =>
      -- a minus in front of the closing bracket stands for itself
      if rest.head? = some minus ∧ (rest.drop 1).head? ≠ some bracketClose then
        match bracketByte (rest.drop 1) with
        | none => none
        | some (hi, rest) => if lo ≤ hi then some ([(lo, hi)], rest) else none
      else some ([(lo, lo)], rest)

/-- The items up to the closing bracket, which stands for itself in first place. -/
def bracketItems : Nat → Bool → List Byte → Option (List (Byte × Byte) × List Byte)
  | 0, _, _ => none
  | fuel + 1, first, text =>
    if first = false ∧ text.head? = some bracketClose then some ([], text.drop 1)
    else
      match bracketItem text with
      | none => none
      | some (ranges, rest) =>
        (bracketItems fuel false rest).map fun (more, rest) => (ranges ++ more, rest)

/-- A bracket expression behind its opening bracket. -/
def bracketExpression (text : List Byte) : Option (ByteSet × List Byte) :=
  if text.head? = some caret then
    (bracketItems text.length true (text.drop 1)).map fun (ranges, rest) =>
      (⟨true, ranges⟩, rest)
  else
    (bracketItems text.length true text).map fun (ranges, rest) => (⟨false, ranges⟩, rest)

def isDigit (b : Byte) : Bool := decide (0x30 ≤ b) && decide (b ≤ 0x39)

/-- `RE_DUP_MAX`, the least value POSIX allows. -/
def reDupMax : Nat := 255

/-- A number of an interval. -/
def dupCount (text : List Byte) : Option (Nat × List Byte) :=
  let digits := text.takeWhile isDigit
  let n := digits.foldl (fun n b => 10 * n + (b.toNat - 0x30)) 0
  if digits = [] ∨ reDupMax < n then none else some (n, text.drop digits.length)

/-- An interval behind its opening brace. -/
def interval (text : List Byte) : Option (Token × List Byte) :=
  match dupCount text with
  | none => none
  | some (lo, rest) =>
    if rest.head? = some braceClose then some (.dup lo (some 0), rest.drop 1)
    else if [comma, braceClose] <+: rest then some (.dup lo none, rest.drop 2)
    else if rest.head? = some comma then
      match dupCount (rest.drop 1) with
      | none => none
      | some (hi, rest) =>
        if rest.head? = some braceClose ∧ lo ≤ hi then
          some (.dup lo (some (hi - lo)), rest.drop 1)
        else none
    else none

/-- The first token. -/
def lexToken (b : Byte) (rest : List Byte) : Option (Token × List Byte) :=
  if b = backslash then
    match rest with
    | [] => none
    | c :: rest => if isSpecial c then some (.set (.single c), rest) else none
  else if b = bracketOpen then
    (bracketExpression rest).map fun (s, rest) => (.set s, rest)
  else if b = braceOpen then interval rest
  else some ((specialToken b).getD (.set (.single b)), rest)

/-- The tokens of a text of at most the given length. -/
def lex : Nat → List Byte → Option (List Token)
  | _, [] => some []
  | 0, _ :: _ => none
  | fuel + 1, b :: rest =>
    match lexToken b rest with
    | none => none
    | some (token, rest) => (lex fuel rest).map (token :: ·)

-- ---------------------------------------------------------------------------
-- Trees
-- ---------------------------------------------------------------------------

/-- What has been read of a group: the finished alternatives, the pieces of the
alternative that is being read, and the last piece, which a duplication would apply
to. -/
structure Frame where
  alts : Option Ere
  done : Option Ere
  last : Option Ere
  deriving DecidableEq

def Frame.empty : Frame := ⟨none, none, none⟩

/-- One thing after another, as far as both are there. -/
def joinWith (f : Ere → Ere → Ere) : Option Ere → Option Ere → Option Ere
  | none, b => b
  | a, none => a
  | some a, some b => some (f a b)

/-- The pieces of the alternative that is being read. -/
def Frame.branch (frame : Frame) : Option Ere := joinWith .cat frame.done frame.last

/-- A piece a duplication may follow. -/
def Frame.piece (frame : Frame) (e : Ere) : Frame :=
  { frame with done := frame.branch, last := some e }

/-- An anchor: no duplication may follow it. -/
def Frame.anchor (frame : Frame) (e : Ere) : Frame :=
  { frame with done := joinWith .cat frame.branch (some e), last := none }

/-- The whole group; its last alternative may not be empty. -/
def Frame.close (frame : Frame) : Option Ere :=
  frame.branch.bind fun branch => joinWith .alt frame.alts (some branch)

/-- The group that is being read and the groups around it. -/
abbrev Parser := Frame × List Frame

def parseToken (parser : Parser) (token : Token) : Option Parser :=
  let (frame, outer) := parser
  match token with
  | .set s => some (frame.piece (.set s), outer)
  | .bol => some (frame.anchor .bol, outer)
  | .eol => some (frame.anchor .eol, outer)
  | .parenOpen => some (Frame.empty, frame :: outer)
  | .parenClose =>
    match outer with
    | [] => some (frame.piece (.set (.single parenClose)), [])
    | parent :: outer => frame.close.map fun e => (parent.piece e, outer)
  | .bar => frame.close.map fun e => (⟨some e, none, none⟩, outer)
  | .dup lo more =>
    frame.last.map fun e => ({ frame with last := some (.rep e lo more) }, outer)

/-- The tree of a sequence of tokens; every group has to be closed. -/
def parse (tokens : List Token) : Option Ere :=
  match tokens.foldlM parseToken (Frame.empty, []) with
  | some (frame, []) => frame.close
  | _ => none

/-- `regcomp` with `REG_EXTENDED`. -/
def regcomp (text : List Byte) : Option Ere :=
  (lex text.length text).bind parse

end ZmqBridge.Lib
