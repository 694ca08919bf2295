/-
Stencil/Source/Lexer.lean

From characters to tokens.  The lexer walks over the source one character at a
time and knows at each whether it stands in plain text or inside a region.
Where a piece begins it decides how long the piece is, emits its token, and
lets the rest of the piece pass.  So the walk is by recursion on the source,
and the place of a token is the place of the character it begins at.

Inside a region the closing mark is looked for first, then blanks, numbers
(with a fraction before without), names, strings and punctuation.
-/
import Stencil.Source.Complaint
import Stencil.Text.Blank
import Stencil.Text.Digit

namespace Stencil

/-! ### Regions -/

/-- The delimited regions that hold tokens. -/
inductive Region where
  | variableRegion
  | blockRegion
  deriving DecidableEq, Repr

namespace Region

/-- The mark that opens a region. -/
def openingMark : Region → List Char
  | variableRegion => ['\x7b', '\x7b']
  | blockRegion => ['\x7b', '%']

/-- The mark that closes a region. -/
def closingMark : Region → List Char
  | variableRegion => ['\x7d', '\x7d']
  | blockRegion => ['%', '\x7d']

/-- The kind of the token that opens a region. -/
def beginKind : Region → TokenKind
  | variableRegion => .variableBegin
  | blockRegion => .blockBegin

/-- The kind of the token that closes a region. -/
def endKind : Region → TokenKind
  | variableRegion => .variableEnd
  | blockRegion => .blockEnd

/-- The complaint about a region that is never closed. -/
def unclosed : Region → Complaint
  | variableRegion => .unclosedVariable
  | blockRegion => .unclosedTag

end Region

/-- What two characters can open. -/
inductive Opening where
  | region (r : Region)
  | comment
  deriving DecidableEq, Repr

/-- What is opened at the front of a text. -/
def opening? : List Char → Option Opening
  | '\x7b' :: '\x7b' :: _ => some (.region .variableRegion)
  | '\x7b' :: '%' :: _ => some (.region .blockRegion)
  | '\x7b' :: '#' :: _ => some .comment
  | _ => none

/-- The text in front of the first opening. -/
def plainRun : List Char → List Char
  | [] => []
  | c :: rest => if (opening? (c :: rest)).isSome then [] else c :: plainRun rest

/-- The text of a comment up to and with its closing mark, when it is closed. -/
def commentRun? : List Char → Option (List Char)
  | [] => none
  | '#' :: '\x7d' :: _ => some ['#', '\x7d']
  | c :: rest => (commentRun? rest).map (c :: ·)

/-! ### Pieces inside a region -/

/-- A piece of a region: blank, or a token. -/
inductive Piece where
  | blank
  | token (kind : TokenKind) (text : List Char)
  deriving DecidableEq, Repr

/-- Letters and the underscore of ASCII. -/
def isNameStart (c : Char) : Bool := c.isAlpha || c == '_'

/-- Characters that continue a name. -/
def isNamePart (c : Char) : Bool := c.isAlphanum || c == '_'

/-- A number at the front of a text, and its kind. -/
def numberRun? (cs : List Char) : Option (TokenKind × List Char) :=
  let sign := cs.take (if cs.head? = some '-' then 1 else 0)
  let body := cs.drop sign.length
  let whole := body.takeWhile Text.isDecimal
  if whole.isEmpty then none
  else
    match body.drop whole.length with
    | '.' :: rest =>
      let fraction := rest.takeWhile Text.isDecimal
      if fraction.isEmpty then some (.integer, sign ++ whole)
      else some (.float, sign ++ whole ++ '.' :: fraction)
    | _ => some (.integer, sign ++ whole)

/-- The body of a string up to its mark; a backslash takes the next character with it. -/
def stringBody? (mark : Char) : List Char → Option (List Char)
  | [] => none
  | '\\' :: c :: rest => (stringBody? mark rest).map fun body => '\\' :: c :: body
  | c :: rest =>
    if c == mark then some []
    else if c == '\\' then none
    else (stringBody? mark rest).map (c :: ·)

/-- The character that a backslash and a letter stand for. -/
def escaped (c : Char) : Char :=
  if c == 'n' then '\n' else if c == 't' then '\t' else if c == 'r' then '\r' else c

/-- The text that a string body stands for. -/
def unescape : List Char → List Char
  | '\\' :: c :: rest => escaped c :: unescape rest
  | c :: rest => c :: unescape rest
  | [] => []

/-- The kind of a punctuation mark. -/
def punctuation? (c : Char) : Option TokenKind :=
  if c == '.' then some .dot
  else if c == ',' then some .comma
  else if c == '|' then some .pipe
  else if c == '=' then some .assign
  else if c == '(' then some .leftParen
  else if c == ')' then some .rightParen
  else none

/-- A string at the front of a text: what it stands for, and its length with both marks. -/
def stringRun? : List Char → Option (List Char × Nat)
  | mark :: rest =>
    if mark == '\'' || mark == '"' then
      (stringBody? mark rest).map fun body => (unescape body, body.length + 2)
    else none
  | [] => none

/-- The piece at the front of a region's text, and its length. -/
def piece? (cs : List Char) : Option (Piece × Nat) :=
  match cs with
  | [] => none
  | c :: _ =>
    if Text.isBlank c then some (.blank, (cs.takeWhile Text.isBlank).length)
    else match numberRun? cs with
      | some (kind, text) => some (.token kind text, text.length)
      | none =>
        if isNameStart c then
          let text := cs.takeWhile isNamePart
          some (.token .name text, text.length)
        else match stringRun? cs with
          | some (text, size) => some (.token .string text, size)
          | none => (punctuation? c).map fun kind => (.token kind [c], 1)

/-! ### The walk -/

/-- Where the walk stands: in plain text, or inside a region that was opened at a place. -/
inductive Mode where
  | plain
  | inside (r : Region) (opened : Position)
  deriving DecidableEq, Repr

/-- A piece of the source: the token it gives, if any, the mode after it, and its length. -/
structure Stride where
  token? : Option (TokenKind × List Char)
  mode : Mode
  length : Nat
  deriving DecidableEq, Repr

/-- The piece of the source that begins here. -/
def stride (mode : Mode) (place : Position) (cs : List Char) : Except Refusal Stride :=
  match mode with
  | .plain =>
    match opening? cs with
    | some .comment =>
      match commentRun? (cs.drop 2) with
      | some run => .ok ⟨none, .plain, run.length + 2⟩
      | none => .error (.lexical .unclosedComment place)
    | some (.region r) => .ok ⟨some (r.beginKind, r.openingMark), .inside r place, 2⟩
    | none => let run := plainRun cs; .ok ⟨some (.data, run), .plain, run.length⟩
  | .inside r opened =>
    if r.closingMark.isPrefixOf cs then .ok ⟨some (r.endKind, r.closingMark), .plain, 2⟩
    else match piece? cs, cs with
      | some (.blank, n), _ => .ok ⟨none, mode, n⟩
      | some (.token kind text, n), _ => .ok ⟨some (kind, text), mode, n⟩
      | none, c :: _ => .error (.lexical (.unexpectedCharacter c) place)
      | none, [] => .error (.lexical r.unclosed opened)

/-- Walks over a source: `pass` characters still belong to the last piece. -/
def walk (mode : Mode) (place : Position) : (pass : Nat) → List Char → Except Refusal (List Token)
  | _, [] =>
    match mode with
    | .plain => .ok [⟨.eof, "", place⟩]
    | .inside r opened => .error (.lexical r.unclosed opened)
  | pass + 1, c :: rest => walk mode (place.next c) pass rest
  | 0, c :: rest =>
    match stride mode place (c :: rest) with
    | .error e => .error e
    | .ok s =>
      match s.token?, walk s.mode (place.next c) (s.length - 1) rest with
      | _, .error e => .error e
      | none, .ok tokens => .ok tokens
      | some (kind, text), .ok tokens => .ok (⟨kind, String.ofList text, place⟩ :: tokens)

/-- The tokens of a source. -/
def lexChars (cs : List Char) : Except Refusal (List Token) := walk .plain .start 0 cs

/-- The tokens of a source. -/
def lex (source : String) : Except Refusal (List Token) := lexChars source.toList

end Stencil
