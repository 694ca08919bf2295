/-
Stencil/Source/Token.lean

Tokens: the pieces a source is made of.  Text outside the delimited regions is
data.  A region is opened and closed by tokens of its own, and holds names,
literals and punctuation.
-/
import Stencil.Source.Position
import Stencil.Text.Quoted

namespace Stencil

/-- The kinds of tokens. -/
inductive TokenKind where
  | data
  | variableBegin
  | variableEnd
  | blockBegin
  | blockEnd
  | name
  | string
  | integer
  | float
  | dot
  | comma
  | pipe
  | assign
  | leftParen
  | rightParen
  | eof
  deriving DecidableEq, Repr

namespace TokenKind

/-- All kinds, in their order. -/
def all : List TokenKind :=
  [data, variableBegin, variableEnd, blockBegin, blockEnd, name, string, integer, float,
   dot, comma, pipe, assign, leftParen, rightParen, eof]

/-- The kind as messages name it. -/
def label : TokenKind → String
  | data => "data"
  | variableBegin => "variable_begin"
  | variableEnd => "variable_end"
  | blockBegin => "block_begin"
  | blockEnd => "block_end"
  | name => "name"
  | string => "string"
  | integer => "integer"
  | float => "float"
  | dot => "dot"
  | comma => "comma"
  | pipe => "pipe"
  | assign => "assign"
  | leftParen => "lparen"
  | rightParen => "rparen"
  | eof => "eof"

/-- The kind as token listings name it. -/
def capitals (k : TokenKind) : String := String.ofList (k.label.toList.map Char.toUpper)

/-- The kind with a given name in token listings. -/
def ofCapitals? (s : String) : Option TokenKind := all.find? (·.capitals == s)

end TokenKind

/-- A token and the place where it begins. -/
structure Token where
  kind : TokenKind
  text : String
  position : Position
  deriving DecidableEq, Repr

namespace Token

/-- The row of a token. -/
def line (t : Token) : Int := t.position.line

/-- The column of a token. -/
def column (t : Token) : Int := t.position.column

/-- A token in a listing. -/
def listed (t : Token) : String :=
  s!"Token({t.kind.capitals}, {Text.quote t.text}, {t.line}:{t.column})"

/-- How messages speak of a token: by its text, or by its kind when it has none. -/
def spelled (t : Token) : String := if t.text.isEmpty then t.kind.label else t.text

end Token

end Stencil
