/-
Stencil/Fault/Code.lean

The codes of faults.  A code belongs to a family and has a number in it, and is
written as the letter K, the short name of its family and three digits.
-/
namespace Stencil

/-- The families of fault codes. -/
inductive CodeFamily where
  | lexer
  | parser
  | runtime
  | handle
  deriving DecidableEq, Repr

/-- The short name of a family, as it stands in a code. -/
def CodeFamily.short : CodeFamily → String
  | .lexer => "LEX"
  | .parser => "PAR"
  | .runtime => "RUN"
  | .handle => "HND"

/-- The full name of a family. -/
def CodeFamily.name : CodeFamily → String
  | .lexer => "lexer"
  | .parser => "parser"
  | .runtime => "runtime"
  | .handle => "handle"

/-- The codes by which faults can be looked up. -/
inductive Code where
  | unclosedTag
  | unclosedComment
  | unclosedVariable
  | unexpectedCharacter
  | unexpectedToken
  | unclosedBlock
  | invalidExpression
  | undefinedVariable
  | filterError
  | runtimeError
  | tagError
  | scopeError
  | handleReleased
  | handleConsumed
  | handleLockTimeout
  deriving DecidableEq, Repr

namespace Code

/-- All codes, in their order. -/
def all : List Code :=
  [unclosedTag, unclosedComment, unclosedVariable, unexpectedCharacter,
   unexpectedToken, unclosedBlock, invalidExpression,
   undefinedVariable, filterError, runtimeError, tagError, scopeError,
   handleReleased, handleConsumed, handleLockTimeout]

/-- The family of a code. -/
def family : Code → CodeFamily
  | unclosedTag | unclosedComment | unclosedVariable | unexpectedCharacter => .lexer
  | unexpectedToken | unclosedBlock | invalidExpression => .parser
  | undefinedVariable | filterError | runtimeError | tagError | scopeError => .runtime
  | handleReleased | handleConsumed | handleLockTimeout => .handle

/-- The number of a code in its family. -/
def number : Code → Nat
  | unclosedTag | unexpectedToken | undefinedVariable | handleReleased => 1
  | unclosedComment | unclosedBlock | filterError | handleConsumed => 2
  | unclosedVariable | invalidExpression | handleLockTimeout => 3
  | unexpectedCharacter => 4
  | runtimeError => 7
  | tagError => 8
  | scopeError => 9

/-- The text of a code. -/
def text (c : Code) : String := "K-" ++ c.family.short ++ "-00" ++ toString c.number

/-- The name of a code. -/
def name : Code → String
  | unclosedTag => "UNCLOSED_TAG"
  | unclosedComment => "UNCLOSED_COMMENT"
  | unclosedVariable => "UNCLOSED_VARIABLE"
  | unexpectedCharacter => "UNEXPECTED_CHARACTER"
  | unexpectedToken => "UNEXPECTED_TOKEN"
  | unclosedBlock => "UNCLOSED_BLOCK"
  | invalidExpression => "INVALID_EXPRESSION"
  | undefinedVariable => "UNDEFINED_VARIABLE"
  | filterError => "FILTER_ERROR"
  | runtimeError => "RUNTIME_ERROR"
  | tagError => "TAG_ERROR"
  | scopeError => "SCOPE_ERROR"
  | handleReleased => "HANDLE_RELEASED"
  | handleConsumed => "HANDLE_CONSUMED"
  | handleLockTimeout => "HANDLE_LOCK_TIMEOUT"

/-- The code with a given text. -/
def ofText? (t : String) : Option Code := all.find? (·.text == t)

/-- The codes whose text starts in a given way, in their order. -/
def startingWith (start : String) : List Code :=
  all.filter fun c => start.toList.isPrefixOf c.text.toList

theorem mem_all (c : Code) : c ∈ all := by cases c <;> decide

end Code

end Stencil
