/-
Stencil/Source/Complaint.lean

What can be wrong with a source.  Each complaint is a cause; its wording, its
code and, where there is one, the advice that goes with it are functions of
the cause.  The reader of characters complains at a place, the reader of
tokens at a token.
-/
import Stencil.Fault.Code
import Stencil.Numeral.Reading
import Stencil.Source.Token

namespace Stencil

/-- What is wrong with a source. -/
inductive Complaint where
  | unclosedComment
  /-- A variable region without its closing mark. -/
  | unclosedVariable
  /-- A block region without its closing mark. -/
  | unclosedTag
  | unexpectedCharacter (c : Char)
  /-- Another token was wanted. -/
  | expected (wanted : String) (found : Token)
  /-- A token that cannot stand where it does. -/
  | unexpected (found : Token)
  /-- A block region that does not start with a name. -/
  | missingTagName
  /-- A keyword that continues a block, outside of one. -/
  | strayContinuation (keyword : String)
  /-- A block whose closing keyword is missing. -/
  | unclosedBlock (keyword : String)
  /-- A `with` block that binds nothing. -/
  | missingBinding
  /-- A positional argument of a tag after a keyword argument. -/
  | positionalAfterKeyword (tag : String)
  | filterArguments
  | missingAttribute
  | missingExpression (found : Token)
  deriving DecidableEq, Repr

namespace Complaint

/-- The wording of a complaint. -/
def message : Complaint → String
  | unclosedComment => "Unclosed comment"
  | unclosedVariable => "Expected '\x7d\x7d' before end of template"
  | unclosedTag => "Expected '%\x7d' before end of template"
  | unexpectedCharacter c => "Unexpected character " ++ Text.quote (String.singleton c)
  | expected wanted found => s!"Expected '{wanted}', got '{found.spelled}'"
  | unexpected found => s!"Unexpected '{found.text}'"
  | missingTagName => "Expected a tag name after '\x7b%'"
  | strayContinuation keyword => s!"'{keyword}' outside of a matching block"
  | unclosedBlock keyword => s!"Unclosed '{keyword}' block"
  | missingBinding => "'with' needs at least one name=value binding"
  | positionalAfterKeyword tag => s!"Positional argument after keyword argument in '{tag}'"
  | filterArguments => "Expected ',' or ')' in filter arguments"
  | missingAttribute => "Expected attribute name after '.'"
  | missingExpression found => s!"Expected an expression, got '{found.spelled}'"

/-- The code of a complaint. -/
def code : Complaint → Code
  | unclosedComment => .unclosedComment
  | unclosedVariable => .unclosedVariable
  | unclosedTag => .unclosedTag
  | unexpectedCharacter _ => .unexpectedCharacter
  | unclosedBlock _ => .unclosedBlock
  | missingExpression _ => .invalidExpression
  | _ => .unexpectedToken

/-- The advice that goes with a complaint. -/
def advice? : Complaint → Option String
  | unclosedBlock _ => some "Close it with \x7b% end %\x7d"
  | _ => none

end Complaint

/-- Why a source was refused. -/
inductive Refusal where
  /-- The characters from a place on form no token. -/
  | lexical (complaint : Complaint) (place : Position)
  /-- The tokens from a token on form no template. -/
  | grammatical (complaint : Complaint) (token : Token)
  /-- A number literal that cannot be read. -/
  | numeral (error : NumberError)
  /-- The token list ends without its closing token. -/
  | truncated
  deriving DecidableEq, Repr

end Stencil
