/-
Stencil/Fault/Kind.lean

Faults of a kind that is given by its name, built with one thing or with
nothing.
-/
import Stencil.Fault.Signature

namespace Stencil

/-- What a fault is built with: its text, its quoted text, and the atom that it is; what is no atom
counts as its text. -/
structure Subject where
  text : String
  quoted : String
  atom : Atom

/-- A text to build a fault with. -/
def Subject.ofText (s : String) : Subject := ⟨s, Text.quote s, .str s⟩

namespace Fault

/-- Other names of a kind. -/
def properKind : String → String
  | "IOError" | "EnvironmentError" => "OSError"
  | kind => kind

/-- Kinds that are built with a number of details of their own: the number, and how their complaint
begins. -/
def fixedDetails? : String → Option (Nat × String)
  | "UnicodeDecodeError" | "UnicodeEncodeError" => some (5, "function")
  | "UnicodeTranslateError" => some (4, "function")
  | "BaseExceptionGroup" | "ExceptionGroup" => some (2, "BaseExceptionGroup.__new__()")
  | _ => none

/-- The text of a foreign fault that is built with nothing. -/
def bareText : String → String
  | "SyntaxError" | "IndentationError" | "TabError" => "None"
  | _ => ""

/-- A foreign fault of a kind. -/
def foreignOf (kind : String) (subject : Option Subject) : Fault :=
  match fixedDetails? kind with
  | some (count, start) =>
    typeError s!"{start} takes exactly {count} arguments ({subject.toList.length} given)"
  | none =>
    match subject with
    | none => foreign kind (bareText kind)
    | some s => foreign kind (if kind = "KeyError" then s.quoted else s.text)

/-- A fault of a kind.  A tag fault built like this tells of a tag called `inner`, and says `None`
where it has no message. -/
def ofKind (kind : String) (subject : Option Subject) : Fault :=
  let text := (subject.map (·.text)).getD ""
  match kind, subject with
  | "TemplateError", _ => general text
  | "ContextError", _ => scope text
  | "HandleError", _ => handle text
  | "HandleReleasedError", _ => released text
  | "HandleConsumedError", _ => consumed text
  | "HandleLockTimeout", _ => lockTimeout text
  | "HandoffInvariantError", _ => invariant text
  | "TagError", _ => ofTag "inner" (valueError ((subject.map (·.text)).getD "None")) (.plain "")
  | "TemplateSyntaxError", some s =>
    malformed ⟨s.text, none, none, none, none, .invalidExpression, false, none⟩
  | "TemplateSyntaxError", none => Signature.syntaxError.missing ["message"]
  | "TemplateRuntimeError", some s => failed (.plain s.text)
  | "TemplateRuntimeError", none => Signature.runtimeError.missing ["message"]
  | "UndefinedError", some s => undefinedName ⟨s.atom, none, none, [], none⟩
  | "UndefinedError", none => Signature.undefinedError.missing ["name"]
  | "ParseError", some _ => Signature.parseError.missing ["token"]
  | "ParseError", none => Signature.parseError.missing ["message", "token"]
  | kind, _ => foreignOf (properKind kind) subject

end Fault

end Stencil
