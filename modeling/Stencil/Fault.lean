/-
Stencil/Fault.lean

Faults: everything that can be raised while a template is read or rendered.

Faults of templates form a family of their own: a source that cannot be read,
a render that fails, a tag that fails, a name that is not defined, misuse of
the scopes of a context or of a handle.  Outside of it stand the broken
hand-over of a context, which nothing in a render may turn into another fault,
and the foreign faults that tags, filters and values bring in, known by the
name of their kind.

A fault holds its cause as data; `Fault.message` words it.  A `Failure` is a
fault together with the chain of faults that led to it.
-/
import Stencil.Fault.Snippet
import Stencil.Source.Complaint
import Stencil.Text.Similarity
import Stencil.Value.Atom

namespace Stencil

/-! ### Sources that cannot be read -/

/-- A source that cannot be read. -/
structure Malformed where
  reason : String
  line : Option Int
  name : Option String
  source : Option String
  column : Option Int
  code : Code
  /-- Whether the fault was found at a token. -/
  atToken : Bool
  advice : Option String
  deriving DecidableEq, Repr

/-- A text that is there and not empty. -/
def filled? (s : Option String) : Option String := s.filter (!·.isEmpty)

/-- A number that is there and not zero. -/
def nonzero? (n : Option Int) : Option Int := n.filter (· ≠ 0)

/-- A caret under a column. -/
def caretText (column : Option Int) : String :=
  match column with
  | some c => "\n   | " ++ blanksFor c ++ "^"
  | none => ""

namespace Malformed

/-- What is wrong, with the advice that goes with it. -/
def reasonText (m : Malformed) : String :=
  match filled? m.advice with
  | some a => m.reason ++ "\n\nSuggestion: " ++ a
  | none => m.reason

/-- Where it is wrong. -/
def locationText (m : Malformed) : String :=
  (filled? m.name).getD "<template>" ++
    (match nonzero? m.line with
      | some l =>
        ":" ++ toString l ++ (match m.column with
          | some c => ":" ++ toString c
          | none => "")
      | none => "")

/-- The line it is wrong in, if the source has it. -/
def quotedLine? (m : Malformed) : Option (Int × String) := do
  let source ← filled? m.source
  let line ← nonzero? m.line
  if 0 < line then (Text.lines source)[(line - 1).toNat]?.map (line, ·) else none

/-- The wording: what, where, and the line with a caret. -/
def message (m : Malformed) : String :=
  "Syntax Error: " ++ m.reasonText ++ "\n  --> " ++ m.locationText ++
    (match m.quotedLine? with
      | some (n, line) =>
        "\n   |\n" ++ padLeft 3 (toString n) ++ " | " ++ line ++ caretText m.column
      | none => "")

end Malformed

/-! ### Renders that fail -/

/-- A value as a report shows it. -/
structure ReportedValue where
  name : String
  text : String
  typeName : String
  deriving DecidableEq, Repr

/-- A render that failed. -/
structure Report where
  reason : String
  values : List ReportedValue
  templateName : Option String
  line : Option Int
  advice : Option String
  snippet : Option Snippet
  code : Code
  deriving DecidableEq, Repr

/-- A report that says no more than what went wrong. -/
def Report.plain (reason : String) : Report := ⟨reason, [], none, none, none, none, .runtimeError⟩

/-- A long text is cut to 77 characters and three dots. -/
def ReportedValue.shortText (v : ReportedValue) : String :=
  if 80 < v.text.length then String.ofList (v.text.toList.take 77) ++ "..." else v.text

/-- A template and a line as text. -/
def placeText (templateName : Option String) (line : Option Int) : String :=
  (filled? templateName).getD "<template>" ++
    (match nonzero? line with
      | some l => ":" ++ toString l
      | none => "")

/-- The wording: what, where, the lines around it, values and advice, as far as they are known. -/
def Report.message (r : Report) : String :=
  "\n".intercalate <|
    ["Runtime Error: " ++ r.reason] ++
    (if (filled? r.templateName).isSome || (nonzero? r.line).isSome then
      ["  Location: " ++ placeText r.templateName r.line] else []) ++
    (match r.snippet with
      | some s => [s.text]
      | none => []) ++
    (if r.values.isEmpty then []
      else "  Values:" :: r.values.map fun v =>
        "    " ++ v.name ++ " = " ++ v.shortText ++ " (" ++ v.typeName ++ ")") ++
    (match filled? r.advice with
      | some a => ["\n  Suggestion: " ++ a]
      | none => [])

/-! ### Names that are not defined -/

/-- A name, or a dotted path, without a value.  A fault made by hand may be about an atom that is no
text. -/
structure UndefinedName where
  name : Atom
  templateName : Option String
  line : Option Int
  /-- The names that are defined. -/
  available : List Text.Candidate
  snippet : Option Snippet
  deriving DecidableEq, Repr

/-- The name as text. -/
def UndefinedName.nameText (u : UndefinedName) : String := u.name.text?.getD ""

/-- The wording: which name, where, a name like it, the lines around, and how to allow for it. -/
def UndefinedName.message (u : UndefinedName) : String :=
  "Undefined variable '" ++ u.nameText ++ "' in " ++ placeText u.templateName u.line ++
    (match Text.closest? u.nameText u.available with
      | some c => ". Did you mean '" ++ c ++ "'?"
      | none => "") ++
    (match u.snippet with
      | some s => "\n" ++ s.text
      | none => "") ++
    "\n  Hint: Use \x7b\x7b " ++ u.nameText ++ " | default('') \x7d\x7d for optional variables"

/-! ### Faults -/

/-- What can be raised. -/
inductive Fault where
  /-- A fault of templates that is none of the others. -/
  | general (text : String)
  | malformed (m : Malformed)
  | failed (r : Report)
  | tagFailed (tag : Atom) (r : Report)
  | undefinedName (u : UndefinedName)
  /-- Misuse of the scopes of a context. -/
  | scope (text : String)
  /-- Misuse of a handle. -/
  | handle (text : String)
  | released (text : String)
  | consumed (text : String)
  | lockTimeout (text : String)
  /-- The hand-over of a context is broken. -/
  | invariant (text : String)
  /-- A fault from outside, by the name of its kind. -/
  | foreign (kind : String) (text : String)
  deriving DecidableEq, Repr

namespace Fault

/-- The wording of a fault. -/
def message : Fault → String
  | general t | scope t | handle t | released t | consumed t | lockTimeout t | invariant t
  | foreign _ t => t
  | malformed m => m.message
  | failed r | tagFailed _ r => r.message
  | undefinedName u => u.message

/-- The name of a fault's kind. -/
def kindName : Fault → String
  | general _ => "TemplateError"
  | malformed m => if m.atToken then "ParseError" else "TemplateSyntaxError"
  | failed _ => "TemplateRuntimeError"
  | tagFailed _ _ => "TagError"
  | undefinedName _ => "UndefinedError"
  | scope _ => "ContextError"
  | handle _ => "HandleError"
  | released _ => "HandleReleasedError"
  | consumed _ => "HandleConsumedError"
  | lockTimeout _ => "HandleLockTimeout"
  | invariant _ => "HandoffInvariantError"
  | foreign k _ => k

/-- The code of a fault. -/
def code? : Fault → Option Code
  | malformed m => some m.code
  | failed r | tagFailed _ r => some r.code
  | undefinedName _ => some .undefinedVariable
  | scope _ => some .scopeError
  | released _ => some .handleReleased
  | consumed _ => some .handleConsumed
  | lockTimeout _ => some .handleLockTimeout
  | general _ | handle _ | invariant _ | foreign _ _ => none

/-- Whether a fault belongs to the family of template faults. -/
def ofTemplates : Fault → Bool
  | invariant _ | foreign _ _ => false
  | _ => true

/-- Kinds that stop the whole program; nothing in a render catches them. -/
def stoppingKinds : List String :=
  ["BaseException", "BaseExceptionGroup", "GeneratorExit", "KeyboardInterrupt", "SystemExit"]

/-- Whether a fault may be caught. -/
def catchable : Fault → Bool
  | foreign k _ => !stoppingKinds.contains k
  | _ => true

/-- The kinds that a foreign kind is a special case of, the nearest first, before the general
one. -/
def foreignParents : String → List String
  | "KeyError" | "IndexError" => ["LookupError"]
  | "ZeroDivisionError" | "OverflowError" | "FloatingPointError" => ["ArithmeticError"]
  | "UnicodeError" => ["ValueError"]
  | "UnicodeDecodeError" | "UnicodeEncodeError" | "UnicodeTranslateError" =>
    ["UnicodeError", "ValueError"]
  | "RecursionError" | "NotImplementedError" => ["RuntimeError"]
  | "ModuleNotFoundError" => ["ImportError"]
  | "UnboundLocalError" => ["NameError"]
  | "IndentationError" => ["SyntaxError"]
  | "TabError" => ["IndentationError", "SyntaxError"]
  | "TimeoutError" | "FileNotFoundError" | "FileExistsError" | "PermissionError"
  | "ConnectionError" | "BlockingIOError" | "ChildProcessError" | "InterruptedError"
  | "IsADirectoryError" | "NotADirectoryError" | "ProcessLookupError" => ["OSError"]
  | "BrokenPipeError" | "ConnectionAbortedError" | "ConnectionRefusedError"
  | "ConnectionResetError" => ["ConnectionError", "OSError"]
  | "UserWarning" | "DeprecationWarning" | "PendingDeprecationWarning" | "SyntaxWarning"
  | "RuntimeWarning" | "FutureWarning" | "ImportWarning" | "UnicodeWarning" | "BytesWarning"
  | "EncodingWarning" | "ResourceWarning" => ["Warning"]
  | _ => []

/-- The kinds that a fault's kind is a special case of, the nearest first. -/
def widerKinds : Fault → List String
  | foreign "Exception" _ => []
  | foreign k _ => foreignParents k ++ ["Exception"]
  | general _ => ["Exception"]
  | malformed m =>
    (if m.atToken then ["TemplateSyntaxError"] else []) ++ ["TemplateError", "Exception"]
  | tagFailed _ _ => ["TemplateRuntimeError", "TemplateError", "Exception"]
  | released _ | consumed _ | lockTimeout _ => ["HandleError", "TemplateError", "Exception"]
  | invariant _ => ["RuntimeError", "Exception"]
  | failed _ | undefinedName _ | scope _ | handle _ => ["TemplateError", "Exception"]

/-- Whether `part` occurs in a text. -/
def occursIn (part : List Char) : List Char → Bool
  | [] => part.isEmpty
  | c :: rest => part.isPrefixOf (c :: rest) || occursIn part rest

/-- The message with the code in front, unless it is in the message already. -/
def compact (f : Fault) : String :=
  let text := f.message
  match f.code? with
  | some c => if occursIn c.text.toList text.toList then text else c.text ++ ": " ++ text
  | none => text

/-- A text as a fault quotes it: trimmed, or `absent` when nothing is left. -/
def trimmedOr (absent text : String) : String :=
  let text := Text.trim text
  if text.isEmpty then absent else text

/-- The message as another fault quotes it. -/
def detail (f : Fault) (absent : String) : String := trimmedOr absent f.message

/-! ### Making faults -/

def typeError (text : String) : Fault := foreign "TypeError" text

def valueError (text : String) : Fault := foreign "ValueError" text

def runtimeError (text : String) : Fault := foreign "RuntimeError" text

/-- A missing key, shown as it would be quoted. -/
def keyError (quoted : String) : Fault := foreign "KeyError" quoted

def numeral (e : NumberError) : Fault := valueError e.message

/-- A tag failed: what it failed with, as far as there is something to say, and a report that brings
the place. -/
def ofTagReason (tag : Atom) (kind detail : String) (report : Report) : Fault :=
  tagFailed tag
    { report with
      reason := "Tag '" ++ tag.text?.getD "" ++ "' failed: " ++ kind ++ ": " ++ detail
      code := .tagError }

/-- The text of what has nothing to say. -/
def noDetails : String := "no details available"

/-- A tag failed with a fault. -/
def ofTag (tag : String) (f : Fault) (report : Report) : Fault :=
  ofTagReason (.str tag) f.kindName (f.detail noDetails) report

end Fault

/-! ### Refused sources as faults -/

/-- The fault of a refused source. -/
def Refusal.toFault (name : Option String) (source : Option String) : Refusal → Fault
  | .lexical c place =>
    .malformed ⟨c.message, some place.line, name, source, some place.column, c.code, false, none⟩
  | .grammatical c token =>
    .malformed
      ⟨c.message, some token.line, name, source, some token.column, c.code, true, c.advice?⟩
  | .numeral e => .numeral e
  | .truncated => .foreign "IndexError" "list index out of range"

/-! ### Failures -/

/-- A fault with the faults that led to it, the nearest first. -/
structure Failure where
  fault : Fault
  causes : List Fault
  deriving DecidableEq, Repr

namespace Failure

/-- A fault that nothing led to. -/
def of (f : Fault) : Failure := ⟨f, []⟩

/-- A fault that another failure led to. -/
def because (f : Fault) (e : Failure) : Failure := ⟨f, e.fault :: e.causes⟩

end Failure

end Stencil
