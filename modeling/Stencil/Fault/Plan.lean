/-
Stencil/Fault/Plan.lean

Faults made by hand.  A plan names a kind and gives the details to build a
fault of it with, by place or by name.
-/
import Stencil.Scope.Name
import Stencil.Value.Datum

namespace Stencil

/-- A detail as a plan gives it, when `α` is `Datum`, or built, when `α` is `Value`. -/
inductive Detail (α : Type) where
  | value (v : α)
  | snippet (s : Snippet)
  /-- The text of a code. -/
  | code (text : String)
  | values (named : List (String × α))
  /-- Names that are defined. -/
  | names (ns : List α)
  | fault (f : Fault)
  | token (t : Token)

/-- What fault is to be made. -/
structure FaultPlan where
  kind : String
  placed : List Datum
  named : List (String × Detail Datum)
  /-- The values that data can point to. -/
  shared : List Datum

namespace Detail

/-- The fault of a text that is no code. -/
def noCode (text : String) : Fault := .valueError (Text.quote text ++ " is not a valid ErrorCode")

/-- Builds a detail. -/
def build (shared : List Value) : Detail Datum → Run Heap (Detail Value)
  | value d => do
    let v ← d.build shared
    return value v
  | values named => do
    let vs ← Datum.buildNamed shared named
    return values vs
  | names ds => do
    let vs ← Datum.buildAll shared ds
    return names vs
  | snippet s => pure (snippet s)
  | code text =>
    if (Code.ofText? text).isSome then pure (code text) else Run.fail (noCode text)
  | fault f => pure (fault f)
  | token t => pure (token t)

/-- Builds named details, in order. -/
def buildNamed (shared : List Value) :
    List (String × Detail Datum) → Run Heap (List (String × Detail Value))
  | [] => pure []
  | (name, d) :: rest => do
    let b ← d.build shared
    let bs ← buildNamed shared rest
    return (name, b) :: bs

end Detail

namespace Details

/-- A detail that was given. -/
def get? (d : Details (Detail Value)) (name : String) : Option (Detail Value) :=
  match d.known.lookup name with
  | some (.value (.atom .none)) => none
  | found => found

/-- The text of a detail that must be given. -/
def text (d : Details (Detail Value)) (name : String) : Run Heap String := do
  match d.known.lookup name with
  | some (.value v) => do
    let h ← get
    Run.ofExcept (h.text v)
  | _ => return ""

/-- The text of a detail. -/
def text? (d : Details (Detail Value)) (name : String) : Run Heap (Option String) :=
  match d.get? name with
  | some _ => do
    let t ← d.text name
    return some t
  | none => pure none

/-- The whole number of a detail. -/
def number? (d : Details (Detail Value)) (name : String) : Option Int :=
  match d.get? name with
  | some (.value (.atom a)) => a.wholeNumber?
  | _ => none

/-- The atom that a detail is, or its text. -/
def atom (d : Details (Detail Value)) (name : String) : Run Heap Atom := do
  match d.known.lookup name with
  | some (.value (.atom a)) => return a
  | _ => do
    let t ← d.text name
    return .str t

/-- The code of a detail. -/
def code? (d : Details (Detail Value)) : Option Code :=
  match d.get? "code" with
  | some (.code text) => Code.ofText? text
  | _ => none

/-- The snippet of a detail; nothing else can be shown as one. -/
def snippet? (d : Details (Detail Value)) : Run Heap (Option Snippet) := do
  match d.get? "source_snippet" with
  | some (.snippet s) => return some s
  | some (.value v) => do
    let h ← get
    if h.truth v then Run.fail (missingAttribute (h.typeName v) "format") else return none
  | _ => return none

/-- The names that are defined. -/
def available (d : Details (Detail Value)) : Run Heap (List Value) := do
  let h ← get
  match d.get? "available_names" with
  | some (.names vs) => do
    Run.ofExcept (vs.forM h.requireHashable)
    return vs
  | some (.value v) => if h.truth v then Heap.itemsOf v else return []
  | _ => return []

end Details

namespace FaultPlan

/-! ### Reports -/

/-- A value as a report shows it. -/
def reportedValue (name : String) (v : Value) : Run Heap ReportedValue := do
  let h ← get
  let text ← Run.ofExcept (h.quoted v)
  return ⟨name, text, h.typeName v⟩

/-- Values as a report shows them, in order. -/
def reportedValues : List (String × Value) → Run Heap (List ReportedValue)
  | [] => pure []
  | (name, v) :: rest => do
    let r ← reportedValue name v
    let rs ← reportedValues rest
    return r :: rs

/-- The report of the details of a render that failed. -/
def report (d : Details (Detail Value)) : Run Heap Report := do
  let reason ← d.text "message"
  let templateName ← d.text? "template_name"
  let snippet ← d.snippet?
  let values ←
    match d.get? "values" with
    | some (.values vs) => reportedValues (Bindings.ofList vs).entries
    | _ => pure []
  let advice ← d.text? "suggestion"
  return ⟨reason, values, templateName, d.number? "lineno", advice, snippet, .runtimeError⟩

/-! ### Kinds -/

/-- A source that cannot be read. -/
def malformed (d : Details (Detail Value)) : Run Heap Fault := do
  let reason ← d.text "message"
  let name ← d.text? "name"
  let source ← d.text? "source"
  return .malformed
    ⟨reason, d.number? "lineno", name, source, d.number? "col_offset",
      d.code?.getD .invalidExpression, false, none⟩

/-- A source that cannot be read from a token on. -/
def malformedAt (d : Details (Detail Value)) : Run Heap Fault := do
  let reason ← d.text "message"
  let advice ← d.text? "suggestion"
  match d.known.lookup "token" with
  | some (.token t) => do
    let name ← d.text? "name"
    let source ← d.text? "source"
    return .malformed
      ⟨reason, some t.line, name, source, some t.column, d.code?.getD .unexpectedToken, true,
        advice⟩
  | some (.value v) => do
    let h ← get
    Run.fail (missingAttribute (h.typeName v) "lineno")
  | _ => Run.fail (missingAttribute "object" "lineno")

/-- A tag that failed.  What else is given are the details of its report. -/
def tagFailed (d : Details (Detail Value)) : Run Heap Fault := do
  let tag ← d.atom "tag_name"
  let h ← get
  let (kind, reason) ←
    match d.known.lookup "error" with
    | some (.fault f) => pure (f.kindName, f.message)
    | some (.value v) => do
      let text ← d.text "error"
      pure (h.typeName v, text)
    | _ => pure ("object", "")
  let inner ← Run.ofExcept
    (Signature.runtimeError.fill [.value (.str "")] d.others)
  let r ← report inner
  return .ofTagReason tag kind (Fault.trimmedOr Fault.noDetails reason) r

/-- A name without a value. -/
def undefinedName (d : Details (Detail Value)) : Run Heap Fault := do
  let name ← d.atom "name"
  let templateName ← d.text? "template"
  let names ← d.available
  let h ← get
  let available ←
    match name, names with
    | .str _, _ => Run.ofExcept (names.mapM fun v => (Name.ofValue v).candidate h)
    | _, [] => pure []
    | _, _ => Run.fail (notIterable name.typeName)
  let snippet ← d.snippet?
  return .undefinedName ⟨name, templateName, d.number? "lineno", available, snippet⟩

/-- What a fault is built with that takes any number of values: several are listed. -/
def subjectOf (vs : List Value) : Run Heap (Option Subject) := do
  match vs with
  | [] => return none
  | [v] => do
    let h ← get
    let s ← Run.ofExcept (h.subject v)
    return some s
  | _ => do
    let v ← Datum.make (.tuple vs)
    let h ← get
    let text ← Run.ofExcept (h.quoted v)
    return some ⟨text, text, .str text⟩

/-- Makes the fault of a plan. -/
def make (p : FaultPlan) : Run Heap Fault := do
  let shared ← Datum.buildShared [] p.shared
  let placed ← Datum.buildAll shared p.placed
  let named ← Detail.buildNamed shared p.named
  let filled (s : Signature) : Run Heap (Details (Detail Value)) :=
    Run.ofExcept (s.fill (placed.map .value) named)
  match p.kind with
  | "TemplateSyntaxError" => do
    let d ← filled .syntaxError
    malformed d
  | "ParseError" => do
    let d ← filled .parseError
    malformedAt d
  | "TemplateRuntimeError" => do
    let d ← filled .runtimeError
    let r ← report d
    return .failed r
  | "TagError" => do
    let d ← filled .tagError
    tagFailed d
  | "UndefinedError" => do
    let d ← filled .undefinedError
    undefinedName d
  | kind => do
    let subject ← subjectOf placed
    let f := Fault.ofKind kind subject
    if !named.isEmpty then Run.fail (.typeError (kind ++ "() takes no keyword arguments"))
    else if f.kindName ≠ Fault.properKind kind then Run.fail f
    else return f

end FaultPlan

end Stencil
