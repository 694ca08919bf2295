/-
Stencil/Filter.lean

Filters.  A filter is applied to a value and further arguments.  The first
seven are there in every environment; the others can be registered besides.
Each names itself in the complaint about a wrong number of arguments.
-/
import Stencil.Bindings
import Stencil.Text.Case
import Stencil.Value.Iteration
import Stencil.Value.Member

namespace Stencil

/-- What can be registered as a filter. -/
inductive Filter where
  | upper
  | lower
  | title
  | trim
  | length
  | default
  | join
  /-- The quoted text of all arguments. -/
  | display
  /-- A number doubled, or a sequence repeated. -/
  | twice
  /-- A number divided by zero. -/
  | half
  | typeName
  /-- A fault of a given kind. -/
  | fail
  | asList
  deriving DecidableEq, Repr

namespace Filter

/-- The filters that are there in every environment. -/
def builtin : Bindings String Filter :=
  ⟨[("upper", upper), ("lower", lower), ("title", title), ("trim", trim), ("length", length),
    ("default", default), ("d", default), ("join", join)]⟩

/-- The name by which a filter speaks of itself. -/
def functionName : Filter → String
  | upper => "_filter_upper"
  | lower => "_filter_lower"
  | title => "_filter_title"
  | trim => "_filter_trim"
  | length => "_filter_length"
  | default => "_filter_default"
  | join => "_filter_join"
  | display => "show"
  | twice => "twice"
  | half => "half"
  | typeName => "typename"
  | fail => "fail"
  | asList => "as_list"

/-- The filters that can be registered besides, by their names. -/
def ofName? : String → Option Filter
  | "show" => some display
  | "twice" => some twice
  | "half" => some half
  | "typename" => some typeName
  | "fail" => some fail
  | "as_list" => some asList
  | _ => none

/-- The name of a filter's first argument. -/
def firstArgument : Filter → String
  | upper | lower | title | trim | length | default | join => "value"
  | _ => "v"

/-- The greatest number of arguments a filter takes, if there is one. -/
def mostArguments? : Filter → Option Nat
  | display => none
  | default | fail => some 3
  | join => some 2
  | _ => some 1

/-- The complaint about too many arguments. -/
def tooMany (f : Filter) (most given : Nat) : Fault :=
  .typeError <|
    if most = 1 then s!"{f.functionName}() takes 1 positional argument but {given} were given"
    else s!"{f.functionName}() takes from 1 to {most} positional arguments but {given} were given"

/-- The complaint about no arguments. -/
def tooFew (f : Filter) : Fault :=
  .typeError
    s!"{f.functionName}() missing 1 required positional argument: '{f.firstArgument}'"

/-- The text of a value. -/
def textOf (v : Value) : Run Heap String := do
  let h ← get
  Run.ofExcept (h.text v)

/-- Applies a function to the text of a value. -/
def onText (f : String → String) (v : Value) : Run Heap Value := do
  let t ← textOf v
  return .str (f t)

/-- The complaint about an operation with a whole number. -/
def unsupported (operator typeName : String) : Fault :=
  .typeError s!"unsupported operand type(s) for {operator}: '{typeName}' and 'int'"

/-- A value twice. -/
def double (v : Value) : Run Heap Value := do
  let h ← get
  match v, h.objectOf? v with
  | .atom (.bool b), _ => return .int (if b then 2 else 0)
  | .atom (.int n), _ => return .int (2 * n)
  | .atom (.float (.nan _)), _ => do
    set { h with unnumbers := h.unnumbers + 1 }
    return .float (.nan (h.unnumbers + 1))
  | .atom (.float x), _ => return .float x.double
  | .atom (.str s), _ => return .str (s ++ s)
  | _, some (.list xs) => do
    let (w, h) := h.add (.list (xs ++ xs))
    set h
    return w
  | _, some (.tuple []) => return v
  | _, some (.tuple xs) => do
    let (w, h) := h.add (.tuple (xs ++ xs))
    set h
    return w
  | _, _ => Run.fail (unsupported "*" (h.typeName v))

/-- The fault of dividing a value by zero. -/
def divided (h : Heap) : Value → Fault
  | .atom (.bool _) | .atom (.int _) => .foreign "ZeroDivisionError" "division by zero"
  | .atom (.float _) => .foreign "ZeroDivisionError" "float division by zero"
  | v => unsupported "/" (h.typeName v)

/-- The texts of the items of a value, joined.  What is no text cannot join; it is asked how it
would before the value is. -/
def joined (v separator : Value) : Run Heap Value := do
  match separator with
  | .atom (.str s) => do
    let texts ← Heap.forEach v textOf
    return .str (s.intercalate texts)
  | _ => do
    let h ← get
    let how ← Run.ofExcept (h.attributeOf separator "join")
    Run.ofExcept (h.requireIterable v)
    Run.fail (notCallable (h.typeName how))

/-- Raises a fault of a kind, with a message or without. -/
def raised (kind message : Value) : Run Heap Value := do
  let kind ← textOf kind
  match message with
  | .atom .none => Run.fail (Fault.ofKind kind none)
  | _ => do
    let h ← get
    let subject ← Run.ofExcept (h.subject message)
    Run.fail (Fault.ofKind kind (some subject))

/-- A value, or a default when there is none; asked to, also when it is false. -/
def orDefault (v d : Value) (falsy : Bool) (h : Heap) : Value :=
  if v = .absent || (falsy && !h.truth v) then d else v

/-- Applies a filter to arguments whose number is right. -/
def applyTo : Filter → Value → List Value → Run Heap Value
  | upper, v, _ => onText Text.upper v
  | lower, v, _ => onText Text.lower v
  | title, v, _ => onText Text.title v
  | trim, v, _ => onText Text.trim v
  | length, v, _ => do
    let h ← get
    let n ← Run.ofExcept (h.sizeOf v)
    return .nat n
  | default, v, rest => do
    let h ← get
    return orDefault v (rest.getD 0 (.str "")) ((rest[1]?).any h.truth) h
  | join, v, rest => joined v (rest.getD 0 (.str ""))
  | display, v, rest => do
    let h ← get
    let texts ← Run.ofExcept ((v :: rest).mapM h.quoted)
    return .str ("[" ++ ", ".intercalate texts ++ "]")
  | twice, v, _ => double v
  | half, v, _ => do
    let h ← get
    Run.fail (divided h v)
  | typeName, v, _ => do
    let h ← get
    return .str (h.typeName v)
  | fail, _, rest => raised (rest.getD 0 (.str "ValueError")) (rest.getD 1 .absent)
  | asList, v, _ => do
    let items ← Heap.itemsOf v
    let h ← get
    let (w, h) := h.add (.list items)
    set h
    return w

/-- Applies a filter. -/
def apply (f : Filter) (args : List Value) : Run Heap Value :=
  match f.mostArguments?, args with
  | none, [] => pure (.str "[]")
  | some _, [] => Run.fail f.tooFew
  | some most, v :: rest =>
    if most < args.length then Run.fail (f.tooMany most args.length) else applyTo f v rest
  | none, v :: rest => applyTo f v rest

end Filter

end Stencil
