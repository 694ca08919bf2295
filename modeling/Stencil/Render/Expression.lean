/-
Stencil/Render/Expression.lean

Evaluating expressions.  A name or a dotted path without a value is a fault
when the environment is strict, and stands for absence otherwise.  The value
operand of the filter `default` is always evaluated leniently, at any depth.
-/
import Stencil.Render.Dispatch
import Stencil.Tree.Listing
import Stencil.Value.Member

namespace Stencil

variable {β : Type}

/-- How foreign code runs: the bodies of tags, filters and cloning rules; and by how many items a
list may grow while a loop runs over it. -/
structure Host where
  call : List Action → Option Nat → List Value → Bindings String Value → Run World Value
  filter : Filter → List Value → Run Heap Value
  clone : CloneRule → Clone
  growth : Nat

/-- What one render works with: the slot of its context, and what its environment said when it
began. -/
structure Renderer where
  slot : Nat
  strict : Bool
  clone : CloneRule
  filters : Bindings String Filter
  tags : Bindings String TagEntry

/-- The filters whose value operand may be undefined. -/
def lenientFilters : List String := ["default", "d"]

/-! ### Faults -/

/-- The snippet around the line that is being rendered, when there is a source. -/
def Rendering.snippet? (r : Rendering) : Option Snippet := do
  let source ← filled? r.source
  let line ← nonzero? (some r.line)
  some (.ofSource source line 2 none)

/-- The fault of an undefined name or path. -/
def undefined (slot : Nat) (name : String) : Run World Value := do
  let w ← get
  let available ← Run.ofExcept ((w.contextIn slot).names.mapM (·.candidate w.heap))
  Run.fail (.undefinedName
    { name := .str name
      templateName := w.rendering?.bind (·.templateName)
      line := w.rendering?.map (·.line)
      available
      snippet := w.rendering?.bind (·.snippet?) })

/-- The report of something that is not known by a name. -/
def unknown (what name : String) (line : Int) (advice : Option String) (code : Code) :
    Run World β := do
  let w ← get
  Run.fail (.failed
    { Report.plain s!"Unknown {what} '{name}'" with
      templateName := w.rendering?.bind (·.templateName)
      line := some line
      advice, code })

/-- The fault of an expression that has no value. -/
def noValue (e : Expr Value) : Fault := .failed (.plain s!"Cannot evaluate {e.kind} node")

/-! ### Evaluation -/

/-- What a segment names in a value; an absent value has nothing. -/
def memberOf (v : Value) (segment : String) : Run World (Option Value) :=
  if v = .absent then pure none
  else do
    let w ← get
    Run.ofExcept (w.heap.member? v segment)

mutual

/-- The value of an expression. -/
def evaluate (host : Host) (r : Renderer) (strict : Bool) : Expr Value → Run World Value
  | .const _ value => pure value
  | .name _ name => do
    let w ← get
    match (w.contextIn r.slot).lookup? name with
    | some v => return v
    | none => if strict then undefined r.slot name else pure .absent
  | .member place object segment => do
    let v ← evaluate host r strict object
    match ← memberOf v segment with
    | some found => return found
    | none =>
      if strict then do
        let w ← get
        let name ← Run.ofExcept ((Expr.member place object segment).describe w.heap)
        undefined r.slot name
      else pure .absent
  | .not _ operand => do
    let v ← evaluate host r strict operand
    let w ← get
    return .bool (!w.heap.truth v)
  | .filter place value name args =>
    match r.filters.get? name with
    | none => unknown "filter" name place.line none .filterError
    | some f => do
      let v ← evaluate host r (strict && !lenientFilters.contains name) value
      let vs ← evaluateAll host r strict args
      onHeap (host.filter f (v :: vs))
  | .bare place => Run.fail (noValue (.bare place))
  | .node n => Run.fail (noValue (.node n))

/-- The values of expressions, in order. -/
def evaluateAll (host : Host) (r : Renderer) (strict : Bool) :
    List (Expr Value) → Run World (List Value)
  | [] => pure []
  | e :: rest => do
    let v ← evaluate host r strict e
    let vs ← evaluateAll host r strict rest
    return v :: vs

end

/-- The values of named expressions, in order; of several for one name the last counts. -/
def evaluateNamed (host : Host) (r : Renderer) :
    List (String × Expr Value) → Run World (List (String × Value))
  | [] => pure []
  | (name, e) :: rest => do
    let v ← evaluate host r r.strict e
    let vs ← evaluateNamed host r rest
    return (name, v) :: vs

end Stencil
