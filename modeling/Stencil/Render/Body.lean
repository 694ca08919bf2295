/-
Stencil/Render/Body.lean

Rendering nodes.  Each node gives text; what it does to the context it does to
the context that the slot holds at that moment, because a tag call may have
put another one there.

A loop runs over a list of its own, made of the items when it begins, and
binds its target and its state in a fresh frame for each of them.
-/
import Stencil.Render.Expression

namespace Stencil

variable {β : Type}

/-- Pushes a frame, runs, and takes the innermost frame off the context that the slot then holds. -/
def inScope (slot : Nat) (frame : Frame Value) (act : Run World β) : Run World β := do
  let w ← get
  onLoans (Loans.pushFrame (w.loans.slotAt slot).context frame)
  Run.ensuring act (do
    let w ← get
    let _ ← onLoans (Loans.popFrame (w.loans.slotAt slot).context)
    pure ())

/-- Binds a name in the innermost frame of the slot's context. -/
def assign (slot : Nat) (name : String) (value : Value) : Run World Unit :=
  modify fun w =>
    { w with loans := w.loans.changeContext (w.loans.slotAt slot).context (·.set name value) }

/-- Notes the line of the node that is being rendered. -/
def atLine (line : Int) : Run World Unit :=
  modify (World.changeRendering fun r => { r with line })

/-- The text of a value; nothing stands for absence. -/
def printed (v : Value) : Run World String := do
  let w ← get
  Run.ofExcept (w.heap.printed v)

/-- Whether a value counts as true. -/
def holds (v : Value) : Run World Bool := do
  let w ← get
  return w.heap.truth v

/-! ### Loops -/

/-- Makes the list a loop runs over, and its state: the numbers of both. -/
def beginLoop (items : List Value) : Run World (Nat × Nat) := do
  let w ← get
  let n := w.heap.objects.size
  set { w with
    heap := ((w.heap.add (.list items)).2.add (.loop (some ⟨n, 0⟩))).2 }
  return (n, n + 1)

/-- The bindings of one round of a loop; the loop wins over a target of the same name. -/
def roundFrame (target : String) (item : Value) (loop : Nat) : Frame Value :=
  .ofNamed [(target, item), ("loop", .object loop)]

/-- Goes on with a loop at a position, for at most `rounds` rounds. -/
def runRounds (slot : Nat) (target : String) (items loop : Nat) (body : Run World String) :
    (rounds : Nat) → (position : Nat) → Run World String
  | rounds, position => do
    let w ← get
    match (w.heap.listItems items)[position]? with
    | none => pure ""
    | some item =>
      match rounds with
      | 0 => Run.unfinished
      | rounds + 1 => do
        set { w with heap := w.heap.put loop (.loop (some ⟨items, position⟩)) }
        let text ← inScope slot (roundFrame target item loop) body
        let rest ← runRounds slot target items loop body rounds (position + 1)
        return text ++ rest

/-- Runs a loop over items. -/
def runLoop (host : Host) (slot : Nat) (target : String) (items : List Value)
    (body : Run World String) : Run World String := do
  let (list, loop) ← beginLoop items
  runRounds slot target list loop body (items.length + host.growth) 0

/-! ### Nodes -/

/-- The text of a tag call. -/
def renderCall (host : Host) (r : Renderer) (line : Int) (tag : String)
    (args : List (Expr Value)) (named : List (String × Expr Value)) : Run World String :=
  match r.tags.get? tag with
  | none =>
    unknown "tag" tag line (some s!"Register it with env.register_tag('{tag}', func)") .runtimeError
  | some entry => do
    let vs ← evaluateAll host r r.strict args
    let ns ← evaluateNamed host r named
    renderTag entry r.slot (host.clone r.clone) fun body lent => host.call body lent vs (.ofList ns)

/-- The fault of what cannot be rendered: there is no entry for its title. -/
def noRenderer (title : String) : Fault := .keyError ("<class '" ++ title ++ "'>")

mutual

/-- The text of a node. -/
def renderNode (host : Host) (r : Renderer) : Node Value → Run World String
  | .data _ text => pure text
  | .output _ value => do
    let v ← evaluate host r r.strict value
    printed v
  | .choice _ test body others otherwise => do
    let v ← evaluate host r r.strict test
    if ← holds v then renderNodes host r body
    else renderBranches host r (renderNodes host r otherwise) others
  | .loop _ target items body empty => do
    let v ← evaluate host r r.strict items
    let vs ← onHeap (Heap.itemsOf v)
    if vs.isEmpty then renderNodes host r empty
    else runLoop host r.slot target vs (renderNodes host r body)
  | .scope _ bindings body => do
    let entries ← evaluateNamed host r bindings
    inScope r.slot (.ofNamed entries) (renderNodes host r body)
  | .assign _ target value => do
    let v ← evaluate host r r.strict value
    assign r.slot target v
    return ""
  | .call place tag args named target => do
    let text ← renderCall host r place.line tag args named
    match target with
    | some name => do
      assign r.slot name (.str text)
      return ""
    | none => return text
  | .bare title _ | .tree title _ _ | .expr title _ => Run.fail (noRenderer title)

/-- The text of nodes. -/
def renderNodes (host : Host) (r : Renderer) : List (Node Value) → Run World String
  | [] => pure ""
  | node :: rest => do
    atLine node.place.line
    let text ← renderNode host r node
    let more ← renderNodes host r rest
    return text ++ more

/-- The text of the first branch whose test holds, else what is left. -/
def renderBranches (host : Host) (r : Renderer) (otherwise : Run World String) :
    List (Branch Value) → Run World String
  | [] => otherwise
  | .mk test body :: rest => do
    let v ← evaluate host r r.strict test
    if ← holds v then renderNodes host r body else renderBranches host r otherwise rest

end

end Stencil
