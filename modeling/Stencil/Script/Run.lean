/-
Stencil/Script/Run.lean

Running scripts.  Operands are evaluated from left to right and build new
lists and dictionaries each time.  Actions run in order until one gives a
value or stops; a script that gives none gives absence.

A script may render a template, whose tags run scripts in turn.  So the host
of all scripts is built in layers: scripts in one layer render with the layer
below, and in the lowest layer no script comes to an end.
-/
import Stencil.Render.Template
import Stencil.Value.Loop

namespace Stencil

variable {β : Type}

/-- A call of a tag: the handle it was lent, and its arguments. -/
structure Call where
  lent : Option Nat
  args : List Value
  named : Bindings String Value

/-- How a script has templates rendered. -/
abbrev TemplateRun := Nat → List (String × Value) → Run World String

/-! ### Faults -/

/-- The type of what a plain tag has in place of a handle. -/
def noHandleType : String := "NoneType"

/-- The fault of asking the absent handle of a plain tag for something. -/
def noHandle (wanted : String) : Fault := missingAttribute noHandleType wanted

/-- The fault of asking for something when there is no current environment. -/
def noEnvironment (wanted : String) : Fault := missingAttribute "NoneType" wanted

/-- The fault of a place in a list where there is no item. -/
def noItem (place : Int) : Fault := Place.nothingAt place "list index"

def notRendering : Fault := .runtimeError "Not in a render context"

/-- The fault of a missing name in a table. -/
def noEntry (name : String) : Fault := .keyError (Text.quote name)

/-! ### Parts of operands -/

/-- Makes an object. -/
def makeObject (o : Object) : Run World Value := onHeap (Datum.make o)

/-- Makes a list of names. -/
def makeNames (names : List Name) : Run World Value := makeObject (.list (names.map Name.value))

/-- Works with the handle of a call; without one that is refused. -/
def Call.withHandle (c : Call) (refusal : Fault) (work : Nat → Run World β) : Run World β :=
  match c.lent with
  | some h => work h
  | none => Run.fail refusal

/-- What is known of the current render, as a list. -/
def renderingValue : Run World Value := do
  let w ← get
  match w.rendering? with
  | none => Run.fail notRendering
  | some r =>
    let t := w.tallyAt r.tally
    makeObject (.list
      [(r.templateName.map Value.str).getD .absent, .int r.line, .nat r.tagDepth,
       .nat t.handoffs, .nat t.unique, .nat t.deepCopy])

/-! ### Operands -/

mutual

/-- The value of an operand. -/
def Operand.value (render : TemplateRun) (c : Call) : Operand → Run World Value
  | .datum d => build d
  | .argument place =>
    Run.ofExcept
      ((Place.get? c.args place).elim (.error (Place.nothingAt place "tuple index")) .ok)
  | .keyword n => Run.ofExcept ((c.named.get? n).elim (.error (noEntry n)) .ok)
  | .arguments => makeObject (.list c.args)
  | .keywords => makeObject (.dict (c.named.entries.map fun e => (.str e.1, e.2)))
  | .bound n => c.withHandle (notSubscriptable noHandleType) fun h => onLoans (Loans.lookup h n)
  | .boundOr n default => c.withHandle (noHandle "get") fun h => do
    let d ← build default
    onLoans (Loans.getOr h n d)
  | .isBound n => c.withHandle (noContainer noHandleType) fun h => do
    let b ← onLoans (Loans.contains h n)
    return .bool b
  | .names => c.withHandle (noHandle "names") fun h => do
    let ns ← onLoans (Loans.names h)
    makeNames ns
  | .iterated => c.withHandle (notIterable noHandleType) fun h => do
    let ns ← onLoans (Loans.names h)
    makeNames ns
  | .count => c.withHandle (noLength noHandleType) fun h => do
    let n ← onLoans (Loans.count h)
    return .nat n
  | .references => c.withHandle (noHandle "refcount") fun h => do
    let w ← get
    return .int (w.loans.cellOf h).references
  | .listed => do
    let w ← get
    return .str ((c.lent.map w.loans.listed).getD "None")
  | .attributeOf operand n => do
    let v ← operand.value render c
    let w ← get
    Run.ofExcept (w.heap.attributeOf v n)
  | .joined parts => do
    let vs ← valuesOf render c parts
    let texts ← onHeap (Heap.visit Filter.textOf vs)
    return .str (String.join texts)
  | .list parts => do
    let vs ← valuesOf render c parts
    makeObject (.list vs)
  | .cycled values => do
    let loop ← c.withHandle (notSubscriptable noHandleType) fun h =>
      onLoans (Loans.lookup h "loop")
    let vs ← buildAll values
    let w ← get
    Run.ofExcept (w.heap.cycleOf loop vs)
  | .rendering => renderingValue
  | .rendered place named => do
    let w ← get
    match Place.get? w.library place with
    | none => Run.fail (noItem place)
    | some template => do
      let ns ← namedOf render c named
      let text ← render template ns
      return .str text

/-- The values of operands, in order. -/
def valuesOf (render : TemplateRun) (c : Call) : List Operand → Run World (List Value)
  | [] => pure []
  | o :: rest => do
    let v ← o.value render c
    let vs ← valuesOf render c rest
    return v :: vs

/-- The values of named operands, in order. -/
def namedOf (render : TemplateRun) (c : Call) :
    List NamedOperand → Run World (List (String × Value))
  | [] => pure []
  | .mk n o :: rest => do
    let v ← o.value render c
    let vs ← namedOf render c rest
    return (n, v) :: vs

end

/-! ### Kept handles -/

/-- Keeps a handle. -/
def keepHandle (h : Nat) : Run World Unit := modify fun w => { w with kept := w.kept ++ [h] }

/-- Works with the kept handle at a place. -/
def withKept (place : Int) (work : Nat → Run World β) : Run World β := do
  let w ← get
  match Place.get? w.kept place with
  | some h => work h
  | none => Run.fail (noItem place)

/-- Lets go of handles, in order. -/
def letGoAll : List Nat → Run World Unit
  | [] => pure ()
  | h :: rest => do
    onLoans (Loans.letGo h)
    letGoAll rest

/-- Lets go of all kept handles. -/
def dropKept : Run World Unit := do
  let w ← get
  set { w with kept := [] }
  letGoAll w.kept

/-! ### Actions -/

/-- Puts a value at the end of a list; the list is asked how to do that before there is a value. -/
def appendTo (list : Value) (value : Run World Value) : Run World Unit := do
  let w ← get
  let how ← Run.ofExcept (w.heap.attributeOf list "append")
  let v ← value
  let w ← get
  match list, w.heap.objectOf? list with
  | .object i, some (.list xs) => set { w with heap := w.heap.put i (.list (xs ++ [v])) }
  | _, _ => Run.fail (notCallable (w.heap.typeName how))

/-- Works with the current environment. -/
def withEnvironment (wanted : String) (work : Nat → Run World β) : Run World β := do
  let w ← get
  match w.current with
  | some e => work e
  | none => Run.fail (noEnvironment wanted)

/-- Unregisters a filter. -/
def eraseFilter (e : Nat) (name : String) : Run World Unit := do
  let w ← get
  if (w.environmentAt e).filters.contains name then
    set (w.changeEnvironment e fun e => { e with filters := e.filters.erase name })
  else Run.fail (noEntry name)

/-- How a body of actions ended, in words. -/
def outcomeText (body : Run World β) : Run World String :=
  Run.catching
    (do
      let _ ← body
      return "ok")
    fun e => return e.fault.kindName ++ ": " ++ e.fault.message

/-- The mode of a tag that is lent the context, or not. -/
def TagMode.ofLent (lent : Bool) : TagMode := if lent then context else plain

mutual

/-- Runs an action; gives a value if it ends the script. -/
def Action.run (render : TemplateRun) (c : Call) : Action → Run World (Option Value)
  | .give operand => do
    let v ← operand.value render c
    return some v
  | .set n operand => c.withHandle (noHandle "set") fun h => do
    let v ← operand.value render c
    onLoans (Loans.setName h n v)
    return none
  | .append list operand => do
    let l ← list.value render c
    appendTo l (operand.value render c)
    return none
  | .keep => c.withHandle (noHandle "keep") fun h => do
    onLoans (Loans.hold h)
    keepHandle h
    return none
  | .keepDuplicate => c.withHandle (noHandle "duplicate") fun h => do
    let other ← onLoans (Loans.duplicate h)
    keepHandle other
    return none
  | .dropKept => do
    Stencil.dropKept
    return none
  | .release => c.withHandle (noHandle "release") fun h => do
    onLoans (Loans.release h)
    return none
  | .releaseKept number => withKept number fun h => do
    onLoans (Loans.release h)
    return none
  | .setKept number n operand => withKept number fun h => do
    let v ← operand.value render c
    onLoans (Loans.setName h n v)
    return none
  | .raise fault => Run.fail fault
  | .attempt body n => do
    let text ← outcomeText (runActions render c body)
    c.withHandle (noHandle "set") fun h => onLoans (Loans.setName h n (.str text))
    return none
  | .pushFrame frame => c.withHandle (noHandle "lock") fun h => do
    let f ← buildFrame frame
    onLoans (Loans.locking h (Loans.pushFrame · f))
    return none
  | .popFrame => c.withHandle (noHandle "lock") fun h => do
    let _ ← onLoans (Loans.locking h Loans.popFrame)
    return none
  | .updateFrame frame => c.withHandle (noHandle "lock") fun h => do
    let f ← buildFrame frame
    onLoans (Loans.locking h fun context => modify (Loans.changeContext context (·.update f)))
    return none
  | .detach => c.withHandle (noHandle "cell") fun h => do
    let w ← get
    let _ ← onLoans (Loans.detach (w.loans.handleAt h).cell)
    return none
  | .holdLock => c.withHandle (noHandle "cell") fun h => do
    let w ← get
    onLoans (Loans.seize (w.loans.handleAt h).cell)
    return none
  | .registerTag n lent body => withEnvironment "register_tag" fun e => do
    let _ ← registerTag e n (.ofLent lent) body
    return none
  | .eraseFilter n => withEnvironment "filters" fun e => do
    Stencil.eraseFilter e n
    return none

/-- Runs actions in order until one ends the script. -/
def runActions (render : TemplateRun) (c : Call) : List Action → Run World (Option Value)
  | [] => pure none
  | a :: rest => do
    match ← a.run render c with
    | some v => return some v
    | none => runActions render c rest

end

/-- Runs a script. -/
def runScript (render : TemplateRun) (c : Call) (script : List Action) : Run World Value := do
  let v ← runActions render c script
  return v.getD .absent

/-! ### The host -/

/-- By how many items a list may grow while a loop runs over it. -/
def loopGrowth : Nat := 65536

/-- How many renders may be nested in one another by tags. -/
def renderDepth : Nat := 128

/-- The host of scripts whose tags render at most `depth` templates inside one another. -/
def scriptHost : (depth : Nat) → Host
  | 0 => ⟨fun _ _ _ _ => Run.unfinished, Filter.apply, CloneRule.apply, loopGrowth⟩
  | depth + 1 =>
    { call := fun script lent args named =>
        runScript (fun template ns => render (scriptHost depth) template [] ns)
          ⟨lent, args, named⟩ script
      filter := Filter.apply
      clone := CloneRule.apply
      growth := loopGrowth }

/-- The host of all scripts. -/
def standardHost : Host := scriptHost renderDepth

end Stencil
