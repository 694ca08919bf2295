/-
Stencil/Session/Lending.lean

Commands on handles, slots and the locks of cells.
-/
import Stencil.Session.Answer
import Stencil.Session.Command

namespace Stencil

/-! ### Waiting -/

namespace Patience

/-- The billionths of a second in a second. -/
def billion : Nat := Nat.pow 10 9

/-- How long to wait, by a time in billionths of a second, if it is not beyond all bounds: minus one
second stands for ever, and no other time is negative. -/
def ofBillionths (seconds : Except Fault String) : Option Int → Except Fault Patience
  | some n =>
    if !Place.fits n then .error tooLong
    else if n = -(billion : Int) then .ok forever
    else if n < 0 then .error (.valueError "timeout value must be positive")
    else seconds.map upTo
  | none => .error tooLong
where
  /-- The fault of a time that cannot be held. -/
  tooLong : Fault := .foreign "OverflowError" "timestamp too large to convert to C _PyTime_t"

/-- How long to wait, by a value.  A time with a fraction is rounded to billionths of a second, away
from zero. -/
def ofValue (h : Heap) (v : Value) : Except Fault Patience :=
  match v with
  | .atom (.float (.nan _)) => .error (.valueError "Invalid value NaN (not a number)")
  | .atom (.float x) => ofBillionths (h.text v) (x.times billion).awayFromZero?
  | .atom a =>
    match a.wholeNumber? with
    | some n => ofBillionths (h.text v) (some (n * billion))
    | none => .error (notWhole a.typeName)
  | _ => .error (notWhole (h.typeName v))
where
  /-- The fault of a time that is no number. -/
  notWhole (typeName : String) : Fault :=
    .typeError s!"'{typeName}' object cannot be interpreted as an integer"

end Patience

/-! ### Handles -/

/-- The fault of asking an item for what only handles have. -/
def HandleCommand.refusal (typeName : String) : HandleCommand → Fault
  | use => noBlock typeName
  | duplicate => missingAttribute typeName "duplicate"
  | another | detach | reclaim _ => missingAttribute typeName "cell"
  | release => missingAttribute typeName "release"
  | references => missingAttribute typeName "refcount"
  | released => missingAttribute typeName "released"
  | lock _ _ => missingAttribute typeName "lock"

namespace Session

/-- How long a command is ready to wait; a released handle is refused first. -/
def patienceOf (h : Nat) (timeout : Option Datum) : Run World Patience :=
  match timeout with
  | none => pure .forever
  | some d => do
    let v ← build d
    onLoans (Loans.requireLive h)
    let w ← get
    Run.ofExcept (Patience.ofValue w.heap v)

/-- Enters the lock of a handle.  Its context goes into the register that the step writes, and then
the lock into the register that guards it. -/
def enterLock (h : Nat) (timeout : Option Datum) (guard : String) (target : Option String) :
    Run Session Effect := do
  let (cell, c) ← inWorld do
    let patience ← patienceOf h timeout
    let c ← onLoans (Loans.enter h patience)
    onLoans (Loans.hold h)
    let w ← get
    return ((w.loans.handleAt h).cell, c)
  target.forM (store · (.context c))
  store guard (.lock h cell)
  return .nothing

/-- Runs a command on a handle. -/
def onHandle (clone : CloneRule → Clone) (i : Item) (target : Option String) (c : HandleCommand) :
    Run Session Effect :=
  match i with
  | .handle h =>
    match c with
    | .duplicate => do
      let n ← inLoans (Loans.duplicate h)
      return .make (.handle n)
    | .another => do
      let s ← get
      let n ← inLoans (Loans.addHandle (s.world.loans.handleAt h).cell)
      return .make (.handle n)
    | .release => do
      inLoans (Loans.release h)
      return .nothing
    | .references => do
      let s ← get
      return .say (.int (s.world.loans.cellOf h).references)
    | .released => do
      let s ← get
      return .say (.bool (s.world.loans.handleAt h).released)
    | .use => do
      inLoans (Loans.release h)
      return .say (.bool true)
    | .lock timeout guard => enterLock h timeout guard target
    | .detach => do
      let s ← get
      let n ← inLoans (Loans.detach (s.world.loans.handleAt h).cell)
      return .make (.context n)
    | .reclaim rule => do
      let (n, path) ← inWorld (Stencil.reclaim h (clone rule))
      return ⟨.text path.word, some (.context n)⟩
  | _ => Run.fail (c.refusal i.typeName)

/-! ### Leaving -/

/-- Leaves what was entered: gives a lock back, takes the frame of a scope off, releases a handle.
What cannot be entered cannot be left. -/
def leave (i : Item) : Run Session Unit :=
  match i with
  | .lock _ _ => inWorld (giveUp i)
  | .contextScope c => inLoans do
    let _ ← Loans.popFrame c
    pure ()
  | .slotScope n => inLoans do
    let l ← get
    let _ ← Loans.popFrame (l.slotAt n).context
    pure ()
  | .handle h => inLoans (Loans.release h)
  | _ => refuse i "__exit__"

/-- Leaves the item of a register, which is gone then even if that fails. -/
def leaveRegister (name : String) : Run Session Unit := do
  let i ← item name
  forget name
  Run.ensuring (leave i)
    (match i with
      | .handle _ => inWorld (giveUp i)
      | _ => pure ())

/-- Gives back the lock in a register. -/
def unlock (guard : String) : Run Session Effect := do
  leaveRegister guard
  return .nothing

/-- Leaves the scope in a register. -/
def closeScope (name : String) : Run Session Effect := do
  leaveRegister name
  return .say (.bool false)

/-! ### Slots -/

/-- The context that a register holds. -/
def contextIn (name : String) : Run Session Nat := do
  match ← item name with
  | .context c => return c
  | i => refuse i "frames"

/-- The tag that a register holds. -/
def tagIn (name : String) : Run Session TagDefinition := do
  match ← item name with
  | .tag t => return t
  | i => refuse i "mode"

/-- The slot that a register holds. -/
def slotIn (name : String) : Run Session Nat := do
  match ← item name with
  | .slot n => return n
  | i => refuse i "context"

end Session

/-- What a command on a slot would ask its item for. -/
def SlotCommand.wanted : SlotCommand → String
  | vacant => "vacant"
  | context => "context"
  | _ => "_context"

namespace Session

/-- Renders a tag in a slot.  A plain tag does not ask for the slot; a tag that is lent the context
does after the hand-over was counted. -/
def renderTagIn (host : Host) (i : Item) (t : TagDefinition) (args : List Datum)
    (named : List (String × Datum)) (rule : CloneRule) : Run Session Effect :=
  let withSlot (n : Nat) : Run Session Effect := inWorld do
    let vs ← buildAll args
    let ns ← buildNamed named
    let text ← Stencil.renderTag (.tag t) n (host.clone rule) fun body lent =>
      host.call body lent vs (.ofList ns)
    return .say (.text text)
  match i, t.mode with
  | .slot n, _ => withSlot n
  | _, .plain => withSlot 0
  | _, .context => do
    inWorld (modify (World.changeTally Tally.start))
    refuse i "_context"

/-- Runs a command on a slot. -/
def onSlot (host : Host) (i : Item) (c : SlotCommand) : Run Session Effect :=
  match i, c with
  | _, .renderTag name args named rule => do
    let t ← tagIn name
    renderTagIn host i t args named rule
  | .slot n, .vacant => do
    let s ← get
    return .say (.bool (s.world.loans.slotAt n).vacant)
  | .slot n, .context => do
    let s ← get
    return .make (.context (s.world.loans.slotAt n).context)
  | .slot n, .take => do
    let taken ← inLoans (Loans.take n)
    return .make (.context taken)
  | .slot n, .swapBack name => do
    let value ← contextIn name
    inLoans (Loans.swapBack n value)
    return .nothing
  | _, _ => refuse i c.wanted

/-! ### Scopes -/

/-- Opens a scope on a context, or on the context of a slot.  What the register held that the scope
is for is given up before the frame is there, so a scope in it is left as the innermost one. -/
def openScope (i : Item) (target : Option String) (bindings : List (String × Datum)) :
    Run Session Effect := do
  let frame ← inWorld (buildFrame bindings)
  match i with
  | .context c => do
    target.forM drop
    inLoans (Loans.pushFrame c frame)
    return ⟨.bool true, some (.contextScope c)⟩
  | .slot n => do
    target.forM drop
    let s ← get
    inLoans (Loans.pushFrame (s.world.loans.slotAt n).context frame)
    return ⟨.bool true, some (.slotScope n)⟩
  | _ => refuse i "scope"

end Session

end Stencil
