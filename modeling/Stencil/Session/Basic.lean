/-
Stencil/Session/Basic.lean

Sessions: the engine worked by hand.  Named registers hold contexts, slots,
handles and the like, and commands work on what the registers hold.

A register owns what it holds.  When it is overwritten or dropped, a handle in
it is let go, a lock that is still held is given back, and a scope that is
still open is left.  To leave a lock or a scope by a command removes its
register too.  Where no register is named there is nothing to work on;
that is an item too, which refuses what any other would be asked for.  An
environment that no register holds, and that is not the current one, is gone for
good.
-/
import Stencil.Render.Setup
import Stencil.Render.Status
import Stencil.Script.Run

namespace Stencil

variable {β : Type}

/-- What a register holds. -/
inductive Item where
  /-- What there is without a register. -/
  | nothing
  | context (number : Nat)
  | slot (number : Nat)
  | handle (number : Nat)
  /-- The lock of a cell, entered through a handle. -/
  | lock (handle cell : Nat)
  /-- A scope that was opened on a context. -/
  | contextScope (context : Nat)
  /-- A scope that was opened on the context of a slot. -/
  | slotScope (slot : Nat)
  | tag (t : TagDefinition)
  | environment (number : Nat)
  | template (number : Nat)

/-- The name of an item's type. -/
def Item.typeName : Item → String
  | nothing => "NoneType"
  | context _ => "Context"
  | slot _ => "ContextSlot"
  | handle _ => "ContextHandle"
  | lock _ _ | contextScope _ | slotScope _ => "_GeneratorContextManager"
  | tag _ => "TagDefinition"
  | environment _ => "Environment"
  | template _ => "Template"

/-- A session: the world it works in, and its registers. -/
structure Session where
  world : World
  registers : Bindings String Item

namespace Session

/-- The session in which nothing has happened. -/
def empty : Session := ⟨.empty, .empty⟩

instance : Inhabited Session := ⟨empty⟩

/-- A run in the world of a session. -/
def inWorld (act : Run World β) : Run Session β :=
  Run.within Session.world (fun world s => { s with world }) act

/-- A run on the contexts on loan. -/
def inLoans (act : Run (Loans Value) β) : Run Session β := inWorld (onLoans act)

/-! ### Registers -/

/-- The fault of a name that no register has. -/
def noRegister (name : String) : Fault := .keyError (Text.quote name)

/-- What a register holds. -/
def item (name : String) : Run Session Item := do
  let s ← get
  Run.ofExcept ((s.registers.get? name).elim (.error (noRegister name)) .ok)

/-- Refuses to ask an item for something that items of its kind do not have. -/
def refuse (i : Item) (wanted : String) : Run Session β :=
  Run.fail (missingAttribute i.typeName wanted)

/-- Leaves a scope that was forgotten; that it cannot be left does not matter. -/
def leaveQuietly (context : Nat) : Run World Unit :=
  Run.catching
    (do
      let _ ← onLoans (Loans.popFrame context)
      pure ())
    fun _ => pure ()

/-- Gives up an item. -/
def giveUp : Item → Run World Unit
  | .handle h => onLoans (Loans.letGo h)
  | .lock h cell => onLoans do
    Loans.unlock cell
    Loans.letGo h
  | .contextScope c => leaveQuietly c
  | .slotScope s => do
    let w ← get
    leaveQuietly (w.loans.slotAt s).context
  | _ => pure ()

/-- Gives up what a register held before. -/
def giveUpOld : Option Item → Run Session Unit
  | some i => inWorld (giveUp i)
  | none => pure ()

/-- Puts an item into a register. -/
def store (name : String) (i : Item) : Run Session Unit := do
  let s ← get
  set { s with registers := s.registers.set name i }
  giveUpOld (s.registers.get? name)

/-- Removes a register. -/
def drop (name : String) : Run Session Unit := do
  let s ← get
  set { s with registers := s.registers.erase name }
  giveUpOld (s.registers.get? name)

/-- Removes a register and leaves its item alone. -/
def forget (name : String) : Run Session Unit :=
  modify fun s => { s with registers := s.registers.erase name }

/-! ### Environments -/

/-- Whether a register holds an environment. -/
def holdsEnvironment (s : Session) (e : Nat) : Bool :=
  s.registers.entries.any fun r =>
    match r.2 with
    | .environment n => n == e
    | _ => false

/-- Marks an environment as gone unless something refers to it. -/
def collectOne (s : Session) (e : Nat) : Session :=
  if s.world.current == some e || s.holdsEnvironment e then s
  else { s with world := s.world.changeEnvironment e fun r => { r with collected := true } }

/-- Marks the environments as gone that nothing refers to. -/
def collect (s : Session) : Session :=
  (List.range s.world.environments.size).foldl collectOne s

/-! ### What can be seen -/

end Session

/-- The state of a register's item, for the kinds of items that have one. -/
inductive ItemStatus where
  | context (frames : FrameViews)
  | slot (status : SlotStatus)
  | handle (status : HandleStatus)

/-- The state of an item. -/
def World.itemStatus? (w : World) : Item → Option ItemStatus
  | .context c => some (.context (w.framesOf (w.loans.contextAt c)))
  | .slot s => some (.slot (w.slotStatus s))
  | .handle h => some (.handle (w.handleStatus h))
  | _ => none

/-- The state of the item of a register. -/
def Session.status? (s : Session) (name : Option String) : Option ItemStatus := do
  let i ← s.registers.get? (← name)
  s.world.itemStatus? i

end Stencil
