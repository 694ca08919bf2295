/-
Stencil/Loan/Handle.lean

Handles.  A handle adds one to the count of its cell when it is made and takes
it off once: when it is released, or when the last who holds it lets go.

Every access goes through the lock of the cell and gives it back whatever
happens.  An access by a released handle is refused before the lock is asked
for; one to a cell without a context, after.
-/
import Stencil.Loan.Basic

namespace Stencil

/-- How long to wait for a lock: for ever, or for a time given as text. -/
inductive Patience where
  | forever
  | upTo (seconds : String)
  deriving DecidableEq, Repr

namespace Loans

variable {α β : Type}

/-! ### Faults -/

def handleReleased : Fault := .released "Context handle was released"

def cellConsumed : Fault := .consumed "Shared context was already reclaimed by the renderer"

def alreadyDetached : Fault := .consumed "Shared context was already reclaimed"

def lockTimeout (seconds : String) : Fault :=
  .lockTimeout ("Could not lock shared context within " ++ seconds ++ "s")

/-! ### Counting -/

/-- Makes a handle on a cell. -/
def addHandle (cell : Nat) : Run (Loans α) Nat := do
  let l ← get
  set (changeCell cell (fun c => { c with references := c.references + 1 })
    { l with handles := l.handles.add ⟨cell, false, 1⟩ })
  return l.handles.size

/-- Puts a context into a cell of its own and makes the first handle on it. -/
def wrap (c : Nat) : Run (Loans α) Nat := do
  let l ← get
  set { l with cells := l.cells.add ⟨some c, 0, false, false⟩ }
  addHandle l.cells.size

/-- Releases a handle, unless it is released already. -/
def release (h : Nat) : Run (Loans α) Unit := modify fun l =>
  if (l.handleAt h).released then l
  else changeCell (l.handleAt h).cell Cell.leave (changeHandle h ({ · with released := true }) l)

/-- One more holds a handle. -/
def hold (h : Nat) : Run (Loans α) Unit :=
  modify (changeHandle h fun r => { r with holders := r.holders + 1 })

/-- One less holds a handle; the last one releases it. -/
def letGo (h : Nat) : Run (Loans α) Unit := do
  modify (changeHandle h fun r => { r with holders := r.holders - 1 })
  let l ← get
  if (l.handleAt h).holders = 0 then release h else pure ()

/-- Refuses a released handle. -/
def requireLive (h : Nat) : Run (Loans α) Unit := do
  let l ← get
  if (l.handleAt h).released then Run.fail handleReleased else pure ()

/-- Another handle on the same cell. -/
def duplicate (h : Nat) : Run (Loans α) Nat := do
  requireLive h
  let l ← get
  addHandle (l.handleAt h).cell

/-! ### Locking -/

/-- Gives a lock back. -/
def unlock (cell : Nat) : Run (Loans α) Unit :=
  modify (changeCell cell ({ · with locked := false }))

/-- Takes the lock of a handle's cell; gives the number of the cell. -/
def acquire (h : Nat) (patience : Patience) : Run (Loans α) Nat := do
  requireLive h
  let l ← get
  let cell := (l.handleAt h).cell
  if (l.cellAt cell).locked then
    match patience with
    | .forever => Run.unfinished
    | .upTo seconds => Run.fail (lockTimeout seconds)
  else
    set (changeCell cell ({ · with locked := true }) l)
    return cell

/-- Takes a lock for good, whoever asks. -/
def seize (cell : Nat) : Run (Loans α) Unit := do
  let l ← get
  if (l.cellAt cell).locked then Run.unfinished
  else set (changeCell cell ({ · with locked := true }) l)

/-- The context in a cell whose lock is held. -/
def contextInside (cell : Nat) : Run (Loans α) Nat := do
  let l ← get
  match (l.cellAt cell).context with
  | some c => return c
  | none => Run.fail cellConsumed

/-- Takes the lock and gives the context, and keeps the lock if there is one. -/
def enter (h : Nat) (patience : Patience) : Run (Loans α) Nat := do
  let cell ← acquire h patience
  Run.catching (contextInside cell) fun e => do
    unlock cell
    Run.failWith e

/-- Works on the context of a handle while the lock is held. -/
def locking (h : Nat) (work : Nat → Run (Loans α) β) : Run (Loans α) β := do
  let cell ← acquire h .forever
  Run.ensuring
    (do
      let c ← contextInside cell
      work c)
    (unlock cell)

/-! ### Accesses -/

/-- The value of a name. -/
def lookup (h : Nat) (name : String) : Run (Loans α) α := locking h (lookupIn · name)

/-- The value of a name, or a default. -/
def getOr (h : Nat) (name : String) (default : α) : Run (Loans α) α :=
  locking h fun c => do
    let l ← get
    return (l.contextAt c).get name default

/-- Binds a name in the innermost frame. -/
def setName (h : Nat) (name : String) (value : α) : Run (Loans α) Unit :=
  locking h fun c => modify (changeContext c (·.set name value))

/-- The visible names. -/
def names (h : Nat) : Run (Loans α) (List Name) :=
  locking h fun c => do
    let l ← get
    return (l.contextAt c).names

/-- Whether a name is bound. -/
def contains (h : Nat) (name : String) : Run (Loans α) Bool :=
  locking h fun c => do
    let l ← get
    return (l.contextAt c).contains name

/-- The number of visible names. -/
def count (h : Nat) : Run (Loans α) Nat := do
  let ns ← names h
  return ns.length

/-! ### Cells -/

/-- Takes the context out of a cell for good. -/
def detach (cell : Nat) : Run (Loans α) Nat := do
  let l ← get
  match (l.cellAt cell).context with
  | some c =>
    set (changeCell cell (fun r => { r with context := none, consumed := true }) l)
    return c
  | none => Run.fail alreadyDetached

/-- A handle as text. -/
def listed (l : Loans α) (h : Nat) : String :=
  if (l.handleAt h).released then "<ContextHandle released>"
  else if (l.cellOf h).consumed then "<ContextHandle consumed>"
  else s!"<ContextHandle refs={(l.cellOf h).references}>"

end Loans

end Stencil
