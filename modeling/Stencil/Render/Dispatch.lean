/-
Stencil/Render/Dispatch.lean

Calling a tag.  A plain tag gets its arguments and nothing else.  A context tag
is lent the context of the slot, in this order:

    take it out of the slot, put it into a cell, give the tag a handle,
    get it back, put it into the slot.

The last two steps are taken whatever the tag does, so a tag that fails still
leaves the slot with a real context, as far as the tag got with it.  Even when
getting it back fails the slot is refilled with the shared context itself, if
the cell still has it.

A tag gives its handle back when it returns or fails.  Only one that is cut
short, by a fault that nothing may catch, still has it when the context is got
back.

A fault of a tag goes on as it is when it belongs to the family of template
faults; any other that may be caught is reported as the failure of the tag.
-/
import Stencil.Render.Reclaim

namespace Stencil

/-- Enters a tag call. -/
def deeper : Run World Unit :=
  modify (World.changeRendering fun r => { r with tagDepth := r.tagDepth + 1 })

/-- Leaves a tag call. -/
def shallower : Run World Unit :=
  modify (World.changeRendering fun r => { r with tagDepth := r.tagDepth - 1 })

/-- The report of a failure at the innermost render's place. -/
def World.reportHere (w : World) : Report :=
  { Report.plain "" with
    templateName := w.rendering?.bind (·.templateName)
    line := w.rendering?.map (·.line) }

/-- Calls the body of a tag and reports its faults. -/
def callTag (name : String) (body : Run World Value) : Run World Value :=
  Run.catching body fun e =>
    if e.fault.ofTemplates then Run.failWith e
    else do
      writeRecord (.raised name e.fault.kindName e.fault.message)
      let w ← get
      Run.failWith (.because (.ofTag name e.fault w.reportHere) e)

/-- Gets the context back into its slot. -/
def restore (slot handle : Nat) (clone : Clone) : Run World ReclaimPath := do
  let (c, path) ← Run.mending (reclaim handle clone)
    (do
      let w ← get
      match (w.loans.cellOf handle).context with
      | some shared => onLoans (Loans.swapBack slot shared)
      | none => pure ())
  onLoans (Loans.swapBack slot c)
  return path

/-- Runs the body of a tag with the handle it was lent, which it gives back at the end, unless it is
cut short. -/
def giveBack (lent : Nat) (body : Run World Value) : Run World Value := do
  let r ← Run.outcome body
  if cutShort r then pure () else onLoans (Loans.letGo lent)
  Run.resume r

/-- Lends the context of a slot to a body by a handle of its own, and gets it back. -/
def lend (name : String) (slot : Nat) (clone : Clone) (body : Nat → Run World Value) :
    Run World Value := do
  modify (World.changeTally Tally.start)
  let c ← onLoans (Loans.take slot)
  let own ← onLoans (Loans.wrap c)
  let lent ← onLoans (Loans.duplicate own)
  let result ← Run.outcome (callTag name (giveBack lent (body lent)))
  let back ← Run.outcome (do
    let path ← restore slot own clone
    writeRecord (.returned name path))
  if cutShort result then onLoans (Loans.letGo lent) else pure ()
  onLoans (Loans.letGo own)
  Run.resume back
  Run.resume result

/-- The fault of calling a bare filter as a tag. -/
def noMode : Fault := missingAttribute "function" "mode"

/-- The text of a tag's result; nothing stands for absence. -/
def foldResult (v : Value) : Run World String := do
  let w ← get
  Run.ofExcept (w.heap.printed v)

/-- The text of a tag call.  `call` runs the body of a tag, with a handle for a context tag. -/
def renderTag (entry : TagEntry) (slot : Nat) (clone : Clone)
    (call : List Action → Option Nat → Run World Value) : Run World String := do
  deeper
  let result ← Run.ensuring
    (match entry with
      | .filter _ => Run.fail noMode
      | .tag t =>
        match t.mode with
        | .plain => callTag t.name (call t.body none)
        | .context => lend t.name slot clone fun lent => call t.body (some lent))
    shallower
  foldResult result

end Stencil
