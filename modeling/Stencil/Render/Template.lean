/-
Stencil/Render/Template.lean

Rendering templates.  A render reads its environment once, at the beginning.
It shares the counts of hand-overs and the depth of tag calls with the render
it is part of, if there is one.

What leaves a render is a template fault, the broken hand-over, or a fault
that stops everything.  Any other fault that may be caught is reported with
the place of the node that was being rendered.
-/
import Stencil.Render.Body

namespace Stencil

/-- The fault of using an environment that is gone. -/
def environmentGone (t : Template) : Fault :=
  .runtimeError
    ("Environment has been garbage collected (template: " ++ (filled? t.name).getD "unknown" ++ ")")

/-- The environment of a template. -/
def environmentOf (t : Template) : Run World Environment := do
  let w ← get
  let e := w.environmentAt t.environment
  if e.collected then Run.fail (environmentGone t) else pure e

/-- Begins a render of a template. -/
def beginRendering (t : Template) : Run World Unit := modify fun w =>
  match w.renderings with
  | [] =>
    { w with
      renderings := [⟨t.name, t.source, 0, 0, w.tallies.size⟩]
      tallies := w.tallies.add .zero }
  | parent :: _ =>
    { w with renderings := ⟨t.name, t.source, 0, parent.tagDepth, parent.tally⟩ :: w.renderings }

/-- Ends the innermost render. -/
def endRendering : Run World Unit := modify fun w => { w with renderings := w.renderings.tail }

/-- The report of a fault that is none of templates. -/
def enhanced (t : Template) (r : Option Rendering) (f : Fault) : Fault :=
  .failed
    { Report.plain (f.kindName ++ ": " ++ f.detail (f.kindName ++ " (no details available)")) with
      templateName := t.name
      line := r.map (·.line)
      snippet := r.bind fun r => Rendering.snippet? { r with source := t.source } }

/-- Reports the faults that are none of templates. -/
def converting (t : Template) (act : Run World String) : Run World String :=
  Run.catching act fun e =>
    match e.fault with
    | .invariant _ => Run.failWith e
    | f =>
      if f.ofTemplates then Run.failWith e
      else do
        let w ← get
        Run.failWith (.because (enhanced t w.rendering? f) e)

/-- The text of a template, rendered with the context of a slot. -/
def renderSlot (host : Host) (template slot : Nat) : Run World String := do
  let w ← get
  let t := w.templateAt template
  beginRendering t
  Run.ensuring
    (do
      let e ← environmentOf t
      converting t (renderNodes host ⟨slot, e.strict, e.clone, e.filters, e.tags⟩ t.tree.body))
    endRendering

/-! ### Rendering with values -/

/-- The complaint about positional arguments. -/
def notOneDictionary (given : Nat) : Fault :=
  .typeError s!"render() takes at most 1 positional argument (a dict), got {given}"

/-- The frame of a dictionary's entries. -/
def dictionaryFrame (entries : List (Value × Value)) : Frame Value :=
  .ofList (entries.map fun e => (.ofValue e.1, e.2))

/-- The base frame of a render: what is global, then a dictionary, then named values. -/
def baseFrame (globals : Frame Value) (args : List Value) (named : List (String × Value)) :
    Run World (Frame Value) := do
  let w ← get
  match args with
  | [] => pure (globals.update (Frame.ofNamed named))
  | [v] =>
    match w.heap.objectOf? v with
    | some (.dict es) =>
      pure ((globals.update (dictionaryFrame es)).update (Frame.ofNamed named))
    | _ => Run.fail (notOneDictionary 1)
  | _ => Run.fail (notOneDictionary args.length)

/-- The text of a template, rendered with values. -/
def render (host : Host) (template : Nat) (args : List Value) (named : List (String × Value)) :
    Run World String := do
  let w ← get
  let e ← environmentOf (w.templateAt template)
  let base ← baseFrame e.globals args named
  let slot ← onLoans (do
    let c ← Loans.addContext (.ofBase base)
    Loans.addSlot c)
  renderSlot host template slot

end Stencil
