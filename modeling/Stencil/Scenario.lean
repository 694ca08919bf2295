/-
Stencil/Scenario.lean

Scenarios: an environment, some templates and the values that the first of
them is rendered with.  The first template is rendered with a base frame made
of values, or with a context whose frames are given one by one; this may
happen inside a render that is under way already and whose counts it shares.

A scenario that cannot be set up is refused.  Otherwise the account of it says
how the render ended, and what is left of it.
-/
import Stencil.Render.Setup
import Stencil.Render.Status
import Stencil.Script.Run

namespace Stencil

/-- What a template is rendered with. -/
inductive Occasion where
  /-- Positional and named values. -/
  | values (args : List Datum) (named : List (String × Datum))
  /-- The frames of a context, the base first. -/
  | frames (frames : List (List (String × Datum)))

/-- A render to be tried out. -/
structure Scenario where
  environment : EnvironmentPlan
  templates : List TemplatePlan
  occasion : Occasion
  /-- The name of the template whose render is under way already, if there is one. -/
  outer : Option String
  shared : List Datum

/-- What there is to say of a scenario that ran. -/
structure Account where
  outcome : Except Stop String
  /-- The counts of the outer render, and the number of tag calls under way in it. -/
  outer : Option (Tally × Nat)
  slot : Option SlotStatus
  kept : List HandleStatus
  noted : List String
  records : List Record

/-- What comes of a scenario. -/
inductive Verdict where
  | refused (stop : Stop)
  | ran (account : Account)

/-! ### Setting up -/

/-- A render that was set up: the template, the slot if there is one, and the values. -/
structure Attempt where
  template : Nat
  slot : Option Nat
  args : List Value
  named : List (String × Value)

/-- Builds what a template is rendered with. -/
def Occasion.attempt (template : Nat) : Occasion → Run World Attempt
  | values args named => do
    let vs ← buildAll args
    let ns ← buildNamed named
    return ⟨template, none, vs, ns⟩
  | frames fs => do
    let built ← buildFrames fs
    let slot ← onLoans (do
      let c ← Loans.addFrames built
      Loans.addSlot c)
    return ⟨template, some slot, [], []⟩

/-- Builds the values that data can point to. -/
def share (shared : List Datum) : Run World Unit := do
  let vs ← onHeap (Datum.buildShared [] shared)
  modify fun w => { w with shared := vs }

/-- Begins the outer render. -/
def beginOuter (name : String) : Run World Unit :=
  modify fun w =>
    { w with
      renderings := [⟨some name, none, 0, 0, w.tallies.size⟩]
      tallies := w.tallies.add .zero }

/-- Sets up a scenario. -/
def Scenario.setUp (s : Scenario) : Run World Attempt := do
  share s.shared
  let e ← setUpEnvironment s.environment
  let ts ← setUpTemplates e s.templates
  match ts with
  | [] => Run.fail (noItem 0)
  | first :: _ => do
    let a ← s.occasion.attempt first
    s.outer.forM beginOuter
    return a

/-! ### Running -/

/-- Renders what was set up. -/
def Attempt.run (host : Host) (a : Attempt) : Run World String :=
  match a.slot with
  | some slot => renderSlot host a.template slot
  | none => render host a.template a.args a.named

/-- The counts of the outer render, and the number of tag calls under way in it. -/
def World.outer? (w : World) : Option (Tally × Nat) :=
  w.rendering?.map fun r => (w.tallyAt r.tally, r.tagDepth)

/-- Runs a scenario. -/
def Scenario.run (host : Host) (s : Scenario) : Verdict :=
  match s.setUp.exec .empty with
  | (.error stop, _) => .refused stop
  | (.ok a, w) =>
    let (outcome, w) := (a.run host).exec w
    .ran
      { outcome
        outer := w.outer?
        slot := a.slot.map w.slotStatus
        kept := w.kept.map w.handleStatus
        noted := w.noted
        records := w.records }

end Stencil
