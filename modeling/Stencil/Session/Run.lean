/-
Stencil/Session/Run.lean

Running sessions.  A step is left out when a register that it needs is not
there.  Otherwise the report of it holds what the command answered or how it
failed, and the states of the two registers it names, as they are afterwards.
-/
import Stencil.Session.Naming
import Stencil.Session.Registry

namespace Stencil

/-! ### Renders under way -/

/-- The answer that tells of the innermost render. -/
def sayRendering (w : World) (r : Rendering) : Answer := .rendering r (w.tallyAt r.tally)

/-- Runs a command on the renders under way. -/
def RenderingCommand.run : RenderingCommand → Run World Effect
  | enter templateName source share => do
    let w ← get
    match share, w.rendering? with
    | true, some r => do
      set { w with renderings := ⟨templateName, source, 0, 0, r.tally⟩ :: w.renderings }
      return .nothing
    | true, none => Run.fail (missingAttribute Item.nothing.typeName "handoff")
    | false, _ => do
      set { w with
        renderings := ⟨templateName, source, 0, 0, w.tallies.size⟩ :: w.renderings
        tallies := w.tallies.add .zero }
      return .nothing
  | leave => do
    let w ← get
    match w.renderings with
    | [] => Run.fail (.foreign "IndexError" "pop from empty list")
    | _ :: rest => do
      set { w with renderings := rest }
      return .nothing
  | status => do
    let w ← get
    return .say ((w.rendering?.map (sayRendering w)).getD .nothing)
  | required => do
    let w ← get
    match w.rendering? with
    | some r => return .say (sayRendering w r)
    | none => Run.fail notRendering
  | setLine line => do
    let w ← get
    match w.rendering? with
    | some _ => do
      set (w.changeRendering fun r => { r with line })
      return .nothing
    | none => Run.fail notRendering
  | tally paths => do
    let known ← Run.ofExcept (paths.mapM pathOf)
    return .say (.tally (known.foldl Tally.record .zero))
where
  /-- The way back that a word stands for. -/
  pathOf (word : String) : Except Fault ReclaimPath :=
    match [ReclaimPath.unique, .deepCopy].find? (·.word == word) with
    | some path => .ok path
    | none => .error (.valueError (Text.quote word ++ " is not a valid ReclaimPath"))

namespace Session

/-! ### Commands -/

/-- Takes a handle out of those that tags kept. -/
def takeKept (place : Int) : Run World Effect := do
  let w ← get
  match Place.ofInt? w.kept.length place, Place.get? w.kept place with
  | some i, some h => do
    set { w with kept := w.kept.eraseIdx i }
    return .make (.handle h)
  | _, _ => Run.fail (Place.nothingToTake w.kept place)

/-- Works on the item of the register that a step names. -/
def onRegister (s : Step) (work : String → Item → Run Session Effect) : Run Session Effect := do
  match s.on with
  | some name => do
    let i ← item name
    work name i
  | none => work "" .nothing

/-- Runs the command of a step. -/
def runCommand (host : Host) (s : Step) : Run Session Effect :=
  match s.command with
  | .newContext base => inWorld do
    let frame ← buildFrame base
    let c ← onLoans (Loans.addContext (.ofBase frame))
    return .make (.context c)
  | .contextOfFrames frames => inWorld do
    let fs ← buildFrames frames
    let c ← onLoans (Loans.addFrames fs)
    return .make (.context c)
  | .newSlot none => inLoans do
    let c ← Loans.addContext .empty
    let n ← Loans.addSlot c
    return .make (.slot n)
  | .newSlot (some name) => do
    let c ← contextIn name
    let n ← inLoans (Loans.addSlot c)
    return .make (.slot n)
  | .newEnvironment plan => do
    let e ← inWorld (setUpEnvironment plan)
    return .make (.environment e)
  | .defineTag t => do
    let d ← inWorld (Stencil.defineTag t.name t.mode t.body)
    return ⟨.entry (.tag d), some (.tag d)⟩
  | .takeKept place => inWorld (takeKept place)
  | .drop name => do
    drop name
    return .nothing
  | .unlock guard => unlock guard
  | .openScope bindings => onRegister s fun _ i => openScope i s.target bindings
  | .closeScope name => closeScope name
  | .onItem c => onRegister s fun name i => onItem name i c
  | .onNames c => onRegister s fun _ i => onNames i c
  | .onContext c => onRegister s fun _ i => onContext host.clone i c
  | .onHandle c => onRegister s fun _ i => onHandle host.clone i s.target c
  | .onSlot c => onRegister s fun _ i => onSlot host i c
  | .onEnvironment c => onRegister s fun _ i => onEnvironment i c
  | .onTemplate c => onRegister s fun _ i => onTemplate host i c
  | .onRendering c => inWorld c.run

/-- Puts the item that a command made into the register that its step writes, if there is one. -/
def keepMade (target : Option String) : Option Item → Run Session Unit
  | none => pure ()
  | some i =>
    match target with
    | some name => store name i
    | none => inWorld (giveUp i)

/-- Runs a step whose registers are all there. -/
def runStep (host : Host) (s : Step) : Run Session Answer := do
  let e ← runCommand host s
  keepMade s.target e.made
  return e.answer

end Session

/-! ### Reports -/

/-- The report of a step that was run. -/
structure StepReport where
  outcome : Except Stop Answer
  /-- The states of the register it worked on, and of the one it wrote. -/
  on : Option ItemStatus
  target : Option ItemStatus
  noted : List String
  records : List Record

/-- What comes of a step. -/
inductive StepResult where
  | leftOut
  | ran (report : StepReport)

namespace Session

/-- Whether all registers that a step needs are there. -/
def canRun (s : Session) (step : Step) : Bool := step.needs.all s.registers.contains

/-- A session before a step: what was noted and recorded belongs to the steps before. -/
def fresh (s : Session) : Session := { s with world := { s.world with noted := [], records := [] } }

/-- Takes a step. -/
def advance (host : Host) (s : Session) (step : Step) : StepResult × Session :=
  let s := s.fresh
  if s.canRun step then
    let (outcome, s) := (runStep host step).exec s
    let s := s.collect
    (.ran
      { outcome
        on := s.status? step.on
        target := s.status? step.target
        noted := s.world.noted
        records := s.world.records }, s)
  else (.leftOut, s)

/-- Takes steps, in order. -/
def advanceAll (host : Host) : Session → List Step → List StepResult
  | _, [] => []
  | s, step :: rest =>
    let (r, s) := s.advance host step
    r :: advanceAll host s rest

/-- Takes steps from the beginning; data in them can point to the shared values. -/
def run (host : Host) (shared : List Datum) (steps : List Step) : Except Stop (List StepResult) :=
  let start : Run Session Unit := inWorld do
    let vs ← onHeap (Datum.buildShared [] shared)
    modify fun w => { w with shared := vs }
  match start.exec .empty with
  | (.ok _, s) => .ok (s.advanceAll host steps)
  | (.error e, _) => .error e

end Session

end Stencil
