/-
Stencil/Session/Registry.lean

Commands on environments and templates.  A command on a table gives a new
table; the table it was given stays as it was, for the renders that began with
it.
-/
import Stencil.Session.Lending

namespace Stencil

variable {α : Type}

/-! ### Tables of names -/

namespace RegistryCommand

/-- The entry of a name, which must be there. -/
def entryOf (b : Bindings String α) (name : String) : Run World α :=
  Run.ofExcept ((b.get? name).elim (.error (noEntry name)) .ok)

/-- Runs a command on a table: its answer, and the table as it is then.  `ofFilter` says what a
filter is as an entry of the table, `seen` how an entry is seen. -/
def run (what : String) (ofFilter : Filter → α) (seen : α → TagEntry) (b : Bindings String α) :
    RegistryCommand → Run World (Answer × Bindings String α)
  | get name => pure ((b.get? name).elim .nothing fun e => .entry (seen e), b)
  | item name => do
    let e ← entryOf b name
    return (.entry (seen e), b)
  | setItem name f => pure (.nothing, b.set name (ofFilter f))
  | erase name => do
    let _ ← entryOf b name
    return (.nothing, b.erase name)
  | pop name default => do
    match b.get? name, default with
    | some e, _ => return (.entry (seen e), b.erase name)
    | none, none => Run.fail (noEntry name)
    | none, some d => do
      let v ← build d
      let w ← MonadState.get
      return (.view (w.heap.view v), b)
  | popFirst =>
    match b.takeFirst? with
    | some ((name, e), rest) => pure (.named name (seen e), rest)
    | none => Run.fail (.keyError "")
  | setDefault name f =>
    match b.get? name with
    | some e => pure (.entry (seen e), b)
    | none => pure (.entry (.filter f), b.set name (ofFilter f))
  | clear => pure (.nothing, .empty)
  | contains name => pure (.bool (b.contains name), b)
  | size => pure (.int b.size, b)
  | listed => pure (.text (b.listed what), b)
  | names => pure (.texts b.keys, b)
  | copy => pure (.entries (b.entries.map fun e => (e.1, seen e.2)), b)
  | update entries => pure (.nothing, b.setAll (entries.map fun e => (e.1, ofFilter e.2)))

end RegistryCommand

/-- Runs a command on a table of an environment. -/
def runRegistry (e : Nat) (table : RegistryTable) (c : RegistryCommand) : Run World Answer := do
  let w ← get
  match table with
  | .tags => do
    let (a, tags) ← c.run "tags" .filter id (w.environmentAt e).tags
    modify (World.changeEnvironment e fun r => { r with tags })
    return a
  | .filters => do
    let (a, filters) ← c.run "filters" id .filter (w.environmentAt e).filters
    modify (World.changeEnvironment e fun r => { r with filters })
    return a

/-! ### Environments -/

/-- Registers a filter. -/
def addFilter (e : Nat) (name : String) (f : Filter) : Run World Unit :=
  modify (World.changeEnvironment e fun r => { r with filters := r.filters.set name f })

/-- Registers a tag under a name or, without one, under the name of its function; a value that
cannot be called has none. -/
def nameTag (e : Nat) (t : TagPlan) (name : Option String) : Run World Unit := do
  match filled? name, t.body with
  | none, .value d => do
    let v ← build d
    let w ← get
    Run.fail (missingAttribute (w.heap.typeName v) "__name__")
  | name, body => do
    let _ ← registerTag e (name.getD t.name) t.mode body
    pure ()

/-- Runs a command on an environment. -/
def EnvironmentCommand.run (e : Nat) : EnvironmentCommand → Run World Effect
  | .registerTag t => do
    let d ← Stencil.registerTag e t.name t.mode t.body
    return .say (.entry (.tag d))
  | .nameTag t name => do
    Stencil.nameTag e t name
    return .say (.bool true)
  | .addFilter name f => do
    Stencil.addFilter e name f
    return .nothing
  | .nameFilter f name => do
    Stencil.addFilter e ((filled? name).getD f.functionName) f
    return .say (.bool true)
  | .template source name => do
    let t ← setUpTemplate e (.source source name)
    return .make (.template t)
  | .registry table c => do
    let a ← runRegistry e table c
    return .say a

/-- What a command on an environment would ask its item for. -/
def EnvironmentCommand.wanted : EnvironmentCommand → String
  | .registerTag _ => "register_tag"
  | .nameTag _ _ => "tag"
  | .addFilter _ _ => "add_filter"
  | .nameFilter _ _ => "filter"
  | .template _ _ => "from_string"
  | .registry .tags _ => "tags"
  | .registry .filters _ => "filters"

namespace Session

/-- Runs a command on an environment. -/
def onEnvironment (i : Item) (c : EnvironmentCommand) : Run Session Effect :=
  match i with
  | .environment e => inWorld (c.run e)
  | _ => refuse i c.wanted

/-! ### Templates -/

/-- Runs a command on a template. -/
def onTemplate (host : Host) (i : Item) (c : TemplateCommand) : Run Session Effect :=
  match i with
  | .template t =>
    match c with
    | .info => do
      let s ← get
      return .say (.template (s.world.templateAt t))
    | .render args named _ => inWorld do
      let vs ← buildAll args
      let ns ← buildNamed named
      let text ← Stencil.render host t vs ns
      return .say (.text text)
    | .renderSlot name => do
      let slot ← slotIn name
      let text ← inWorld (Stencil.renderSlot host t slot)
      return .say (.text text)
  | _ =>
    match i, c with
    | .tag _, .info => refuse i "source"
    | _, .info => refuse i "name"
    | _, .render _ _ true => refuse i "render_async"
    | _, .render _ _ false => refuse i "render"
    | _, .renderSlot _ => refuse i "render_slot"

end Session

end Stencil
