/-
Stencil/Render/Setup.lean

Environments and templates made from their descriptions.  A description says
what is wanted in terms of data and scripts; to set it up builds the data,
registers the filters and then the tags, and reads the sources.
-/
import Stencil.Render.World

namespace Stencil

/-- The description of a tag. -/
structure TagPlan where
  name : String
  mode : TagMode
  body : TagBody

/-- The description of an environment. -/
structure EnvironmentPlan where
  strict : Bool
  globals : List (String × Datum)
  clone : CloneRule
  /-- Filters to register besides, under their own names. -/
  filters : List Filter
  tags : List TagPlan

/-- What is asked for when nothing is. -/
def EnvironmentPlan.plain : EnvironmentPlan := ⟨true, [], .deep, [], []⟩

/-- The description of a template: a source to read, or a tree with the source it is said to be
of; the constants of the tree are built once. -/
inductive TemplatePlan where
  | source (text : String) (name : Option String)
  | tree (tree : Tree Datum) (name source : Option String)

/-- Registers tags, in order. -/
def registerTags (environment : Nat) : List TagPlan → Run World Unit
  | [] => pure ()
  | t :: rest => do
    let _ ← registerTag environment t.name t.mode t.body
    registerTags environment rest

/-- Sets up an environment, which becomes the current one. -/
def setUpEnvironment (p : EnvironmentPlan) : Run World Nat := do
  let globals ← buildFrame p.globals
  let e ← addEnvironment
    { strict := p.strict
      globals
      clone := p.clone
      filters := Filter.builtin.setAll (p.filters.map fun f => (f.functionName, f))
      tags := .empty
      collected := false }
  registerTags e p.tags
  modify fun w => { w with current := some e }
  return e

/-- Sets up a template, which scripts can render from then on. -/
def setUpTemplate (environment : Nat) (p : TemplatePlan) : Run World Nat := do
  let t ←
    match p with
    | .source text name => readTemplate environment text name
    | .tree tree name source => do
      let tree ← tree.mapM build
      addTemplate ⟨environment, tree, name, source⟩
  modify fun w => { w with library := w.library ++ [t] }
  return t

/-- Sets up templates, in order. -/
def setUpTemplates (environment : Nat) : List TemplatePlan → Run World (List Nat)
  | [] => pure []
  | p :: rest => do
    let t ← setUpTemplate environment p
    let ts ← setUpTemplates environment rest
    return t :: ts

end Stencil
