/-
Stencil/Environment.lean

Environments: what templates share.  An environment says whether undefined
names are faults, which names every render starts with, how values are copied,
and which filters and tags there are.

The tables of filters and tags are values: a change gives a new table, so a
render goes on with the one it started with.  A table of tags may hold a bare
filter by mistake; that shows when the tag is called.
-/
import Stencil.Filter
import Stencil.Scope.Name
import Stencil.Script
import Stencil.Tree
import Stencil.Value.Copy

namespace Stencil

/-- A registered tag. -/
structure TagDefinition where
  name : String
  body : List Action
  mode : TagMode

/-- What the table of tags may hold. -/
inductive TagEntry where
  | tag (t : TagDefinition)
  | filter (f : Filter)

/-- What templates share. -/
structure Environment where
  strict : Bool
  globals : Frame Value
  clone : CloneRule
  filters : Bindings String Filter
  tags : Bindings String TagEntry
  /-- Whether it is gone, because nothing refers to it any more. -/
  collected : Bool

instance : Inhabited Environment := ⟨⟨true, .empty, .deep, .empty, .empty, false⟩⟩

/-- A template, bound to an environment. -/
structure Template where
  environment : Nat
  tree : Tree Value
  name : Option String
  source : Option String

instance : Inhabited Template := ⟨⟨0, ⟨.start, []⟩, none, none⟩⟩

/-- A template in a listing. -/
def Template.listed (t : Template) : String :=
  "<Template " ++ (filled? t.name).getD "(inline)" ++ ">"

/-! ### Tables by name -/

namespace Bindings

variable {α : Type}

/-- Texts in code point order. -/
def sortedTexts (texts : List String) : List String := texts.mergeSort fun a b => !(b < a)

/-- A table in a listing: what it is, and the names in it in order. -/
def listed (b : Bindings String α) (what : String) : String :=
  s!"<Registry {what} [" ++ ", ".intercalate ((sortedTexts b.keys).map Text.quote) ++ "]>"

/-- The first entry, and the table without it. -/
def takeFirst? (b : Bindings String α) : Option ((String × α) × Bindings String α) :=
  match b.entries with
  | [] => none
  | e :: rest => some (e, ⟨rest⟩)

end Bindings

end Stencil
