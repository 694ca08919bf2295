/-
Stencil/Fault/Signature.lean

What the faults of templates are built with.  Most details may be given by
their place or by their name, some by their name only.  A fault is not built
when a detail is given that it does not have, or twice, or when one is missing
that it cannot do without.

Names are looked at first, then the number of places, then what is missing.
-/
import Stencil.Fault

namespace Stencil

/-- What a kind of fault is built with. -/
structure Signature where
  kind : String
  required : List String
  optional : List String
  /-- Details that are given by name only. -/
  byName : List String
  /-- Whether details of other names are collected. -/
  collects : Bool

/-- Details by their names, and those that were collected besides. -/
structure Details (α : Type) where
  known : List (String × α)
  others : List (String × α)

namespace Signature

variable {α : Type}

/-- The details that have a place. -/
def places (s : Signature) : List String := s.required ++ s.optional

/-! ### Complaints -/

/-- A complaint about how a fault was to be built. -/
def complaint (s : Signature) (text : String) : Fault :=
  .typeError (s.kind ++ ".__init__() " ++ text)

/-- A plural ending, unless there is one of something. -/
def ending (n : Nat) : String := if n = 1 then "" else "s"

/-- Quoted names in a sentence. -/
def enumerated : List String → String
  | [] => ""
  | [a] => "'" ++ a ++ "'"
  | [a, b] => "'" ++ a ++ "' and '" ++ b ++ "'"
  | a :: b :: c :: rest =>
    let all := a :: b :: c :: rest
    ", ".intercalate (all.dropLast.map fun n => "'" ++ n ++ "'") ++ ", and '" ++
      all.getLastD "" ++ "'"

/-- The fault itself takes a place too. -/
def tooMany (s : Signature) (given byName : Nat) : Fault :=
  let most := s.places.length + 1
  let (range, plural) :=
    if s.optional.isEmpty then (toString most, ending most)
    else (s!"from {s.required.length + 1} to {most}", "s")
  let also :=
    if byName = 0 then ""
    else s!" positional argument{ending given} (and {byName} keyword-only argument{ending byName})"
  s.complaint s!"takes {range} positional argument{plural} but {given}{also} were given"

def missing (s : Signature) (names : List String) : Fault :=
  s.complaint (s!"missing {names.length} required positional argument{ending names.length}: " ++
    enumerated names)

def repeated (s : Signature) (name : String) : Fault :=
  s.complaint ("got multiple values for argument '" ++ name ++ "'")

def unexpected (s : Signature) (name : String) : Fault :=
  s.complaint ("got an unexpected keyword argument '" ++ name ++ "'")

/-! ### Filling -/

/-- Adds details that are given by name. -/
def enter (s : Signature) (d : Details α) : List (String × α) → Except Fault (Details α)
  | [] => .ok d
  | (name, a) :: rest =>
    if name = "self" ∨ (d.known.lookup name).isSome then .error (s.repeated name)
    else if name ∈ s.places ++ s.byName then
      enter s { d with known := d.known ++ [(name, a)] } rest
    else if s.collects then enter s { d with others := d.others ++ [(name, a)] } rest
    else .error (s.unexpected name)

/-- The details given by place and by name. -/
def fill (s : Signature) (placed : List α) (named : List (String × α)) :
    Except Fault (Details α) := do
  let d ← s.enter ⟨s.places.zip placed, []⟩ named
  if s.places.length < placed.length then
    .error (s.tooMany (placed.length + 1) (s.byName.countP fun n => (d.known.lookup n).isSome))
  else
    match s.required.filter fun n => (d.known.lookup n).isNone with
    | [] => .ok d
    | names => .error (s.missing names)

/-! ### The signatures -/

def syntaxError : Signature :=
  ⟨"TemplateSyntaxError", ["message"], ["lineno", "name", "source", "col_offset"], ["code"], false⟩

def parseError : Signature :=
  ⟨"ParseError", ["message", "token"], ["source", "name", "suggestion", "code"], [], false⟩

def runtimeError : Signature :=
  ⟨"TemplateRuntimeError", ["message"], [],
    ["values", "template_name", "lineno", "suggestion", "source_snippet"], false⟩

def tagError : Signature := ⟨"TagError", ["tag_name", "error"], [], [], true⟩

def undefinedError : Signature :=
  ⟨"UndefinedError", ["name"], ["template", "lineno", "available_names", "source_snippet"], [],
    false⟩

end Signature

end Stencil
