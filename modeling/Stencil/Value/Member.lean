/-
Stencil/Value/Member.lean

Segments of dotted paths.  A segment names an attribute of the value before it
or, when the value has none of that name, an item: by position if the segment
is a numeral, by key otherwise.  What is neither is not there; only attributes
of things from outside can raise a fault of their own.
-/
import Stencil.Value.Text
import Stencil.Value.Equality

namespace Stencil

/-! ### Attributes -/

/-- Methods of whole numbers. -/
def intMethods : List String :=
  ["as_integer_ratio", "bit_count", "bit_length", "conjugate", "from_bytes", "to_bytes"]

/-- Methods of numbers with a fraction. -/
def floatMethods : List String :=
  ["as_integer_ratio", "conjugate", "fromhex", "hex", "is_integer"]

/-- Methods of strings. -/
def stringMethods : List String :=
  ["capitalize", "casefold", "center", "count", "encode", "endswith", "expandtabs", "find",
   "format", "format_map", "index", "isalnum", "isalpha", "isascii", "isdecimal", "isdigit",
   "isidentifier", "islower", "isnumeric", "isprintable", "isspace", "istitle", "isupper", "join",
   "ljust", "lower", "lstrip", "maketrans", "partition", "removeprefix", "removesuffix", "replace",
   "rfind", "rindex", "rjust", "rpartition", "rsplit", "rstrip", "split", "splitlines",
   "startswith", "strip", "swapcase", "title", "translate", "upper", "zfill"]

/-- Methods of lists. -/
def listMethods : List String :=
  ["append", "clear", "copy", "count", "extend", "index", "insert", "pop", "remove", "reverse",
   "sort"]

/-- Methods of tuples. -/
def tupleMethods : List String := ["count", "index"]

/-- Methods of dictionaries. -/
def dictMethods : List String :=
  ["clear", "copy", "fromkeys", "get", "items", "keys", "pop", "popitem", "setdefault", "update",
   "values"]

/-- Methods of generators. -/
def generatorMethods : List String := ["close", "send", "throw"]

/-- A method of a value, if it has one of that name. -/
def method? (methods : List String) (v : Value) (name : String) : Option Value :=
  if methods.contains name then some (.method v name) else none

/-- The parts of a whole number. -/
def intPart? (n : Int) : String → Option Value
  | "real" | "numerator" => some (.int n)
  | "imag" => some (.int 0)
  | "denominator" => some (.int 1)
  | _ => none

/-- The parts of a number with a fraction. -/
def floatPart? (x : Binary64) : String → Option Value
  | "real" => some (.float x)
  | "imag" => some (.float (.zero false))
  | _ => none

/-- An attribute of an atom. -/
def Atom.attribute? (a : Atom) (name : String) : Option Value :=
  match a with
  | none => .none
  | bool b => (intPart? (if b then 1 else 0) name).or (method? intMethods (.atom a) name)
  | int n => (intPart? n name).or (method? intMethods (.atom a) name)
  | float x => (floatPart? x name).or (method? floatMethods (.atom a) name)
  | str _ => method? stringMethods (.atom a) name

/-- An attribute of a loop: where it is, how long it is, and its own parts. -/
def LoopState.attribute? (h : Heap) (v : Value) (l : LoopState) (name : String) : Option Value :=
  let length := (h.listItems l.items).length
  match name with
  | "index" => some (.nat (l.position + 1))
  | "index0" => some (.nat l.position)
  | "length" => some (.nat length)
  | "first" => some (.bool (l.position == 0))
  | "last" => some (.bool (l.position + 1 == length))
  | "cycle" => some (.method v name)
  | "_items" => some (.object l.items)
  | "_position" => some (.nat l.position)
  | _ => none

namespace Heap

/-- An attribute of a value, if it has one of that name. -/
def attribute? (h : Heap) (v : Value) (name : String) : Except Fault (Option Value) :=
  match v with
  | .atom a => .ok (a.attribute? name)
  | .method _ _ => .ok none
  | .object i =>
    match h.get? i with
    | some (.list _) => .ok (method? listMethods v name)
    | some (.tuple _) => .ok (method? tupleMethods v name)
    | some (.dict _) => .ok (method? dictMethods v name)
    | some (.generator _) => .ok (method? generatorMethods v name)
    | some (.thing t) =>
      match t.attributes.lookup name, t.raising.lookup name with
      | some found, _ => .ok (some found)
      | none, none | none, some (.foreign "AttributeError" _) => .ok none
      | none, some f => .error f
    | some (.loop (some l)) => .ok (l.attribute? h v name)
    | some (.loop none) => .ok (method? ["cycle"] v name)
    | some (.sealed text) => .ok (if name = "text" then some (.str text) else none)
    | none => .ok none

/-- An attribute of a value, which must have it. -/
def attributeOf (h : Heap) (v : Value) (name : String) : Except Fault Value := do
  match ← h.attribute? v name with
  | some found => .ok found
  | none =>
    match h.objectOf? v with
    | some (.thing t) =>
      .error ((t.raising.lookup name).getD (missingAttribute (h.typeName v) name))
    | _ => .error (missingAttribute (h.typeName v) name)

/-! ### Items -/

/-- The item of a value at a key, if there is one. -/
def item? (h : Heap) (v key : Value) : Option Value :=
  match v, h.objectOf? v, key with
  | .atom (.str s), _, .atom (.int (.ofNat i)) =>
    (s.toList[i]?).map fun c => .str (String.singleton c)
  | _, some (.list xs), .atom (.int (.ofNat i)) | _, some (.tuple xs), .atom (.int (.ofNat i)) =>
    xs[i]?
  | _, some (.dict es), _ => h.lookupKey? key es
  | _, some (.thing t), _ => t.items.bind (h.lookupKey? key)
  | _, _, _ => none

/-- The key that a segment stands for. -/
def segmentKey (segment : String) : Except Fault Value :=
  if Text.isNumeral segment then
    match readInt segment with
    | .ok n => .ok (.int n)
    | .error e => .error (.numeral e)
  else .ok (.str segment)

/-- What a segment names in a value, if anything. -/
def member? (h : Heap) (v : Value) (segment : String) : Except Fault (Option Value) := do
  match ← h.attribute? v segment with
  | some w => .ok (some w)
  | none =>
    let key ← segmentKey segment
    .ok (h.item? v key)

end Heap

end Stencil
