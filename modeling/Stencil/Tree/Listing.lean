/-
Stencil/Tree/Listing.lean

Trees as text.  Messages describe an expression in a short form: a name is
itself, a path has its dots, and a constant is quoted.  Whatever stands where
an expression should be is listed in full: its kind, its place and all of its
parts.
-/
import Stencil.Tree
import Stencil.Value.Text

namespace Stencil

/-! ### Kinds -/

mutual

/-- The kind of an expression. -/
def Expr.kind {κ : Type} : Expr κ → String
  | .const _ _ => "Const"
  | .name _ _ => "Name"
  | .member _ _ _ => "Getattr"
  | .not _ _ => "Not"
  | .filter _ _ _ _ => "Filter"
  | .bare _ => "Expr"
  | .node n => n.kind

/-- The kind of a node. -/
def Node.kind {κ : Type} : Node κ → String
  | .data _ _ => "Data"
  | .output _ _ => "Output"
  | .choice _ _ _ _ _ => "If"
  | .loop _ _ _ _ _ => "For"
  | .scope _ _ _ => "With"
  | .assign _ _ _ => "Set"
  | .call _ _ _ _ _ => "CallTag"
  | .bare _ _ => "Node"
  | .tree _ _ _ => "Template"
  | .expr _ e => e.kind

end

/-! ### Listings -/

/-- A part of a tree in a listing: its kind, its place, and its own parts by their names. -/
def listedPart (kind : String) (place : Position) (parts : List (String × String)) : String :=
  kind ++ "(lineno=" ++ toString place.line ++ ", col_offset=" ++ toString place.column ++
    String.join (parts.map fun p => ", " ++ p.1 ++ "=" ++ p.2) ++ ")"

mutual

/-- An expression in a listing. -/
def Expr.listed (h : Heap) : Expr Value → Except Fault String
  | .const p value => do
    let value ← h.quoted value
    .ok (listedPart "Const" p [("value", value)])
  | .name p name => .ok (listedPart "Name" p [("name", Text.quote name)])
  | .member p object segment => do
    let object ← object.listed h
    .ok (listedPart "Getattr" p [("obj", object), ("attr", Text.quote segment)])
  | .not p operand => do
    let operand ← operand.listed h
    .ok (listedPart "Not" p [("operand", operand)])
  | .filter p value name args => do
    let value ← value.listed h
    let args ← Expr.listedAll h args
    .ok (listedPart "Filter" p
      [("value", value), ("name", Text.quote name), ("args", Heap.tupleText args)])
  | .bare p => .ok (listedPart "Expr" p [])
  | .node n => n.listed h

/-- Expressions in a listing. -/
def Expr.listedAll (h : Heap) : List (Expr Value) → Except Fault (List String)
  | [] => .ok []
  | e :: rest => do
    let text ← e.listed h
    let texts ← Expr.listedAll h rest
    .ok (text :: texts)

/-- Named expressions in a listing: pairs. -/
def Expr.listedNamed (h : Heap) : List (String × Expr Value) → Except Fault (List String)
  | [] => .ok []
  | (name, e) :: rest => do
    let text ← e.listed h
    let texts ← Expr.listedNamed h rest
    .ok (Heap.tupleText [Text.quote name, text] :: texts)

/-- A node in a listing. -/
def Node.listed (h : Heap) : Node Value → Except Fault String
  | .data p text => .ok (listedPart "Data" p [("value", Text.quote text)])
  | .output p value => do
    let value ← value.listed h
    .ok (listedPart "Output" p [("expr", value)])
  | .choice p test body others otherwise => do
    let test ← test.listed h
    let body ← Node.listedAll h body
    let others ← Branch.listedAll h others
    let otherwise ← Node.listedAll h otherwise
    .ok (listedPart "If" p
      [("test", test), ("body", Heap.tupleText body), ("elif_", Heap.tupleText others),
       ("else_", Heap.tupleText otherwise)])
  | .loop p target items body empty => do
    let items ← items.listed h
    let body ← Node.listedAll h body
    let empty ← Node.listedAll h empty
    .ok (listedPart "For" p
      [("target", Text.quote target), ("iter", items), ("body", Heap.tupleText body),
       ("empty", Heap.tupleText empty)])
  | .scope p bindings body => do
    let bindings ← Expr.listedNamed h bindings
    let body ← Node.listedAll h body
    .ok (listedPart "With" p
      [("bindings", Heap.tupleText bindings), ("body", Heap.tupleText body)])
  | .assign p target value => do
    let value ← value.listed h
    .ok (listedPart "Set" p [("target", Text.quote target), ("value", value)])
  | .call p tag args named target => do
    let args ← Expr.listedAll h args
    let named ← Expr.listedNamed h named
    .ok (listedPart "CallTag" p
      [("name", Text.quote tag), ("args", Heap.tupleText args), ("kwargs", Heap.tupleText named),
       ("target", (target.map Text.quote).getD "None")])
  | .bare _ p => .ok (listedPart "Node" p [])
  | .tree _ p body => do
    let body ← Node.listedAll h body
    .ok (listedPart "Template" p [("body", Heap.tupleText body)])
  | .expr _ e => e.listed h

/-- Nodes in a listing. -/
def Node.listedAll (h : Heap) : List (Node Value) → Except Fault (List String)
  | [] => .ok []
  | n :: rest => do
    let text ← n.listed h
    let texts ← Node.listedAll h rest
    .ok (text :: texts)

/-- Branches in a listing: pairs of a test and a body. -/
def Branch.listedAll (h : Heap) : List (Branch Value) → Except Fault (List String)
  | [] => .ok []
  | .mk test body :: rest => do
    let test ← test.listed h
    let body ← Node.listedAll h body
    let texts ← Branch.listedAll h rest
    .ok (Heap.tupleText [test, Heap.tupleText body] :: texts)

end

/-! ### Descriptions -/

/-- A node in a message: the text or the value that it holds, or the node itself. -/
def Node.describe (h : Heap) : Node Value → Except Fault String
  | .data _ text => .ok (Text.quote text)
  | .assign _ _ value => value.listed h
  | n => n.listed h

/-- A short form of an expression for messages. -/
def Expr.describe (h : Heap) : Expr Value → Except Fault String
  | .const _ value => h.quoted value
  | .name _ n => .ok n
  | .member _ object segment => do
    let text ← object.describe h
    .ok (text ++ "." ++ segment)
  | .not _ operand => do
    let text ← operand.describe h
    .ok ("not " ++ text)
  | .filter _ value applied _ => do
    let text ← value.describe h
    .ok (text ++ " | " ++ applied)
  | .bare place => .ok (listedPart "Expr" place [])
  | .node n => n.describe h

end Stencil
