/-
Stencil/Tree.lean

The trees of templates.  A template is a list of nodes; a node is text, an
expression to print, or a block.  Every node and expression carries the place
where it began, for messages.

A tree is a tree over the type of its constants: the literals of a source are
atoms, a tree made by hand may hold any value, and is written out as data
before that.

A tree made by hand may also hold an expression or a whole tree where a node
should be, a node where an expression should be, and nodes and expressions of
no particular kind.  All of these can be described, but neither evaluated nor
rendered; in the place of a node they have a title, by which a fault tells
what it found there.
-/
import Stencil.Source.Position

namespace Stencil

mutual

/-- Expressions. -/
inductive Expr (κ : Type) where
  | const (place : Position) (value : κ)
  | name (place : Position) (name : String)
  /-- A segment of a dotted path. -/
  | member (place : Position) (object : Expr κ) (segment : String)
  | not (place : Position) (operand : Expr κ)
  | filter (place : Position) (value : Expr κ) (name : String) (args : List (Expr κ))
  /-- An expression of no particular kind. -/
  | bare (place : Position)
  /-- A node in the place of an expression. -/
  | node (node : Node κ)
  deriving Repr

/-- Nodes. -/
inductive Node (κ : Type) where
  | data (place : Position) (text : String)
  | output (place : Position) (value : Expr κ)
  /-- The first branch whose test holds is taken, else the last body. -/
  | choice (place : Position) (test : Expr κ) (body : List (Node κ)) (others : List (Branch κ))
      (otherwise : List (Node κ))
  /-- The body once for each item, else the last body. -/
  | loop (place : Position) (target : String) (items : Expr κ) (body empty : List (Node κ))
  /-- The body under bindings of its own. -/
  | scope (place : Position) (bindings : List (String × Expr κ)) (body : List (Node κ))
  | assign (place : Position) (target : String) (value : Expr κ)
  /-- A call of a registered tag; its text is printed, or bound to the target. -/
  | call (place : Position) (tag : String) (args : List (Expr κ)) (named : List (String × Expr κ))
      (target : Option String)
  /-- A node of no particular kind. -/
  | bare (title : String) (place : Position)
  /-- A whole tree in the place of a node. -/
  | tree (title : String) (place : Position) (body : List (Node κ))
  /-- An expression in the place of a node. -/
  | expr (title : String) (expr : Expr κ)
  deriving Repr

/-- A further branch of a choice. -/
inductive Branch (κ : Type) where
  | mk (test : Expr κ) (body : List (Node κ))
  deriving Repr

end

variable {κ : Type}

mutual

/-- The place of an expression. -/
def Expr.place : Expr κ → Position
  | .const p _ | .name p _ | .member p _ _ | .not p _ | .filter p _ _ _ | .bare p => p
  | .node n => n.place

/-- The place of a node. -/
def Node.place : Node κ → Position
  | .data p _ | .output p _ | .choice p _ _ _ _ | .loop p _ _ _ _ | .scope p _ _ | .assign p _ _
  | .call p _ _ _ _ | .bare _ p | .tree _ p _ => p
  | .expr _ e => e.place

end

/-- The tree of a template. -/
structure Tree (κ : Type) where
  place : Position
  body : List (Node κ)
  deriving Repr

end Stencil
