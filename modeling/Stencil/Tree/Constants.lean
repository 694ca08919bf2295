/-
Stencil/Tree/Constants.lean

Changing the constants of a tree.  A change runs over a tree from left to
right, may have effects of its own, and leaves everything but the constants as
it was.
-/
import Stencil.Tree

namespace Stencil

variable {κ μ : Type} {m : Type → Type} [Monad m]

mutual

/-- Changes the constants of an expression. -/
def Expr.mapM (f : κ → m μ) : Expr κ → m (Expr μ)
  | .const p v => do
    let v ← f v
    return .const p v
  | .name p n => pure (.name p n)
  | .member p object segment => do
    let object ← object.mapM f
    return .member p object segment
  | .not p operand => do
    let operand ← operand.mapM f
    return .not p operand
  | .filter p value name args => do
    let value ← value.mapM f
    let args ← Expr.mapAllM f args
    return .filter p value name args
  | .bare p => pure (.bare p)
  | .node n => do
    let n ← n.mapM f
    return .node n

/-- Changes the constants of expressions. -/
def Expr.mapAllM (f : κ → m μ) : List (Expr κ) → m (List (Expr μ))
  | [] => pure []
  | e :: rest => do
    let e ← e.mapM f
    let rest ← Expr.mapAllM f rest
    return e :: rest

/-- Changes the constants of named expressions. -/
def Expr.mapNamedM (f : κ → m μ) : List (String × Expr κ) → m (List (String × Expr μ))
  | [] => pure []
  | (name, e) :: rest => do
    let e ← e.mapM f
    let rest ← Expr.mapNamedM f rest
    return (name, e) :: rest

/-- Changes the constants of a node. -/
def Node.mapM (f : κ → m μ) : Node κ → m (Node μ)
  | .data p text => pure (.data p text)
  | .output p value => do
    let value ← value.mapM f
    return .output p value
  | .choice p test body others otherwise => do
    let test ← test.mapM f
    let body ← Node.mapAllM f body
    let others ← Branch.mapAllM f others
    let otherwise ← Node.mapAllM f otherwise
    return .choice p test body others otherwise
  | .loop p target items body empty => do
    let items ← items.mapM f
    let body ← Node.mapAllM f body
    let empty ← Node.mapAllM f empty
    return .loop p target items body empty
  | .scope p bindings body => do
    let bindings ← Expr.mapNamedM f bindings
    let body ← Node.mapAllM f body
    return .scope p bindings body
  | .assign p target value => do
    let value ← value.mapM f
    return .assign p target value
  | .call p tag args named target => do
    let args ← Expr.mapAllM f args
    let named ← Expr.mapNamedM f named
    return .call p tag args named target
  | .bare title p => pure (.bare title p)
  | .tree title p body => do
    let body ← Node.mapAllM f body
    return .tree title p body
  | .expr title e => do
    let e ← e.mapM f
    return .expr title e

/-- Changes the constants of nodes. -/
def Node.mapAllM (f : κ → m μ) : List (Node κ) → m (List (Node μ))
  | [] => pure []
  | n :: rest => do
    let n ← n.mapM f
    let rest ← Node.mapAllM f rest
    return n :: rest

/-- Changes the constants of branches. -/
def Branch.mapAllM (f : κ → m μ) : List (Branch κ) → m (List (Branch μ))
  | [] => pure []
  | .mk test body :: rest => do
    let test ← test.mapM f
    let body ← Node.mapAllM f body
    let rest ← Branch.mapAllM f rest
    return .mk test body :: rest

end

/-- Changes the constants of a tree, with effects. -/
def Tree.mapM (f : κ → m μ) (t : Tree κ) : m (Tree μ) := do
  let body ← Node.mapAllM f t.body
  return ⟨t.place, body⟩

/-- Changes the constants of a tree. -/
def Tree.map (f : κ → μ) (t : Tree κ) : Tree μ := Id.run (t.mapM fun v => pure (f v))

end Stencil
