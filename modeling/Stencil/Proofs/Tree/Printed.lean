/-
Stencil/Proofs/Tree/Printed.lean

Trees as tokens.  Every tree of the language has a printed form: the tokens it is written with, one
after the other, without their places.  A block with a body is closed by `end`; branches that would
be empty are left out; arguments and bindings are separated by commas, and there is none in front
of the target of a tag; the operand of a filter is in parentheses if it is a `not`.

A tree is *well formed* if it says something that the language has words for.  How numbers are
written is left open (`Numerals`): a number is well formed if its token is read as that number.
-/
import Stencil.Source.Lexer
import Stencil.Tree.Reader

namespace Stencil

/-- A token without its place. -/
abbrev Lexeme : Type := TokenKind × String

/-- A token without its place. -/
def Token.lexeme (t : Token) : Lexeme := (t.kind, t.text)

/-! ### Numbers -/

/-- How numbers are written in tokens. -/
structure Numerals where
  int : Int → String
  float : Binary64 → String

namespace Numerals

/-- A number is written as a text that is read as it. -/
def Reads (w : Numerals) : Atom → Prop
  | .int n => readInt (w.int n) = .ok n
  | .float x => readFloat (w.float x) = .ok x
  | _ => True

/-- Every number that has a text is written as a text that is read as it. -/
structure Faithful (w : Numerals) : Prop where
  int : ∀ {text n}, readInt text = .ok n → readInt (w.int n) = .ok n
  float : ∀ {text x}, readFloat text = .ok x → readFloat (w.float x) = .ok x

end Numerals

/-! ### Well-formed trees -/

/-- Names that cannot be the name of a tag: the keywords of blocks. -/
def reservedNames : List String :=
  ["for", "if", "with", "set"] ++ Reader.continuationKeywords ++ Reader.endKeywords

/-- Names and the paths that start at a name. -/
def Expr.IsPath {κ : Type} : Expr κ → Prop
  | .name .. | .member .. => True
  | _ => False

/-- Whether an expression begins with the word `not`. -/
def Expr.isNot {κ : Type} : Expr κ → Bool
  | .not _ _ => true
  | _ => false

mutual

/-- An expression that can be written. -/
def Expr.WellFormed (w : Numerals) : Expr Atom → Prop
  | .const _ a => w.Reads a
  | .name _ n => Reader.literalWord? n = none ∧ n ≠ "not"
  | .member _ object _ => object.IsPath ∧ object.WellFormed w
  | .not _ operand => operand.WellFormed w
  | .filter _ value _ args => value.WellFormed w ∧ Expr.AllWellFormed w args
  | .bare _ | .node _ => False

/-- Expressions that can be written. -/
def Expr.AllWellFormed (w : Numerals) : List (Expr Atom) → Prop
  | [] => True
  | e :: rest => e.WellFormed w ∧ Expr.AllWellFormed w rest

end

/-- Named expressions that can be written. -/
def Expr.NamedWellFormed (w : Numerals) : List (String × Expr Atom) → Prop
  | [] => True
  | (_, e) :: rest => e.WellFormed w ∧ Expr.NamedWellFormed w rest

mutual

/-- A node that can be written. -/
def Node.WellFormed (w : Numerals) : Node Atom → Prop
  | .data _ _ => True
  | .output _ value => value.WellFormed w
  | .choice _ test body others otherwise =>
    test.WellFormed w ∧ Node.AllWellFormed w body ∧ Branch.AllWellFormed w others ∧
      Node.AllWellFormed w otherwise
  | .loop _ _ items body empty =>
    items.WellFormed w ∧ Node.AllWellFormed w body ∧ Node.AllWellFormed w empty
  | .scope _ bindings body =>
    bindings ≠ [] ∧ Expr.NamedWellFormed w bindings ∧ Node.AllWellFormed w body
  | .assign _ _ value => value.WellFormed w
  | .call _ tag args named _ =>
    tag ∉ reservedNames ∧ Expr.AllWellFormed w args ∧ Expr.NamedWellFormed w named
  | .bare _ _ | .tree _ _ _ | .expr _ _ => False

/-- Nodes that can be written. -/
def Node.AllWellFormed (w : Numerals) : List (Node Atom) → Prop
  | [] => True
  | n :: rest => n.WellFormed w ∧ Node.AllWellFormed w rest

/-- Branches that can be written. -/
def Branch.AllWellFormed (w : Numerals) : List (Branch Atom) → Prop
  | [] => True
  | .mk test body :: rest =>
    test.WellFormed w ∧ Node.AllWellFormed w body ∧ Branch.AllWellFormed w rest

end

/-- A tree that can be written. -/
def Tree.WellFormed (w : Numerals) (t : Tree Atom) : Prop := Node.AllWellFormed w t.body

/-! ### The printed form -/

/-- The token of a constant. -/
def Atom.printed (w : Numerals) : Atom → Lexeme
  | .none => (.name, "none")
  | .bool b => (.name, if b then "true" else "false")
  | .int n => (.integer, w.int n)
  | .float x => (.float, w.float x)
  | .str s => (.string, s)

/-- The token of a segment: a whole number, or else a name. -/
def segmentPrinted (segment : String) : Lexeme :=
  (if numberRun? segment.toList = some (.integer, segment.toList) then .integer else .name, segment)

/-- Lists of tokens with a comma between any two of them. -/
def separated (parts : List (List Lexeme)) : List Lexeme := [(.comma, ",")].intercalate parts

/-- Tokens in parentheses. -/
def enclosed (tokens : List Lexeme) : List Lexeme :=
  (.leftParen, "(") :: (tokens ++ [(.rightParen, ")")])

/-- Tokens in a region. -/
def Region.around (r : Region) (tokens : List Lexeme) : List Lexeme :=
  (r.beginKind, String.ofList r.openingMark) ::
    (tokens ++ [(r.endKind, String.ofList r.closingMark)])

/-- A block region: its keyword, and what follows it. -/
def blockPrinted (keyword : String) (tokens : List Lexeme) : List Lexeme :=
  Region.blockRegion.around ((.name, keyword) :: tokens)

/-- The last body of a block, under a keyword of its own, unless it is empty. -/
def lastPrinted (keyword : String) (body : List Lexeme) (isEmpty : Bool) : List Lexeme :=
  if isEmpty then [] else blockPrinted keyword [] ++ body

mutual

/-- The tokens of an expression. -/
def Expr.printed (w : Numerals) : Expr Atom → List Lexeme
  | .const _ a => [a.printed w]
  | .name _ n => [(.name, n)]
  | .member _ object segment => object.printed w ++ [(.dot, "."), segmentPrinted segment]
  | .not _ operand => (.name, "not") :: operand.printed w
  | .filter _ value applied args =>
    (if value.isNot then enclosed (value.printed w) else value.printed w) ++
      [(.pipe, "|"), (.name, applied)] ++
      (if args.isEmpty then [] else enclosed (separated (Expr.allPrinted w args)))
  | .bare _ | .node _ => []

/-- The tokens of expressions. -/
def Expr.allPrinted (w : Numerals) : List (Expr Atom) → List (List Lexeme)
  | [] => []
  | e :: rest => e.printed w :: Expr.allPrinted w rest

end

/-- The tokens of named expressions. -/
def Expr.namedPrinted (w : Numerals) : List (String × Expr Atom) → List (List Lexeme)
  | [] => []
  | (key, e) :: rest => ((.name, key) :: (.assign, "=") :: e.printed w) :: Expr.namedPrinted w rest

/-- The tokens of a tag's target. -/
def targetPrinted : Option String → List Lexeme
  | none => []
  | some target => [(.name, "as"), (.name, target)]

mutual

/-- The tokens of a node. -/
def Node.printed (w : Numerals) : Node Atom → List Lexeme
  | .data _ text => [(.data, text)]
  | .output _ value => Region.variableRegion.around (value.printed w)
  | .choice _ test body others otherwise =>
    blockPrinted "if" (test.printed w) ++ Node.allPrinted w body ++ Branch.allPrinted w others ++
      lastPrinted "else" (Node.allPrinted w otherwise) otherwise.isEmpty ++ blockPrinted "end" []
  | .loop _ target items body empty =>
    blockPrinted "for" ((.name, target) :: (.name, "in") :: items.printed w) ++
      Node.allPrinted w body ++ lastPrinted "empty" (Node.allPrinted w empty) empty.isEmpty ++
      blockPrinted "end" []
  | .scope _ bindings body =>
    blockPrinted "with" (separated (Expr.namedPrinted w bindings)) ++ Node.allPrinted w body ++
      blockPrinted "end" []
  | .assign _ target value =>
    blockPrinted "set" ((.name, target) :: (.assign, "=") :: value.printed w)
  | .call _ tag args named target =>
    blockPrinted tag
      (separated (Expr.allPrinted w args ++ Expr.namedPrinted w named) ++ targetPrinted target)
  | .bare _ _ | .tree _ _ _ | .expr _ _ => []

/-- The tokens of nodes. -/
def Node.allPrinted (w : Numerals) : List (Node Atom) → List Lexeme
  | [] => []
  | n :: rest => n.printed w ++ Node.allPrinted w rest

/-- The tokens of further branches. -/
def Branch.allPrinted (w : Numerals) : List (Branch Atom) → List Lexeme
  | [] => []
  | .mk test body :: rest =>
    blockPrinted "elif" (test.printed w) ++ Node.allPrinted w body ++ Branch.allPrinted w rest

end

/-- The tokens of a tree, and the token that closes them. -/
def Tree.printed (w : Numerals) (t : Tree Atom) : List Lexeme :=
  Node.allPrinted w t.body ++ [(.eof, "")]

/-! ### Trees without places -/

variable {κ : Type}

mutual

/-- The expression with all places forgotten. -/
def Expr.placeless : Expr κ → Expr κ
  | .const _ v => .const .start v
  | .name _ n => .name .start n
  | .member _ object segment => .member .start object.placeless segment
  | .not _ operand => .not .start operand.placeless
  | .filter _ value applied args => .filter .start value.placeless applied (Expr.allPlaceless args)
  | .bare _ => .bare .start
  | .node n => .node n.placeless

/-- The expressions with all places forgotten. -/
def Expr.allPlaceless : List (Expr κ) → List (Expr κ)
  | [] => []
  | e :: rest => e.placeless :: Expr.allPlaceless rest

/-- The named expressions with all places forgotten. -/
def Expr.namedPlaceless : List (String × Expr κ) → List (String × Expr κ)
  | [] => []
  | (key, e) :: rest => (key, e.placeless) :: Expr.namedPlaceless rest

/-- The node with all places forgotten. -/
def Node.placeless : Node κ → Node κ
  | .data _ text => .data .start text
  | .output _ value => .output .start value.placeless
  | .choice _ test body others otherwise =>
    .choice .start test.placeless (Node.allPlaceless body) (Branch.allPlaceless others)
      (Node.allPlaceless otherwise)
  | .loop _ target items body empty =>
    .loop .start target items.placeless (Node.allPlaceless body) (Node.allPlaceless empty)
  | .scope _ bindings body =>
    .scope .start (Expr.namedPlaceless bindings) (Node.allPlaceless body)
  | .assign _ target value => .assign .start target value.placeless
  | .call _ tag args named target =>
    .call .start tag (Expr.allPlaceless args) (Expr.namedPlaceless named) target
  | .bare title _ => .bare title .start
  | .tree title _ body => .tree title .start (Node.allPlaceless body)
  | .expr title e => .expr title e.placeless

/-- The nodes with all places forgotten. -/
def Node.allPlaceless : List (Node κ) → List (Node κ)
  | [] => []
  | n :: rest => n.placeless :: Node.allPlaceless rest

/-- The branches with all places forgotten. -/
def Branch.allPlaceless : List (Branch κ) → List (Branch κ)
  | [] => []
  | .mk test body :: rest =>
    .mk test.placeless (Node.allPlaceless body) :: Branch.allPlaceless rest

end

/-- The tree with all places forgotten. -/
def Tree.placeless (t : Tree κ) : Tree κ := ⟨.start, Node.allPlaceless t.body⟩

end Stencil
