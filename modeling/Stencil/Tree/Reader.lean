/-
Stencil/Tree/Reader.lean

From tokens to trees, by recursive descent.

    expression := "not" expression | filtered
    filtered   := primary ("|" NAME ["(" [expression ("," expression)* [","]] ")"])*
    primary    := literal | NAME ("." (NAME | INTEGER))* | "(" expression ")"
    literal    := STRING | INTEGER | FLOAT | true | false | none
    tag        := NAME (expression | NAME "=" expression)* ["as" NAME]

A reader takes the tokens that are left and returns what it read with the
tokens that are left then.  All readers spend from one step budget, and at
least one token for two of their steps, so a budget of twice the number of
tokens is never used up; the reader at the bottom of the file supplies it.

Block keywords are known by name.  Any other name at the front of a block
region is the call of a tag.  Every end keyword closes every block.
-/
import Stencil.Source.Lexer
import Stencil.Tree
import Stencil.Value.Atom

namespace Stencil

namespace Reader

/-! ### Single tokens -/

/-- Keywords that go on with a block. -/
def continuationKeywords : List String := ["elif", "else", "empty"]

/-- Keywords that end a block. -/
def endKeywords : List String := ["end", "endfor", "endif", "endwith"]

/-- Words that stand for a value. -/
def literalWord? : String → Option Atom
  | "true" | "True" => some (.bool true)
  | "false" | "False" => some (.bool false)
  | "none" | "None" => some .none
  | _ => none

/-- The token `k` places ahead, or the last one. -/
def peek? (ts : List Token) (k : Nat) : Option Token :=
  match ts[k]? with
  | some t => some t
  | none => ts.getLast?

/-- Whether the token `k` places ahead is of a kind. -/
def peekIs (ts : List Token) (k : Nat) (kind : TokenKind) : Bool :=
  (peek? ts k).any (·.kind = kind)

/-- Reads a token of a kind. -/
def expect (kind : TokenKind) : List Token → Except Refusal (Token × List Token)
  | [] => .error .truncated
  | t :: rest =>
    if t.kind = kind then .ok (t, rest) else .error (.grammatical (.expected kind.label t) t)

/-- Reads a given name. -/
def expectWord (word : String) : List Token → Except Refusal (Token × List Token)
  | [] => .error .truncated
  | t :: rest =>
    if t.kind = .name ∧ t.text = word then .ok (t, rest)
    else .error (.grammatical (.expected word t) t)

/-- Passes over a comma, if there is one. -/
def skipComma : List Token → Except Refusal (List Token)
  | [] => .error .truncated
  | t :: rest => .ok (if t.kind = .comma then rest else t :: rest)

/-! ### Expressions -/

/-- Reads the segments of a dotted path that starts with `e`. -/
def path (e : Expr Atom) : List Token → Except Refusal (Expr Atom × List Token)
  | [] => .error .truncated
  | [t] => if t.kind = .dot then .error .truncated else .ok (e, [t])
  | t :: segment :: rest =>
    if t.kind = .dot then
      if segment.kind = .name ∨ segment.kind = .integer then
        path (.member segment.position e segment.text) rest
      else .error (.grammatical .missingAttribute segment)
    else .ok (e, t :: segment :: rest)

/-- The value of a literal token. -/
def literal? (t : Token) : Option (Except NumberError Atom) :=
  match t.kind with
  | .string => some (.ok (.str t.text))
  | .integer => some ((readInt t.text).map .int)
  | .float => some ((readFloat t.text).map .float)
  | .name => (literalWord? t.text).map .ok
  | _ => none

mutual

/-- Reads an expression. -/
def expression : (steps : Nat) → List Token → Except Refusal (Expr Atom × List Token)
  | 0, _ => .error .truncated
  | _ + 1, [] => .error .truncated
  | n + 1, t :: rest =>
    if t.kind = .name ∧ t.text = "not" then
      match expression n rest with
      | .error e => .error e
      | .ok (operand, rest) => .ok (.not t.position operand, rest)
    else
      match primary n (t :: rest) with
      | .error e => .error e
      | .ok (value, rest) => filters n value rest

/-- Reads a literal, a path or an expression in parentheses. -/
def primary : (steps : Nat) → List Token → Except Refusal (Expr Atom × List Token)
  | 0, _ => .error .truncated
  | _ + 1, [] => .error .truncated
  | n + 1, t :: rest =>
    match literal? t with
    | some (.ok value) => .ok (.const t.position value, rest)
    | some (.error e) => .error (.numeral e)
    | none =>
      if t.kind = .name then path (.name t.position t.text) rest
      else if t.kind = .leftParen then
        match expression n rest with
        | .error e => .error e
        | .ok (inner, rest) =>
          match expect .rightParen rest with
          | .error e => .error e
          | .ok (_, rest) => .ok (inner, rest)
      else .error (.grammatical (.missingExpression t) t)

/-- Reads the filters that follow `value`. -/
def filters : (steps : Nat) → (value : Expr Atom) → List Token →
    Except Refusal (Expr Atom × List Token)
  | 0, _, _ => .error .truncated
  | _ + 1, _, [] => .error .truncated
  | n + 1, value, t :: rest =>
    if t.kind = .pipe then
      match expect .name rest with
      | .error e => .error e
      | .ok (_, []) => .error .truncated
      | .ok (name, next :: rest) =>
        if next.kind = .leftParen then
          match arguments n rest with
          | .error e => .error e
          | .ok (args, rest) => filters n (.filter t.position value name.text args) rest
        else filters n (.filter t.position value name.text []) (next :: rest)
    else .ok (value, t :: rest)

/-- Reads the arguments of a filter up to the closing parenthesis. -/
def arguments : (steps : Nat) → List Token → Except Refusal (List (Expr Atom) × List Token)
  | 0, _ => .error .truncated
  | _ + 1, [] => .error .truncated
  | n + 1, t :: rest =>
    if t.kind = .rightParen then .ok ([], rest)
    else
      match expression n (t :: rest) with
      | .error e => .error e
      | .ok (_, []) => .error .truncated
      | .ok (arg, next :: rest) =>
        if next.kind = .comma then
          match arguments n rest with
          | .error e => .error e
          | .ok (args, rest) => .ok (arg :: args, rest)
        else if next.kind = .rightParen then .ok ([arg], rest)
        else .error (.grammatical .filterArguments next)

end

/-! ### Bindings and tag calls -/

/-- Reads the bindings of a `with` block up to the end of the region. -/
def bindings : (steps : Nat) → List Token →
    Except Refusal (List (String × Expr Atom) × List Token)
  | 0, _ => .error .truncated
  | _ + 1, [] => .error .truncated
  | n + 1, t :: rest =>
    if t.kind = .blockEnd then .ok ([], t :: rest)
    else do
      let (name, rest) ← expect .name (t :: rest)
      let (_, rest) ← expect .assign rest
      let (value, rest) ← expression n rest
      let rest ← skipComma rest
      let (others, rest) ← bindings n rest
      .ok ((name.text, value) :: others, rest)

/-- What a tag call passes, and the name its text is bound to. -/
structure CallParts where
  args : List (Expr Atom)
  named : List (String × Expr Atom)
  target : Option String

/-- Reads what follows the name of a tag up to the end of the region.  Once an argument was named,
the others must be. -/
def callParts (tag : String) : (steps : Nat) → (named : Bool) → List Token →
    Except Refusal (CallParts × List Token)
  | 0, _, _ => .error .truncated
  | _ + 1, _, [] => .error .truncated
  | n + 1, named, t :: rest =>
    if t.kind = .blockEnd then .ok (⟨[], [], none⟩, t :: rest)
    else if t.kind = .name ∧ t.text = "as" ∧ peekIs (t :: rest) 1 .name ∧
        peekIs (t :: rest) 2 .blockEnd then
      .ok (⟨[], [], (peek? (t :: rest) 1).map (·.text)⟩, rest.drop 1)
    else if t.kind = .name ∧ peekIs (t :: rest) 1 .assign then do
      let (value, rest) ← expression n (rest.drop 1)
      let rest ← skipComma rest
      let (parts, rest) ← callParts tag n true rest
      .ok ({ parts with named := (t.text, value) :: parts.named }, rest)
    else if named then .error (.grammatical (.positionalAfterKeyword tag) t)
    else do
      let (value, rest) ← expression n (t :: rest)
      let rest ← skipComma rest
      let (parts, rest) ← callParts tag n false rest
      .ok ({ parts with args := value :: parts.args }, rest)

/-! ### Bodies and blocks -/

/-- What ended a body: the keyword, unless the tokens ended. -/
structure BodyReading where
  nodes : List (Node Atom)
  terminator? : Option Token
  rest : List Token

/-- The terminator of a body that must be closed. -/
def BodyReading.closedBy (b : BodyReading) (opener : Token) :
    Except Refusal (List (Node Atom) × Token × List Token) :=
  match b.terminator? with
  | some t => .ok (b.nodes, t, b.rest)
  | none => .error (.grammatical (.unclosedBlock opener.text) opener)

/-- Reads the end of a block whose last body was ended by `terminator`. -/
def finishBlock (terminator : Token) (ts : List Token) : Except Refusal (List Token) :=
  if terminator.text ∈ endKeywords then (expect .blockEnd ts).map (·.2)
  else .error (.grammatical (.unexpected terminator) terminator)

mutual

/-- Reads nodes up to an end keyword or one of the `stops`, past it, or up to the end. -/
def body : (steps : Nat) → (stops : List String) → List Token → Except Refusal BodyReading
  | 0, _, _ => .error .truncated
  | _ + 1, _, [] => .error .truncated
  | n + 1, stops, t :: rest =>
    match t.kind with
    | .eof => .ok ⟨[], none, t :: rest⟩
    | .data => do
      let b ← body n stops rest
      .ok { b with nodes := .data t.position t.text :: b.nodes }
    | .variableBegin => do
      let (value, rest) ← expression n rest
      let (_, rest) ← expect .variableEnd rest
      let b ← body n stops rest
      .ok { b with nodes := .output t.position value :: b.nodes }
    | .blockBegin =>
      match peek? (t :: rest) 1 with
      | none => .error .truncated
      | some keyword =>
        if keyword.kind ≠ .name then .error (.grammatical .missingTagName keyword)
        else if keyword.text ∈ stops ∨ keyword.text ∈ endKeywords then
          .ok ⟨[], some keyword, rest.drop 1⟩
        else if keyword.text ∈ continuationKeywords then
          .error (.grammatical (.strayContinuation keyword.text) keyword)
        else do
          let (node, rest) ← block n keyword (rest.drop 1)
          let b ← body n stops rest
          .ok { b with nodes := node :: b.nodes }
    | _ => .error (.grammatical (.unexpected t) t)

/-- Reads a block from behind its keyword. -/
def block : (steps : Nat) → (opener : Token) → List Token →
    Except Refusal (Node Atom × List Token)
  | 0, _, _ => .error .truncated
  | n + 1, opener, ts =>
    if opener.text = "for" then do
      let (target, ts) ← expect .name ts
      let (_, ts) ← expectWord "in" ts
      let (items, ts) ← expression n ts
      let (_, ts) ← expect .blockEnd ts
      let b ← body n ["empty"] ts
      let (nodes, terminator, ts) ← b.closedBy opener
      let (empty, terminator, ts) ←
        if terminator.text = "empty" then do
          let (_, ts) ← expect .blockEnd ts
          let b ← body n [] ts
          b.closedBy opener
        else .ok ([], terminator, ts)
      let ts ← finishBlock terminator ts
      .ok (.loop opener.position target.text items nodes empty, ts)
    else if opener.text = "if" then do
      let (test, ts) ← expression n ts
      let (_, ts) ← expect .blockEnd ts
      let b ← body n ["elif", "else"] ts
      let (nodes, terminator, ts) ← b.closedBy opener
      let (others, terminator, ts) ← branches n opener terminator ts
      let (otherwise, terminator, ts) ←
        if terminator.text = "else" then do
          let (_, ts) ← expect .blockEnd ts
          let b ← body n [] ts
          b.closedBy opener
        else .ok ([], terminator, ts)
      let ts ← finishBlock terminator ts
      .ok (.choice opener.position test nodes others otherwise, ts)
    else if opener.text = "with" then do
      let (bound, ts) ← bindings n ts
      if bound.isEmpty then .error (.grammatical .missingBinding opener)
      else do
        let (_, ts) ← expect .blockEnd ts
        let b ← body n [] ts
        let (nodes, terminator, ts) ← b.closedBy opener
        let ts ← finishBlock terminator ts
        .ok (.scope opener.position bound nodes, ts)
    else if opener.text = "set" then do
      let (target, ts) ← expect .name ts
      let (_, ts) ← expect .assign ts
      let (value, ts) ← expression n ts
      let (_, ts) ← expect .blockEnd ts
      .ok (.assign opener.position target.text value, ts)
    else do
      let (parts, ts) ← callParts opener.text n false ts
      let (_, ts) ← expect .blockEnd ts
      .ok (.call opener.position opener.text parts.args parts.named parts.target, ts)

/-- Reads the further branches of a choice, as long as the last body was ended by `elif`. -/
def branches : (steps : Nat) → (opener terminator : Token) → List Token →
    Except Refusal (List (Branch Atom) × Token × List Token)
  | 0, _, _, _ => .error .truncated
  | n + 1, opener, terminator, ts =>
    if terminator.text = "elif" then do
      let (test, ts) ← expression n ts
      let (_, ts) ← expect .blockEnd ts
      let b ← body n ["elif", "else"] ts
      let (nodes, terminator, ts) ← b.closedBy opener
      let (others, terminator, ts) ← branches n opener terminator ts
      .ok (.mk test nodes :: others, terminator, ts)
    else .ok ([], terminator, ts)

end

/-! ### Templates -/

/-- Steps that suffice for the tokens left. -/
def enough (ts : List Token) : Nat := 2 * ts.length + 2

/-- Reads a whole template. -/
def template (ts : List Token) : Except Refusal (Tree Atom) := do
  let b ← body (enough ts) [] ts
  match b.terminator? with
  | some t => .error (.grammatical (.unexpected t) t)
  | none => .ok ⟨⟨1, 0⟩, b.nodes⟩

end Reader

/-- The tree of a token list. -/
def Tree.ofTokens (ts : List Token) : Except Refusal (Tree Atom) := Reader.template ts

/-- The tree of a source. -/
def Tree.ofSource (source : String) : Except Refusal (Tree Atom) := do
  Tree.ofTokens (← lex source)

end Stencil
