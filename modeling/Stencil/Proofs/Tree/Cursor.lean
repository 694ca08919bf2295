/-
Stencil/Proofs/Tree/Cursor.lean

Reading with a cursor.  The readers of trees take the tokens that are left and give back the tokens
that are left then.  Here the same grammar is read by a cursor that stands at an index of one fixed
list of tokens: it looks at the token where it stands, or at one a few places ahead, and it
advances, but never from a token that closes the list.  Each look is noted, with the place where the
cursor stood (`Cursor.looks`), and a look at an index without a token is told apart from steps that
are used up (`Halt`).

`Agrees` compares such a reading with a reader: both come to the same, and however that ends the
cursor has only gone onward, by looks and advances (`Cursor.Onward`).  There is a rule for each way
of going on; what both do next is compared from where the cursor stands then.
-/
import Mathlib.Logic.Relation
import Stencil.Tree.Reader

namespace Stencil

variable {α β γ δ : Type}

/-! ### Cursors -/

/-- A look at a token: where the cursor stood, and the index of the token. -/
structure Look where
  position : Nat
  index : Nat
  deriving DecidableEq, Repr

/-- A place in a list of tokens, and the looks on the way to it, the last one first. -/
structure Cursor where
  tokens : List Token
  position : Nat
  looks : List Look
  deriving DecidableEq, Repr

namespace Cursor

/-- The cursor before the first look. -/
def start (ts : List Token) : Cursor := ⟨ts, 0, []⟩

/-- The tokens from the cursor on. -/
def left (c : Cursor) : List Token := c.tokens.drop c.position

/-- The cursor after a look at an index. -/
def looked (i : Nat) (c : Cursor) : Cursor := { c with looks := ⟨c.position, i⟩ :: c.looks }

/-- The cursor one place further. -/
def next (c : Cursor) : Cursor := { c with position := c.position + 1 }

/-- The places where the cursor has stood, in order. -/
def places (c : Cursor) : List Nat := (c.looks.map (·.position)).reverse ++ [c.position]

end Cursor

/-- Why a reading with a cursor stops before its end. -/
inductive Halt where
  | refused (e : Refusal)
  /-- It looked for a token at an index where there is none. -/
  | outside
  /-- Its steps are used up. -/
  | spent
  deriving DecidableEq, Repr

/-- What a halt is for the readers. -/
def Halt.refusal : Halt → Refusal
  | refused e => e
  | outside | spent => .truncated

/-- Readings with a cursor. -/
abbrev Scan := EStateM Halt Cursor

namespace Scan

/-! ### Moving the cursor -/

/-- Refuses a token. -/
def refuse (c : Complaint) (t : Token) : Scan α := throw (.refused (.grammatical c t))

/-- The token at an index. -/
def look (i : Nat) : Scan Token := do
  modify (Cursor.looked i)
  match (← get).tokens[i]? with
  | some t => return t
  | none => throw .outside

/-- The token where the cursor stands. -/
def current : Scan Token := do look (← get).position

/-- The token `k` places ahead, or the last one. -/
def ahead (k : Nat) : Scan Token := do
  let c ← get
  look (min (c.position + k) (c.tokens.length - 1))

/-- The token where the cursor stands, which goes on behind it, unless it closes the list. -/
def advance : Scan Token := do
  let t ← current
  if t.kind = .eof then return t
  else
    modify Cursor.next
    return t

/-- Reads a token of a kind. -/
def expect (kind : TokenKind) : Scan Token := do
  let t ← current
  if t.kind = kind then advance else refuse (.expected kind.label t) t

/-- Reads a given name. -/
def expectWord (word : String) : Scan Token := do
  let t ← current
  if t.kind = .name ∧ t.text = word then advance else refuse (.expected word t) t

/-- Passes over a comma, if there is one. -/
def skipComma : Scan Unit := do
  let t ← current
  if t.kind = .comma then
    let _ ← advance
  else return ()

/-! ### Expressions -/

/-- Reads the segments of a dotted path that starts with `e`. -/
def path : (steps : Nat) → Expr Atom → Scan (Expr Atom)
  | 0, _ => throw .spent
  | n + 1, e => do
    let t ← current
    if t.kind = .dot then
      let _ ← advance
      let segment ← current
      if segment.kind = .name ∨ segment.kind = .integer then
        let _ ← advance
        path n (.member segment.position e segment.text)
      else refuse .missingAttribute segment
    else return e

mutual

/-- Reads an expression. -/
def expression : (steps : Nat) → Scan (Expr Atom)
  | 0 => throw .spent
  | n + 1 => do
    let t ← current
    if t.kind = .name ∧ t.text = "not" then
      let _ ← advance
      let operand ← expression n
      return .not t.position operand
    else
      let value ← primary n
      filters n value

/-- Reads a literal, a path or an expression in parentheses. -/
def primary : (steps : Nat) → Scan (Expr Atom)
  | 0 => throw .spent
  | n + 1 => do
    let t ← current
    match Reader.literal? t with
    | some (.ok value) =>
      let _ ← advance
      return .const t.position value
    | some (.error e) =>
      let _ ← advance
      throw (.refused (.numeral e))
    | none =>
      if t.kind = .name then
        let _ ← advance
        let c ← get
        path (c.left.length + 1) (.name t.position t.text)
      else if t.kind = .leftParen then
        let _ ← advance
        let inner ← expression n
        let _ ← expect .rightParen
        return inner
      else refuse (.missingExpression t) t

/-- Reads the filters that follow `value`. -/
def filters : (steps : Nat) → (value : Expr Atom) → Scan (Expr Atom)
  | 0, _ => throw .spent
  | n + 1, value => do
    let t ← current
    if t.kind = .pipe then
      let _ ← advance
      let name ← expect .name
      let next ← current
      if next.kind = .leftParen then
        let _ ← advance
        let args ← arguments n
        filters n (.filter t.position value name.text args)
      else filters n (.filter t.position value name.text [])
    else return value

/-- Reads the arguments of a filter up to the closing parenthesis. -/
def arguments : (steps : Nat) → Scan (List (Expr Atom))
  | 0 => throw .spent
  | n + 1 => do
    let t ← current
    if t.kind = .rightParen then
      let _ ← advance
      return []
    else
      let arg ← expression n
      let next ← current
      if next.kind = .comma then
        let _ ← advance
        let args ← arguments n
        return arg :: args
      else if next.kind = .rightParen then
        let _ ← advance
        return [arg]
      else refuse .filterArguments next

end

/-! ### Bindings and tag calls -/

/-- Reads the bindings of a `with` block up to the end of the region. -/
def bindings : (steps : Nat) → Scan (List (String × Expr Atom))
  | 0 => throw .spent
  | n + 1 => do
    let t ← current
    if t.kind = .blockEnd then return []
    else
      let name ← expect .name
      let _ ← expect .assign
      let value ← expression n
      skipComma
      let others ← bindings n
      return (name.text, value) :: others

/-- Whether a token begins the target of a tag call. -/
def atTarget (t : Token) : Scan Bool :=
  if t.kind = .name ∧ t.text = "as" then do
    let name ← ahead 1
    if name.kind = .name then
      let close ← ahead 2
      return close.kind = .blockEnd
    else return false
  else return false

/-- Whether a token names an argument of a tag call. -/
def atNamed (t : Token) : Scan Bool :=
  if t.kind = .name then do
    let mark ← ahead 1
    return mark.kind = .assign
  else return false

/-- Reads what follows the name of a tag up to the end of the region. -/
def callParts (tag : String) : (steps : Nat) → (named : Bool) → Scan Reader.CallParts
  | 0, _ => throw .spent
  | n + 1, named => do
    let t ← current
    if t.kind = .blockEnd then return ⟨[], [], none⟩
    else if ← atTarget t then
      let _ ← advance
      let target ← advance
      return ⟨[], [], some target.text⟩
    else if ← atNamed t then
      let _ ← advance
      let _ ← advance
      let value ← expression n
      skipComma
      let parts ← callParts tag n true
      return { parts with named := (t.text, value) :: parts.named }
    else if named then refuse (.positionalAfterKeyword tag) t
    else
      let value ← expression n
      skipComma
      let parts ← callParts tag n false
      return { parts with args := value :: parts.args }

/-! ### Bodies and blocks -/

/-- The nodes of a body that must be closed, and the token that closed it. -/
def closedBy (opener : Token) : List (Node Atom) × Option Token → Scan (List (Node Atom) × Token)
  | (nodes, some t) => return (nodes, t)
  | (_, none) => refuse (.unclosedBlock opener.text) opener

/-- Reads the end of a block whose last body was ended by `terminator`. -/
def finishBlock (terminator : Token) : Scan Unit :=
  if terminator.text ∈ Reader.endKeywords then do
    let _ ← expect .blockEnd
  else refuse (.unexpected terminator) terminator

/-- The last body of a block, if the keyword that ended the one before it says so; `last` reads it. -/
def lastBody (last : Scan (List (Node Atom) × Option Token)) (opener : Token) (keyword : String)
    (terminator : Token) : Scan (List (Node Atom) × Token) :=
  if terminator.text = keyword then do
    let _ ← expect .blockEnd
    closedBy opener (← last)
  else return ([], terminator)

mutual

/-- Reads nodes up to an end keyword or one of the `stops`, past it, or up to the end. -/
def body : (steps : Nat) → (stops : List String) → Scan (List (Node Atom) × Option Token)
  | 0, _ => throw .spent
  | n + 1, stops => do
    let t ← current
    match t.kind with
    | .eof => return ([], none)
    | .data => do
      let _ ← advance
      let (nodes, terminator?) ← body n stops
      return (.data t.position t.text :: nodes, terminator?)
    | .variableBegin => do
      let _ ← advance
      let value ← expression n
      let _ ← expect .variableEnd
      let (nodes, terminator?) ← body n stops
      return (.output t.position value :: nodes, terminator?)
    | .blockBegin => do
      let keyword ← ahead 1
      if keyword.kind ≠ .name then refuse .missingTagName keyword
      else if keyword.text ∈ stops ∨ keyword.text ∈ Reader.endKeywords then
        let _ ← advance
        let _ ← advance
        return ([], some keyword)
      else if keyword.text ∈ Reader.continuationKeywords then
        refuse (.strayContinuation keyword.text) keyword
      else
        let _ ← advance
        let node ← block n
        let (nodes, terminator?) ← body n stops
        return (node :: nodes, terminator?)
    | _ => refuse (.unexpected t) t

/-- Reads a block from its keyword on. -/
def block : (steps : Nat) → Scan (Node Atom)
  | 0 => throw .spent
  | n + 1 => do
    let opener ← advance
    if opener.text = "for" then
      let target ← expect .name
      let _ ← expectWord "in"
      let items ← expression n
      let _ ← expect .blockEnd
      let (nodes, terminator) ← closedBy opener (← body n ["empty"])
      let (empty, terminator) ← lastBody (body n []) opener "empty" terminator
      finishBlock terminator
      return .loop opener.position target.text items nodes empty
    else if opener.text = "if" then
      let test ← expression n
      let _ ← expect .blockEnd
      let (nodes, terminator) ← closedBy opener (← body n ["elif", "else"])
      let (others, terminator) ← branches n opener terminator
      let (otherwise, terminator) ← lastBody (body n []) opener "else" terminator
      finishBlock terminator
      return .choice opener.position test nodes others otherwise
    else if opener.text = "with" then
      let bound ← bindings n
      if bound.isEmpty then refuse .missingBinding opener
      else
        let _ ← expect .blockEnd
        let (nodes, terminator) ← closedBy opener (← body n [])
        finishBlock terminator
        return .scope opener.position bound nodes
    else if opener.text = "set" then
      let target ← expect .name
      let _ ← expect .assign
      let value ← expression n
      let _ ← expect .blockEnd
      return .assign opener.position target.text value
    else
      let parts ← callParts opener.text n false
      let _ ← expect .blockEnd
      return .call opener.position opener.text parts.args parts.named parts.target

/-- Reads the further branches of a choice, as long as the last body was ended by `elif`. -/
def branches : (steps : Nat) → (opener terminator : Token) → Scan (List (Branch Atom) × Token)
  | 0, _, _ => throw .spent
  | n + 1, opener, terminator =>
    if terminator.text = "elif" then do
      let test ← expression n
      let _ ← expect .blockEnd
      let (nodes, terminator) ← closedBy opener (← body n ["elif", "else"])
      let (others, terminator) ← branches n opener terminator
      return (.mk test nodes :: others, terminator)
    else return ([], terminator)

end

end Scan

/-! ### Going onward -/

namespace Cursor

/-- One step of a cursor: a look at a token where it stands or at one of the list, or an advance from a
token that does not close the list. -/
inductive Step : Cursor → Cursor → Prop
  | look (c : Cursor) {i : Nat} (h : i = c.position ∨ i < c.tokens.length) : Step c (c.looked i)
  | next (c : Cursor) {t : Token} (h : c.tokens[c.position]? = some t) (hkind : t.kind ≠ .eof) :
      Step c c.next

/-- What a cursor comes to by steps. -/
abbrev Onward : Cursor → Cursor → Prop := Relation.ReflTransGen Step

variable {c : Cursor} {t : Token} {rest : List Token}

theorem left_eq_cons (h : c.left = t :: rest) :
    c.tokens[c.position]? = some t ∧ c.position < c.tokens.length ∧ c.next.left = rest := by
  have hlt : c.position < c.tokens.length := by
    rcases Nat.lt_or_ge c.position c.tokens.length with hlt | hge
    · exact hlt
    · rw [left, List.drop_eq_nil_of_le hge] at h
      cases h
  rw [left, List.drop_eq_getElem_cons hlt] at h
  obtain ⟨rfl, rfl⟩ := List.cons.inj h
  exact ⟨List.getElem?_eq_getElem hlt, hlt, rfl⟩

theorem left_eq_nil (h : c.left = []) : c.tokens[c.position]? = none :=
  List.getElem?_eq_none (List.drop_eq_nil_iff.mp h)

/-- The token ahead, by the tokens that are left. -/
theorem getElem?_ahead (h : c.left = t :: rest) (k : Nat) :
    c.tokens[min (c.position + k) (c.tokens.length - 1)]? = Reader.peek? (t :: rest) k := by
  obtain ⟨-, hlt, -⟩ := left_eq_cons h
  rw [Reader.peek?, ← h, left, List.getElem?_drop, List.getLast?_drop, if_neg (by omega)]
  rcases Nat.lt_or_ge (c.position + k) c.tokens.length with hk | hk
  · rw [Nat.min_eq_left (by omega), List.getElem?_eq_getElem hk]
  · rw [Nat.min_eq_right (by omega), List.getElem?_eq_none hk, List.getLast?_eq_getElem?]

end Cursor

namespace Scan

variable {c : Cursor} {t : Token} {i : Nat} {k : Token → Scan α}

theorem run_look (h : c.tokens[i]? = some t) : (look i >>= k).run c = (k t).run (c.looked i) := by
  have hlook : (look i).run c = .ok t (c.looked i) := by
    show (match c.tokens[i]? with | some t => Pure.pure t | none => throw .outside : Scan Token).run
      (c.looked i) = _
    rw [h]
    rfl
  rw [EStateM.run_bind, hlook]

theorem run_look_none (h : c.tokens[i]? = none) :
    (look i >>= k).run c = .error .outside (c.looked i) := by
  have hlook : (look i).run c = .error .outside (c.looked i) := by
    show (match c.tokens[i]? with | some t => Pure.pure t | none => throw .outside : Scan Token).run
      (c.looked i) = _
    rw [h]
    rfl
  rw [EStateM.run_bind, hlook]

theorem run_advance (h : c.tokens[c.position]? = some t) (hkind : t.kind ≠ .eof) :
    (advance >>= k).run c = (k t).run (c.looked c.position).next := by
  have hadvance : advance.run c = .ok t (c.looked c.position).next := by
    refine (run_look h).trans ?_
    rw [if_neg hkind]
    rfl
  rw [EStateM.run_bind, hadvance]

/-- A reading with a cursor comes to what a reader gives; of the result of a reading and the tokens
that are left `give` makes what the reader gives. -/
inductive Agrees (give : α → List Token → β) (c : Cursor) (x : Except Refusal β) (m : Scan α) :
    Prop
  | ok {a : α} {c' : Cursor} (run : m.run c = .ok a c') (gives : x = .ok (give a c'.left))
      (onward : c.Onward c')
  | error {h : Halt} {c' : Cursor} (run : m.run c = .error h c') (gives : x = .error h.refusal)
      (onward : c.Onward c')

namespace Agrees

variable {give : α → List Token → β} {give' : γ → List Token → δ} {c c' : Cursor}
  {x : Except Refusal β} {m n : Scan α} {f : β → Except Refusal δ} {g : α → Scan γ} {t : Token}
  {ts rest : List Token} {k : Token → Scan α}

theorem pure {a : α} (h : x = .ok (give a c.left)) : Agrees give c x (pure a) := .ok rfl h .refl

theorem throw {h : Halt} (hx : x = .error h.refusal) : Agrees give c x (throw h) :=
  .error rfl hx .refl

theorem refuse {e : Complaint} (h : x = .error (.grammatical e t)) :
    Agrees give c x (Scan.refuse e t) := .throw h

/-- What comes after some steps. -/
theorem steps (onward : c.Onward c') (run : m.run c = n.run c') (h : Agrees give c' x n) :
    Agrees give c x m := by
  cases h with
  | ok run' gives onward' => exact .ok (run.trans run') gives (onward.trans onward')
  | error run' gives onward' => exact .error (run.trans run') gives (onward.trans onward')

/-- What both do next, where the reader goes on by cases. -/
theorem cases {y : Except Refusal δ} (h : Agrees give c x m)
    (error : ∀ e, x = .error e → y = .error e)
    (ok : ∀ a c', x = .ok (give a c'.left) → Agrees give' c' y (g a)) :
    Agrees give' c y (m >>= g) := by
  cases h with
  | @ok a c' run gives onward =>
    exact (ok a c' gives).steps onward (by rw [EStateM.run_bind, run])
  | @error e c' run gives onward =>
    exact .error (by rw [EStateM.run_bind, run]) (error _ gives) onward

/-- What both do next, from where the cursor stands then. -/
theorem bind (h : Agrees give c x m) (next : ∀ a c', Agrees give' c' (f (give a c'.left)) (g a)) :
    Agrees give' c (x >>= f) (m >>= g) := by
  refine h.cases (fun e heq => by rw [heq]; rfl) fun a c' heq => ?_
  rw [heq]
  exact next a c'

theorem current (hleft : c.left = t :: rest)
    (next : ∀ c' : Cursor, c'.left = t :: rest → Agrees give c' x (k t)) :
    Agrees give c x (Scan.current >>= k) :=
  steps (.single (.look c (.inl rfl))) (Scan.run_look (Cursor.left_eq_cons hleft).1) (next _ hleft)

/-- There is no token where the cursor stands. -/
theorem current_nil (hleft : c.left = []) (hx : x = .error .truncated) :
    Agrees give c x (Scan.current >>= k) :=
  .error (Scan.run_look_none (Cursor.left_eq_nil hleft)) hx (.single (.look c (.inl rfl)))

theorem ahead {n : Nat} (hleft : c.left = t :: rest)
    (next : ∀ u (c' : Cursor), Reader.peek? (t :: rest) n = some u → c'.left = t :: rest →
      Agrees give c' x (k u)) :
    Agrees give c x (Scan.ahead n >>= k) := by
  obtain ⟨-, hlt, -⟩ := Cursor.left_eq_cons hleft
  have hi : min (c.position + n) (c.tokens.length - 1) < c.tokens.length := by omega
  have hu := List.getElem?_eq_getElem hi
  have hpeek := (Cursor.getElem?_ahead hleft n).symm.trans hu
  exact steps (.single (.look c (.inr hi))) (Scan.run_look hu) (next _ _ hpeek hleft)

theorem advance (hleft : c.left = t :: rest) (hkind : t.kind ≠ .eof)
    (next : ∀ c' : Cursor, c'.left = rest → Agrees give c' x (k t)) :
    Agrees give c x (Scan.advance >>= k) := by
  obtain ⟨ht, -, hrest⟩ := Cursor.left_eq_cons hleft
  have onward : c.Onward (c.looked c.position).next :=
    .head (.look c (.inl rfl)) (.single (.next (c.looked c.position) ht hkind))
  exact steps onward (Scan.run_advance ht hkind) (next _ hrest)

end Agrees

end Scan

end Stencil
