/-
Stencil/Proofs/Tree/Grammar.lean

The grammar of expressions, as a relation between tokens and trees:

    expression := "not" expression | filtered
    filtered   := primary | filtered call
    call       := "|" NAME ["(" arguments ")"]
    arguments  := [series [","]]
    series     := expression | expression "," series
    primary    := literal | path | "(" expression ")"
    path       := NAME | path "." (NAME | INTEGER)

The rules say what a tree is made of and where its places come from, and nothing about how tokens
are read: `filtered` and `path` are left recursive, because chains associate to the left.  A
*phrase* is what tokens can be derived to be.  The rules of all phrases form one relation
(`Derives`), so that a fact about all of them is one induction with a case for each rule.
-/
import Stencil.Tree.Reader

namespace Stencil

/-- A token is a given word. -/
def Token.IsWord (t : Token) (word : String) : Prop := t.kind = .name ∧ t.text = word

namespace Grammar

/-! ### The rules -/

/-- The value of a literal token. -/
inductive Literal (t : Token) : Atom → Prop
  | string (kind : t.kind = .string) : Literal t (.str t.text)
  | integer {n : Int} (kind : t.kind = .integer) (reads : readInt t.text = .ok n) :
      Literal t (.int n)
  | float {x : Binary64} (kind : t.kind = .float) (reads : readFloat t.text = .ok x) :
      Literal t (.float x)
  | word {a : Atom} (kind : t.kind = .name) (stands : Reader.literalWord? t.text = some a) :
      Literal t a

/-- What tokens can be derived to be. -/
inductive Phrase where
  | expression (e : Expr Atom)
  | filtered (e : Expr Atom)
  /-- The application of a filter, without the value it is applied to. -/
  | call (place : Position) (name : String) (args : List (Expr Atom))
  | arguments (args : List (Expr Atom))
  | series (args : List (Expr Atom))
  | primary (e : Expr Atom)
  | path (e : Expr Atom)

/-- The tokens derive the phrase. -/
inductive Derives : List Token → Phrase → Prop
  | negation {t : Token} {ts : List Token} {e : Expr Atom} (mark : t.IsWord "not")
      (operand : Derives ts (.expression e)) :
      Derives (t :: ts) (.expression (.not t.position e))
  | filtered {ts : List Token} {e : Expr Atom} (f : Derives ts (.filtered e)) :
      Derives ts (.expression e)
  | primary {ts : List Token} {e : Expr Atom} (p : Derives ts (.primary e)) :
      Derives ts (.filtered e)
  | apply {ts us : List Token} {e : Expr Atom} {place : Position} {name : String}
      {args : List (Expr Atom)} (f : Derives ts (.filtered e))
      (c : Derives us (.call place name args)) :
      Derives (ts ++ us) (.filtered (.filter place e name args))
  | bare {pipe name : Token} (hpipe : pipe.kind = .pipe) (hname : name.kind = .name) :
      Derives [pipe, name] (.call pipe.position name.text [])
  | applied {pipe name opening closing : Token} {ts : List Token} {args : List (Expr Atom)}
      (hpipe : pipe.kind = .pipe) (hname : name.kind = .name) (hopen : opening.kind = .leftParen)
      (a : Derives ts (.arguments args)) (hclose : closing.kind = .rightParen) :
      Derives (pipe :: name :: opening :: (ts ++ [closing])) (.call pipe.position name.text args)
  | nothing : Derives [] (.arguments [])
  | listed {ts : List Token} {args : List (Expr Atom)} (s : Derives ts (.series args)) :
      Derives ts (.arguments args)
  | trailing {ts : List Token} {args : List (Expr Atom)} {comma : Token}
      (s : Derives ts (.series args)) (hcomma : comma.kind = .comma) :
      Derives (ts ++ [comma]) (.arguments args)
  | last {ts : List Token} {e : Expr Atom} (x : Derives ts (.expression e)) :
      Derives ts (.series [e])
  | more {ts us : List Token} {comma : Token} {e : Expr Atom} {args : List (Expr Atom)}
      (x : Derives ts (.expression e)) (hcomma : comma.kind = .comma)
      (s : Derives us (.series args)) :
      Derives (ts ++ comma :: us) (.series (e :: args))
  | literal {t : Token} {a : Atom} (h : Literal t a) :
      Derives [t] (.primary (.const t.position a))
  | dotted {ts : List Token} {e : Expr Atom} (p : Derives ts (.path e)) :
      Derives ts (.primary e)
  | group {opening closing : Token} {ts : List Token} {e : Expr Atom}
      (hopen : opening.kind = .leftParen) (x : Derives ts (.expression e))
      (hclose : closing.kind = .rightParen) :
      Derives (opening :: (ts ++ [closing])) (.primary e)
  | name {t : Token} (kind : t.kind = .name) (plain : Reader.literalWord? t.text = none)
      (notNot : t.text ≠ "not") :
      Derives [t] (.path (.name t.position t.text))
  | segment {ts : List Token} {e : Expr Atom} {dot s : Token} (p : Derives ts (.path e))
      (hdot : dot.kind = .dot) (hs : s.kind = .name ∨ s.kind = .integer) :
      Derives (ts ++ [dot, s]) (.path (.member s.position e s.text))

/-- The tokens derive the expression. -/
def Expression (ts : List Token) (e : Expr Atom) : Prop := Derives ts (.expression e)

variable {ts : List Token} {t : Token} {e : Expr Atom} {a : Atom}

theorem literal?_eq_ok_iff : Reader.literal? t = some (.ok a) ↔ Literal t a := by
  constructor
  · intro h
    unfold Reader.literal? at h
    split at h
    · next kind =>
      obtain rfl := Except.ok.inj (Option.some.inj h)
      exact .string kind
    · next kind =>
      rcases reads : readInt t.text with f | n
      · simp [reads, Except.map] at h
      · obtain rfl : Atom.int n = a := by simpa [reads, Except.map] using h
        exact .integer kind reads
    · next kind =>
      rcases reads : readFloat t.text with f | x
      · simp [reads, Except.map] at h
      · obtain rfl : Atom.float x = a := by simpa [reads, Except.map] using h
        exact .float kind reads
    · next kind => exact .word kind (by simpa using h)
    · simp at h
  · intro h
    cases h with
    | string kind => simp [Reader.literal?, kind]
    | integer kind reads => simp [Reader.literal?, kind, reads, Except.map]
    | float kind reads => simp [Reader.literal?, kind, reads, Except.map]
    | word kind stands => simp [Reader.literal?, kind, stands]

/-- A token that is no literal and a name is a word that stands for nothing. -/
theorem literalWord?_eq_none (h : Reader.literal? t = none) (kind : t.kind = .name) :
    Reader.literalWord? t.text = none := by
  simpa [Reader.literal?, kind] using h

theorem literal?_eq_none (kind : t.kind = .name) (plain : Reader.literalWord? t.text = none) :
    Reader.literal? t = none := by
  simp [Reader.literal?, kind, plain]

/-! ### Kinds of tokens -/

/-- The kinds of tokens that expressions are made of. -/
def kinds : List TokenKind :=
  [.string, .integer, .float, .name, .dot, .pipe, .comma, .leftParen, .rightParen]

/-- The kinds of tokens that expressions begin with. -/
def firstKinds : List TokenKind := [.string, .integer, .float, .name, .leftParen]

theorem firstKinds_subset : firstKinds ⊆ kinds := by decide

theorem Literal.kind_mem (h : Literal t a) : t.kind ∈ firstKinds := by
  cases h <;> simp [firstKinds, *]

/-- A derivation uses the tokens of expressions only. -/
theorem Derives.kind_mem {p : Phrase} (d : Derives ts p) : ∀ t ∈ ts, t.kind ∈ kinds := by
  have word : ∀ {t : Token} {w : String}, t.IsWord w → t.kind ∈ kinds := fun h => by
    rw [h.1]
    decide
  induction d with
  | negation mark _ ih => simpa using ⟨word mark, ih⟩
  | filtered _ ih | primary _ ih | listed _ ih | last _ ih | dotted _ ih => exact ih
  | apply _ _ ihf ihc => simpa [or_imp, forall_and] using ⟨ihf, ihc⟩
  | bare hpipe hname => simp [hpipe, hname, kinds]
  | applied hpipe hname hopen _ hclose ih =>
    simpa [or_imp, forall_and, hpipe, hname, hopen, hclose, kinds] using ih
  | nothing => simp
  | trailing _ hcomma ih => simpa [or_imp, forall_and, hcomma, kinds] using ih
  | @more _ _ comma _ _ _ hcomma _ ihx ihs =>
    have : comma.kind ∈ kinds := by simp [hcomma, kinds]
    simpa [or_imp, forall_and] using ⟨ihx, this, ihs⟩
  | literal h => simpa using firstKinds_subset h.kind_mem
  | group hopen _ hclose ih => simpa [or_imp, forall_and, hopen, hclose, kinds] using ih
  | name kind => simp [kind, kinds]
  | segment _ hdot hs ih =>
    rcases hs with hs | hs <;> simpa [or_imp, forall_and, hdot, hs, kinds] using ih

/-! ### How phrases begin -/

/-- How the tokens of a phrase begin. -/
def Phrase.Begins (ts : List Token) : Phrase → Prop
  | expression _ | series _ => ∃ t more, ts = t :: more ∧ t.kind ∈ firstKinds
  | filtered _ | primary _ | path _ =>
    ∃ t more, ts = t :: more ∧ t.kind ∈ firstKinds ∧ ¬ t.IsWord "not"
  | call .. => ∃ t more, ts = t :: more ∧ t.kind = .pipe
  | arguments _ => True

theorem Derives.begins {p : Phrase} (d : Derives ts p) : p.Begins ts := by
  induction d with
  | negation mark => exact ⟨_, _, rfl, by rw [mark.1]; decide⟩
  | filtered _ ih =>
    obtain ⟨t, more, rfl, hkind, -⟩ := ih
    exact ⟨t, more, rfl, hkind⟩
  | primary _ ih | dotted _ ih => exact ih
  | apply _ _ ih =>
    obtain ⟨t, more, rfl, h⟩ := ih
    exact ⟨t, _, rfl, h⟩
  | bare hpipe | applied hpipe => exact ⟨_, _, rfl, hpipe⟩
  | nothing | listed | trailing => trivial
  | last _ ih => exact ih
  | more _ _ _ ih =>
    obtain ⟨t, more, rfl, h⟩ := ih
    exact ⟨t, _, rfl, h⟩
  | @literal t a h =>
    refine ⟨t, [], rfl, h.kind_mem, fun mark => ?_⟩
    -- the word `not` stands for no value
    cases h with
    | word _ stands =>
      rw [mark.2] at stands
      cases stands
    | _ kind => simp [mark.1] at kind
  | group hopen =>
    refine ⟨_, _, rfl, by rw [hopen]; decide, fun mark => ?_⟩
    simp [mark.1] at hopen
  | name kind _ notNot => exact ⟨_, [], rfl, by rw [kind]; decide, fun mark => notNot mark.2⟩
  | segment _ _ _ ih =>
    obtain ⟨t, more, rfl, h⟩ := ih
    exact ⟨t, _, rfl, h⟩

/-- Behind a name that the tokens begin with, and that is no `not`, comes a dot or a pipe. -/
def GoesOn (ts : List Token) : Prop :=
  ∀ t next more, ts = t :: next :: more → t.kind = .name → t.text ≠ "not" →
    next.kind = .dot ∨ next.kind = .pipe

/-- How the tokens of a phrase go on behind a name. -/
def Phrase.Continues (ts : List Token) : Phrase → Prop
  | expression _ | filtered _ | primary _ | path _ => GoesOn ts
  | _ => True

theorem GoesOn.append {us : List Token} (h : GoesOn ts) (hne : ts ≠ [])
    (hus : ∃ first ∈ us.head?, first.kind = .dot ∨ first.kind = .pipe) : GoesOn (ts ++ us) := by
  obtain ⟨first, hmem, hfirst⟩ := hus
  intro t next more heq kind text
  match ts, us, hne with
  | [a], b :: bs, _ =>
    obtain ⟨-, rfl, -⟩ : a = t ∧ b = next ∧ bs = more := by simpa using heq
    obtain rfl : b = first := by simpa using hmem
    exact hfirst
  | a :: b :: as, us, _ =>
    obtain ⟨rfl, rfl, -⟩ : a = t ∧ b = next ∧ as ++ us = more := by simpa using heq
    exact h a b as rfl kind text

theorem Derives.ne_nil {p : Phrase} (d : Derives ts p) (hp : ∀ args, p ≠ .arguments args) :
    ts ≠ [] := by
  have h := d.begins
  cases p with
  | arguments args => exact absurd rfl (hp args)
  | _ =>
    obtain ⟨t, more, rfl, -⟩ := h
    exact List.cons_ne_nil t more

theorem Derives.continues {p : Phrase} (d : Derives ts p) : p.Continues ts := by
  induction d with
  | negation mark =>
    intro t next more heq _ text
    obtain ⟨rfl, -⟩ := List.cons.inj heq
    exact absurd mark.2 text
  | filtered _ ih | primary _ ih | dotted _ ih => exact ih
  | apply f c ih =>
    obtain ⟨pipe, more, rfl, hpipe⟩ := c.begins
    exact GoesOn.append ih (f.ne_nil nofun) ⟨pipe, rfl, .inr hpipe⟩
  | bare | applied | nothing | listed | trailing | last | more => trivial
  | literal | name =>
    intro t next more heq
    simp at heq
  | group hopen =>
    intro t next more heq kind
    obtain ⟨rfl, -⟩ := List.cons.inj heq
    simp [hopen] at kind
  | segment p hdot _ ih => exact GoesOn.append ih (p.ne_nil nofun) ⟨_, rfl, .inl hdot⟩

end Grammar

end Stencil
