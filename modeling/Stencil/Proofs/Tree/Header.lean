/-
Stencil/Proofs/Tree/Header.lean

What stands in the region that opens a block: the bindings of a `with`, and the arguments and the
target of a tag.  Their printed forms are lists with commas between any two items, and the readers
pass over a comma behind each item, so that one lemma on what stands behind an item
(`exists_behind`) serves both.

In front of an argument the reader looks two tokens ahead, for a keyword argument and for a target.
No expression is taken for one of them, not even one that is the name `as`, because a name goes on
with a dot or a pipe only (`Derives.continues`).
-/
import Stencil.Proofs.Tree.Derived

namespace Stencil

open Grammar

variable {w : Numerals} {ts rest left more : List Token} {t next close key assign : Token}
  {e value : Expr Atom} {n : Nat}

/-! ### Behind an item -/

/-- A token that may stand behind an item of a list. -/
structure BehindItem (next : Token) (more : List Token) : Prop where
  ends : Ends next
  notAssign : next.kind ≠ .assign
  /-- A name starts the target of a tag, which another name follows. -/
  target : next.kind = .name → ∃ name others, more = name :: others ∧ name.kind ≠ .blockEnd

theorem ends_of_blockEnd (h : t.kind = .blockEnd) : Ends t := by
  constructor <;> simp [h]

theorem skipComma_of_comma (h : next.kind = .comma) :
    Reader.skipComma (next :: more) = .ok more := by
  simp [Reader.skipComma, h]

theorem skipComma_of_ne (h : next.kind ≠ .comma) :
    Reader.skipComma (next :: more) = .ok (next :: more) := by
  simp [Reader.skipComma, h]

theorem separated_cons (part : List Lexeme) (parts : List (List Lexeme)) :
    separated (part :: parts)
      = part ++ (if parts.isEmpty then [] else (.comma, ",") :: separated parts) := by
  cases parts with
  | nil => simp [separated_singleton]
  | cons next parts => rw [separated_cons_cons]; rfl

/-- Behind an item stand a comma and the items that follow, or the target, or the end of the region;
a comma is passed over. -/
theorem exists_behind {parts : List (List Lexeme)} {target : Option String}
    (hts : ts.map Token.lexeme
      = (if parts.isEmpty then [] else (.comma, ",") :: separated parts) ++ targetPrinted target) :
    ∃ us, us.map Token.lexeme = separated parts ++ targetPrinted target ∧ us.length ≤ ts.length ∧
      ∀ {close rest}, close.kind = .blockEnd → ∃ next more, ts ++ close :: rest = next :: more ∧
        BehindItem next more ∧ Reader.skipComma (next :: more) = .ok (us ++ close :: rest) := by
  cases parts with
  | cons part parts =>
    obtain ⟨comma, us, rfl, hcomma, hus⟩ := List.map_eq_cons_iff.mp hts
    have kind : comma.kind = .comma := congrArg Prod.fst hcomma
    refine ⟨us, hus, by simp, fun {close rest} _ => ⟨comma, us ++ close :: rest, rfl,
      ⟨ends_of_comma kind, ?_, ?_⟩, skipComma_of_comma kind⟩⟩ <;> simp [kind]
  | nil =>
    refine ⟨ts, hts, Nat.le_refl _, fun {close rest} hclose => ?_⟩
    cases target with
    | none =>
      obtain rfl : ts = [] := List.map_eq_nil_iff.mp hts
      refine ⟨close, rest, rfl, ⟨⟨?_, ?_, ?_⟩, ?_, ?_⟩, skipComma_of_ne ?_⟩ <;> simp [hclose]
    | some target =>
      obtain ⟨mark, us, rfl, hmark, hus⟩ := List.map_eq_cons_iff.mp hts
      obtain ⟨name, rfl, hname⟩ := List.map_eq_singleton_iff.mp hus
      have kind : mark.kind = .name := congrArg Prod.fst hmark
      have hkind : name.kind = .name := congrArg Prod.fst hname
      refine ⟨mark, name :: close :: rest, rfl,
        ⟨⟨?_, ?_, ?_⟩, ?_, fun _ => ⟨name, _, rfl, ?_⟩⟩, skipComma_of_ne ?_⟩ <;> simp [kind, hkind]

/-! ### Bindings -/

theorem bindings_end (hclose : close.kind = .blockEnd) :
    Reader.bindings (n + 1) (close :: rest) = .ok ([], close :: rest) := by
  simp [Reader.bindings, hclose]

theorem bindings_binding (hkey : key.kind = .name) (hassign : assign.kind = .assign)
    (hx : Reader.expression n more = .ok (value, rest)) (hskip : Reader.skipComma rest = .ok left) :
    Reader.bindings (n + 1) (key :: assign :: more)
      = (Reader.bindings n left).map fun r => ((key.text, value) :: r.1, r.2) := by
  rcases h : Reader.bindings n left with f | ⟨others, after⟩ <;>
    simp [Reader.bindings, Reader.expect, hkey, hassign, hx, hskip, h, bind, Except.bind,
      Except.map]

/-- The tokens of a binding or a keyword argument. -/
theorem exists_named {word : String} {after : List Lexeme} (h : e.WellFormed w)
    (hts : ts.map Token.lexeme = (.name, word) :: (.assign, "=") :: e.printed w ++ after) :
    ∃ key assign us more e', ts = key :: assign :: (us ++ more) ∧ key.kind = .name ∧
      key.text = word ∧ assign.kind = .assign ∧ Derives us (.expression e') ∧
      e'.placeless = e.placeless ∧ more.map Token.lexeme = after := by
  obtain ⟨key, ts, rfl, hkey, hts⟩ := List.map_eq_cons_iff.mp hts
  obtain ⟨assign, ts, rfl, hassign, hts⟩ := List.map_eq_cons_iff.mp hts
  obtain ⟨us, more, rfl, hus, hmore⟩ := List.map_eq_append_iff.mp hts
  obtain ⟨e', s⟩ := Expr.derives_printed e us h hus
  obtain ⟨kind, text⟩ := Token.lexeme_eq_iff.mp hkey
  exact ⟨key, assign, us, more, e', rfl, kind, text, congrArg Prod.fst hassign, s.expression,
    s.same, hmore⟩

/-- Printed bindings are read, up to the end of the region. -/
theorem read_bindings (bs : List (String × Expr Atom)) (h : Expr.NamedWellFormed w bs)
    (hts : ts.map Token.lexeme = separated (Expr.namedPrinted w bs)) :
    ∃ bs', Expr.namedPlaceless bs' = Expr.namedPlaceless bs ∧ ∀ {n close rest},
      close.kind = .blockEnd → Enough n (ts ++ close :: rest) →
      Reader.bindings n (ts ++ close :: rest) = .ok (bs', close :: rest) := by
  induction bs generalizing ts with
  | nil =>
    obtain rfl : ts = [] := List.map_eq_nil_iff.mp hts
    refine ⟨[], rfl, fun hclose enough => ?_⟩
    obtain ⟨m, rfl⟩ := enough.steps
    exact bindings_end hclose
  | cons b bs ih =>
    obtain ⟨word, e⟩ := b
    rw [Expr.namedPrinted, separated_cons] at hts
    obtain ⟨key, assign, us, after, e', rfl, hkey, rfl, hassign, d, same, hafter⟩ :=
      exists_named h.1 hts
    obtain ⟨vs, hvs, hlen, behind⟩ := @exists_behind _ _ none (by simpa [targetPrinted])
    obtain ⟨bs', hbs, reads⟩ := ih h.2 (by simpa [targetPrinted] using hvs)
    refine ⟨(key.text, e') :: bs', by simp [Expr.namedPlaceless, same, hbs], ?_⟩
    intro n close rest hclose enough
    obtain ⟨n, rfl⟩ := enough.steps
    obtain ⟨next, more, hmore, hnext, hskip⟩ := @behind close rest hclose
    have hrest : Reader.bindings (n + 1) (vs ++ close :: rest) = .ok (bs', close :: rest) :=
      reads hclose (enough.behind (by simp; omega)).succ
    simp only [List.cons_append, List.append_assoc, hmore] at enough ⊢
    have hx : Reader.expression (n + 1) (us ++ next :: more) = .ok (e', next :: more) :=
      d.read (enough.behind (by simp +arith)).succ hnext.ends
    rw [bindings_binding hkey hassign hx hskip, hrest]
    rfl

/-! ### Tag calls -/

section

variable {tag : String} {named : Bool}

theorem callParts_end (hclose : close.kind = .blockEnd) :
    Reader.callParts tag (n + 1) named (close :: rest) = .ok (⟨[], [], none⟩, close :: rest) := by
  simp [Reader.callParts, hclose]

theorem callParts_target {mark name : Token} (hmark : mark.IsWord "as") (hname : name.kind = .name)
    (hclose : close.kind = .blockEnd) :
    Reader.callParts tag (n + 1) named (mark :: name :: close :: rest)
      = .ok (⟨[], [], some name.text⟩, close :: rest) := by
  simp [Reader.callParts, hmark.1, hmark.2, Reader.peekIs, Reader.peek?, hname, hclose]

theorem callParts_named (hkey : key.kind = .name) (hassign : assign.kind = .assign)
    (hx : Reader.expression n more = .ok (value, rest)) (hskip : Reader.skipComma rest = .ok left) :
    Reader.callParts tag (n + 1) named (key :: assign :: more)
      = (Reader.callParts tag n true left).map fun r =>
          ({ r.1 with named := (key.text, value) :: r.1.named }, r.2) := by
  rcases h : Reader.callParts tag n true left with f | ⟨parts, after⟩ <;>
    simp [Reader.callParts, Reader.peekIs, Reader.peek?, hkey, hassign, hx, hskip, h, bind,
      Except.bind, Except.map]

/-- Neither a target nor a keyword argument is seen where an expression begins. -/
theorem not_lookahead (d : Derives ts (.expression e)) (b : BehindItem next more)
    (hts : ts = t :: left) :
    ¬ (t.kind = .name ∧ t.text = "as" ∧ Reader.peekIs (ts ++ next :: more) 1 .name ∧
      Reader.peekIs (ts ++ next :: more) 2 .blockEnd) ∧
    ¬ (t.kind = .name ∧ Reader.peekIs (ts ++ next :: more) 1 .assign) := by
  subst hts
  cases left with
  | nil =>
    -- the second token that is seen stands behind the expression
    constructor
    · rintro ⟨-, -, hname, hend⟩
      have kind : next.kind = .name := by simpa [Reader.peekIs, Reader.peek?] using hname
      obtain ⟨name, others, rfl, hne⟩ := b.target kind
      exact hne (by simpa [Reader.peekIs, Reader.peek?] using hend)
    · rintro ⟨-, hassign⟩
      exact b.notAssign (by simpa [Reader.peekIs, Reader.peek?] using hassign)
  | cons second left =>
    -- the second token that is seen belongs to the expression
    constructor
    · rintro ⟨kind, text, hname, -⟩
      have hsecond : second.kind = .name := by simpa [Reader.peekIs, Reader.peek?] using hname
      have := d.continues t second left rfl kind (by simp [text])
      simp [hsecond] at this
    · rintro ⟨-, hassign⟩
      have hsecond : second.kind = .assign := by simpa [Reader.peekIs, Reader.peek?] using hassign
      have := d.kind_mem second (by simp)
      rw [hsecond] at this
      exact absurd this (by decide)

theorem callParts_positional (d : Derives ts (.expression e)) (b : BehindItem next more)
    (enough : Enough n (ts ++ next :: more)) (hskip : Reader.skipComma (next :: more) = .ok left) :
    Reader.callParts tag (n + 1) false (ts ++ next :: more)
      = (Reader.callParts tag n false left).map fun r =>
          ({ r.1 with args := e :: r.1.args }, r.2) := by
  have hx : Reader.expression n (ts ++ next :: more) = .ok (e, next :: more) := d.read enough b.ends
  obtain ⟨t, others, rfl, hfirst⟩ := d.begins
  obtain ⟨hat, hak⟩ := not_lookahead d b rfl
  have hend : t.kind ≠ .blockEnd := fun ht => by
    rw [ht] at hfirst
    exact absurd hfirst (by decide)
  rw [List.cons_append] at hx hat hak ⊢
  rw [Reader.callParts, if_neg hend, if_neg hat, if_neg hak, if_neg Bool.false_ne_true, hx]
  rcases h : Reader.callParts tag n false left with f | ⟨parts, after⟩ <;>
    simp [hskip, h, bind, Except.bind, Except.map]

/-- A printed target is read, if there is one, up to the end of the region. -/
theorem read_target {target : Option String} (hts : ts.map Token.lexeme = targetPrinted target)
    (hclose : close.kind = .blockEnd) :
    Reader.callParts tag (n + 1) named (ts ++ close :: rest)
      = .ok (⟨[], [], target⟩, close :: rest) := by
  cases target with
  | none =>
    obtain rfl := List.map_eq_nil_iff.mp hts
    exact callParts_end hclose
  | some target =>
    obtain ⟨mark, us, rfl, hmark, hus⟩ := List.map_eq_cons_iff.mp hts
    obtain ⟨name, rfl, hname⟩ := List.map_eq_singleton_iff.mp hus
    obtain ⟨kind, rfl⟩ := Token.lexeme_eq_iff.mp hname
    exact callParts_target (Token.lexeme_eq_iff.mp hmark) kind hclose

/-- Printed keyword arguments and the target are read. -/
theorem read_named (tag : String) (bs : List (String × Expr Atom)) {target : Option String}
    (h : Expr.NamedWellFormed w bs)
    (hts : ts.map Token.lexeme = separated (Expr.namedPrinted w bs) ++ targetPrinted target) :
    ∃ bs', Expr.namedPlaceless bs' = Expr.namedPlaceless bs ∧ ∀ {n named close rest},
      close.kind = .blockEnd → Enough n (ts ++ close :: rest) →
      Reader.callParts tag (n + 1) named (ts ++ close :: rest)
        = .ok (⟨[], bs', target⟩, close :: rest) := by
  induction bs generalizing ts with
  | nil =>
    exact ⟨[], rfl, fun hclose _ => read_target hts hclose⟩
  | cons b bs ih =>
    obtain ⟨word, e⟩ := b
    rw [Expr.namedPrinted, separated_cons, List.append_assoc] at hts
    obtain ⟨key, assign, us, after, e', rfl, hkey, rfl, hassign, d, same, hafter⟩ :=
      exists_named h.1 hts
    obtain ⟨vs, hvs, hlen, behind⟩ := exists_behind hafter
    obtain ⟨bs', hbs, reads⟩ := ih h.2 hvs
    refine ⟨(key.text, e') :: bs', by simp [Expr.namedPlaceless, same, hbs], ?_⟩
    intro n named close rest hclose enough
    obtain ⟨n, rfl⟩ := enough.steps
    obtain ⟨next, more, hmore, hnext, hskip⟩ := @behind close rest hclose
    have hrest : Reader.callParts tag (n + 2) true (vs ++ close :: rest)
        = .ok (⟨[], bs', target⟩, close :: rest) :=
      reads hclose (enough.behind (by simp; omega)).succ
    simp only [List.cons_append, List.append_assoc, hmore] at enough ⊢
    have hx : Reader.expression (n + 2) (us ++ next :: more) = .ok (e', next :: more) :=
      d.read (enough.mono (by simp +arith)) hnext.ends
    rw [callParts_named hkey hassign hx hskip, hrest]
    rfl

/-- Printed arguments and the target of a tag are read. -/
theorem read_callParts (tag : String) (args : List (Expr Atom)) {bs : List (String × Expr Atom)}
    {target : Option String} (h : Expr.AllWellFormed w args) (hb : Expr.NamedWellFormed w bs)
    (hts : ts.map Token.lexeme
      = separated (Expr.allPrinted w args ++ Expr.namedPrinted w bs) ++ targetPrinted target) :
    ∃ args' bs', Expr.allPlaceless args' = Expr.allPlaceless args ∧
      Expr.namedPlaceless bs' = Expr.namedPlaceless bs ∧ ∀ {n close rest},
      close.kind = .blockEnd → Enough n (ts ++ close :: rest) →
      Reader.callParts tag (n + 1) false (ts ++ close :: rest)
        = .ok (⟨args', bs', target⟩, close :: rest) := by
  induction args generalizing ts with
  | nil =>
    obtain ⟨bs', hbs, reads⟩ := read_named tag bs hb hts
    exact ⟨[], bs', rfl, hbs, reads⟩
  | cons e args ih =>
    rw [Expr.allPrinted, List.cons_append, separated_cons, List.append_assoc] at hts
    obtain ⟨us, after, rfl, hus, hafter⟩ := List.map_eq_append_iff.mp hts
    obtain ⟨e', s⟩ := Expr.derives_printed e us h.1 hus
    obtain ⟨vs, hvs, hlen, behind⟩ := exists_behind hafter
    obtain ⟨args', bs', hargs, hbs, reads⟩ := ih h.2 hvs
    refine ⟨e' :: args', bs', by rw [Expr.allPlaceless, Expr.allPlaceless, s.same, hargs], hbs, ?_⟩
    intro n close rest hclose enough
    obtain ⟨t, others, rfl, -⟩ := s.expression.begins
    obtain ⟨n, rfl⟩ := enough.steps
    obtain ⟨next, more, hmore, hnext, hskip⟩ := @behind close rest hclose
    have hrest : Reader.callParts tag (n + 2) false (vs ++ close :: rest)
        = .ok (⟨args', bs', target⟩, close :: rest) :=
      reads hclose (enough.behind (by simp; omega)).succ
    rw [List.append_assoc, hmore] at enough ⊢
    rw [callParts_positional s.expression hnext enough hskip, hrest]
    rfl

end

end Stencil
