/-
Stencil/Proofs/Tree/Derived.lean

Printed expressions and derivations.  The printed form of a well-formed expression derives it, up to
places (`Expr.derives_printed`): induction on the expression.  What tokens derive is well formed,
if numbers are written so that they are read back (`Derives.wellFormed`): induction on the
derivation.
-/
import Stencil.Proofs.Tree.Expression
import Stencil.Proofs.Tree.Printed

namespace Stencil

open Grammar

variable {w : Numerals} {ts : List Token} {e e' : Expr Atom}

/-! ### Tokens by what they are -/

theorem Token.lexeme_eq_iff {t : Token} {k : TokenKind} {s : String} :
    t.lexeme = (k, s) ↔ t.kind = k ∧ t.text = s := by
  rw [Token.lexeme, Prod.mk.injEq]

/-- Tokens that are to be in parentheses are. -/
theorem exists_enclosed {inner : List Lexeme} (h : ts.map Token.lexeme = enclosed inner) :
    ∃ opening us closing, ts = opening :: (us ++ [closing]) ∧ opening.kind = .leftParen ∧
      us.map Token.lexeme = inner ∧ closing.kind = .rightParen := by
  obtain ⟨opening, rest, rfl, hopen, h⟩ := List.map_eq_cons_iff.mp h
  obtain ⟨us, last, rfl, hus, h⟩ := List.map_eq_append_iff.mp h
  obtain ⟨closing, rfl, hclose⟩ := List.map_eq_singleton_iff.mp h
  exact ⟨opening, us, closing, rfl, congrArg Prod.fst hopen, hus, congrArg Prod.fst hclose⟩

/-! ### What is printed is derived -/

/-- The tokens derive an expression that differs from another in its places only: as a path, if it
is one, and in the place of a filter's operand, unless it is a `not`. -/
structure Spells (ts : List Token) (e e' : Expr Atom) : Prop where
  expression : Derives ts (.expression e')
  filtered : e.isNot = false → Derives ts (.filtered e')
  path : e.IsPath → Derives ts (.path e')
  same : e'.placeless = e.placeless

theorem Spells.of_filtered (d : Derives ts (.filtered e')) (hpath : ¬ e.IsPath)
    (same : e'.placeless = e.placeless) : Spells ts e e' :=
  ⟨d.filtered, fun _ => d, fun h => absurd h hpath, same⟩

theorem Spells.of_path (d : Derives ts (.path e')) (same : e'.placeless = e.placeless) :
    Spells ts e e' :=
  ⟨d.dotted.primary.filtered, fun _ => d.dotted.primary, fun _ => d, same⟩

theorem Spells.const {a : Atom} {p : Position} (h : w.Reads a)
    (hts : ts.map Token.lexeme = [a.printed w]) :
    ∃ e', Spells ts (.const p a) e' := by
  obtain ⟨t, rfl, ht⟩ := List.map_eq_singleton_iff.mp hts
  have hlit : Literal t a := by
    cases a with
    | none =>
      obtain ⟨kind, text⟩ := Token.lexeme_eq_iff.mp ht
      exact .word kind (by rw [text]; rfl)
    | bool b =>
      obtain ⟨kind, text⟩ := Token.lexeme_eq_iff.mp ht
      exact .word kind (by rw [text]; cases b <;> rfl)
    | int n =>
      obtain ⟨kind, text⟩ := Token.lexeme_eq_iff.mp ht
      exact .integer kind (by rw [text]; exact h)
    | float x =>
      obtain ⟨kind, text⟩ := Token.lexeme_eq_iff.mp ht
      exact .float kind (by rw [text]; exact h)
    | str s =>
      obtain ⟨kind, rfl⟩ := Token.lexeme_eq_iff.mp ht
      exact .string kind
  exact ⟨.const t.position a, .of_filtered (.primary (.literal hlit)) id rfl⟩

/-- A filter's operand, in parentheses if it is a `not`. -/
theorem Spells.operand (ih : ∀ ts : List Token, ts.map Token.lexeme = e.printed w →
      ∃ e', Spells ts e e')
    (h : ts.map Token.lexeme = if e.isNot then enclosed (e.printed w) else e.printed w) :
    ∃ e', Derives ts (.filtered e') ∧ e'.placeless = e.placeless := by
  split at h
  · obtain ⟨opening, us, closing, rfl, hopen, hus, hclose⟩ := exists_enclosed h
    obtain ⟨e', s⟩ := ih us hus
    exact ⟨e', .primary (.group hopen s.expression hclose), s.same⟩
  · next hnot =>
    obtain ⟨e', s⟩ := ih ts h
    exact ⟨e', s.filtered (by simpa using hnot), s.same⟩

theorem separated_cons_cons (part next : List Lexeme) (parts : List (List Lexeme)) :
    separated (part :: next :: parts) = part ++ (.comma, ",") :: separated (next :: parts) := by
  simp [separated, List.intercalate]

theorem separated_singleton (part : List Lexeme) : separated [part] = part := by
  simp [separated, List.intercalate]

mutual

/-- The printed form of an expression derives it, up to places. -/
theorem Expr.derives_printed : ∀ (e : Expr Atom) (ts : List Token), e.WellFormed w →
    ts.map Token.lexeme = e.printed w → ∃ e', Spells ts e e'
  | .const p a, ts, h, hts => Spells.const h hts
  | .name p n, ts, h, hts => by
    obtain ⟨t, rfl, ht⟩ := List.map_eq_singleton_iff.mp hts
    obtain ⟨kind, rfl⟩ := Token.lexeme_eq_iff.mp ht
    exact ⟨_, .of_path (.name kind h.1 h.2) rfl⟩
  | .member p object segment, ts, h, hts => by
    obtain ⟨us, more, rfl, hus, hmore⟩ := List.map_eq_append_iff.mp hts
    obtain ⟨dot, last, rfl, hdot, hlast⟩ := List.map_eq_cons_iff.mp hmore
    obtain ⟨s, rfl, hs⟩ := List.map_eq_singleton_iff.mp hlast
    obtain ⟨object', so⟩ := Expr.derives_printed object us h.2 hus
    obtain ⟨kind, rfl⟩ := Token.lexeme_eq_iff.mp hs
    refine ⟨_, .of_path (.segment (so.path h.1) (congrArg Prod.fst hdot) ?_)
      (congrArg (Expr.member .start · s.text) so.same)⟩
    rw [kind]
    split
    · exact .inr rfl
    · exact .inl rfl
  | .not p operand, ts, h, hts => by
    obtain ⟨mark, us, rfl, hmark, hus⟩ := List.map_eq_cons_iff.mp hts
    obtain ⟨operand', s⟩ := Expr.derives_printed operand us h hus
    exact ⟨.not mark.position operand', .negation (Token.lexeme_eq_iff.mp hmark) s.expression,
      fun hnot => (nomatch hnot), fun hpath => (nomatch hpath), congrArg (Expr.not .start) s.same⟩
  | .filter p value applied args, ts, h, hts => by
    rw [Expr.printed, List.append_assoc, List.cons_append, List.singleton_append] at hts
    obtain ⟨us, call, rfl, hus, hcall⟩ := List.map_eq_append_iff.mp hts
    obtain ⟨pipe, rest, rfl, hpipe, hrest⟩ := List.map_eq_cons_iff.mp hcall
    obtain ⟨name, more, rfl, hname, hmore⟩ := List.map_eq_cons_iff.mp hrest
    obtain ⟨value', dv, hv⟩ := Spells.operand (fun us => Expr.derives_printed value us h.1) hus
    obtain ⟨hkind, rfl⟩ := Token.lexeme_eq_iff.mp hname
    obtain ⟨args', c, ha⟩ : ∃ args', Derives (pipe :: name :: more)
        (.call pipe.position name.text args') ∧
        Expr.allPlaceless args' = Expr.allPlaceless args := by
      cases args with
      | nil =>
        obtain rfl := List.map_eq_nil_iff.mp hmore
        exact ⟨[], .bare (congrArg Prod.fst hpipe) hkind, rfl⟩
      | cons arg args =>
        obtain ⟨opening, vs, closing, rfl, hopen, hvs, hclose⟩ := exists_enclosed hmore
        obtain ⟨args', s, ha⟩ := Expr.derives_allPrinted (arg :: args) vs nofun h.2 hvs
        exact ⟨args', .applied (congrArg Prod.fst hpipe) hkind hopen s.listed hclose, ha⟩
    refine ⟨_, .of_filtered (dv.apply c) id ?_⟩
    rw [Expr.placeless, Expr.placeless, hv, ha]
  | .bare p, ts, h, hts => h.elim
  | .node n, ts, h, hts => h.elim

/-- The printed form of arguments, at least one, derives them, up to places. -/
theorem Expr.derives_allPrinted : ∀ (es : List (Expr Atom)) (ts : List Token), es ≠ [] →
    Expr.AllWellFormed w es → ts.map Token.lexeme = separated (Expr.allPrinted w es) →
    ∃ args, Derives ts (.series args) ∧ Expr.allPlaceless args = Expr.allPlaceless es
  | [], ts, hne, h, hts => absurd rfl hne
  | [e], ts, _, h, hts => by
    obtain ⟨e', s⟩ := Expr.derives_printed e ts h.1 (by
      rwa [Expr.allPrinted, Expr.allPrinted, separated_singleton] at hts)
    exact ⟨[e'], .last s.expression, by rw [Expr.allPlaceless, Expr.allPlaceless, s.same]; rfl⟩
  | e :: next :: es, ts, _, h, hts => by
    rw [Expr.allPrinted, Expr.allPrinted, separated_cons_cons] at hts
    obtain ⟨us, more, rfl, hus, hmore⟩ := List.map_eq_append_iff.mp hts
    obtain ⟨comma, more, rfl, hcomma, hmore⟩ := List.map_eq_cons_iff.mp hmore
    obtain ⟨e', s⟩ := Expr.derives_printed e us h.1 hus
    obtain ⟨args, d, ha⟩ := Expr.derives_allPrinted (next :: es) more nofun h.2 hmore
    refine ⟨e' :: args, .more s.expression (congrArg Prod.fst hcomma) d, ?_⟩
    rw [Expr.allPlaceless, Expr.allPlaceless, s.same, ha]

end

/-! ### What is derived is well formed -/

/-- What a phrase is made of can be written. -/
def Grammar.Phrase.WellFormed (w : Numerals) : Phrase → Prop
  | .expression e | .filtered e | .primary e => e.WellFormed w
  | .path e => e.IsPath ∧ e.WellFormed w
  | .call _ _ args | .arguments args | .series args => Expr.AllWellFormed w args

theorem Grammar.Literal.reads (f : w.Faithful) {t : Token} {a : Atom} (h : Literal t a) :
    w.Reads a := by
  cases h with
  | string => trivial
  | integer _ reads => exact f.int reads
  | float _ reads => exact f.float reads
  | word _ stands =>
    unfold Reader.literalWord? at stands
    split at stands <;> cases stands <;> trivial

/-- What tokens derive can be written. -/
theorem Grammar.Derives.wellFormed (f : w.Faithful) {p : Phrase} (d : Derives ts p) :
    p.WellFormed w := by
  induction d with
  | negation _ _ ih | filtered _ ih | primary _ ih | listed _ ih | trailing _ _ ih
  | group _ _ _ ih | applied _ _ _ _ _ ih => exact ih
  | apply _ _ ihf ihc => exact ⟨ihf, ihc⟩
  | bare | nothing => trivial
  | last _ ih => exact ⟨ih, trivial⟩
  | more _ _ _ ihx ihs => exact ⟨ihx, ihs⟩
  | literal h => exact h.reads f
  | dotted _ ih => exact ih.2
  | name _ plain notNot => exact ⟨trivial, plain, notNot⟩
  | segment _ _ _ ih => exact ⟨trivial, ih⟩

end Stencil
