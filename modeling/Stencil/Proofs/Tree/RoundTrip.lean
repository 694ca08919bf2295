/-
Stencil/Proofs/Tree/RoundTrip.lean

Printing and reading templates.  What is read can be written again (`Writing`): induction on the
steps that are left, one lemma for each reader, on top of the derivations of expressions.  With
what is printed being read, this makes the reader the inverse of the printer, up to places.
-/
import Stencil.Proofs.Numeral.Decimal
import Stencil.Proofs.Tree.Body

namespace Stencil

open Grammar

variable {w : Numerals} {n : Nat} {ts rest : List Token} {e : Expr Atom} {node : Node Atom}

namespace Reader

/-- A computation that succeeds did so at each of its steps. -/
theorem exists_of_bind_ok {ε α β : Type} {x : Except ε α} {f : α → Except ε β} {b : β}
    (h : (x >>= f) = .ok b) : ∃ a, x = .ok a ∧ f a = .ok b := by
  cases x with
  | error e => cases h
  | ok a => exact ⟨a, rfl, h⟩

/-! ### Headers -/

theorem expression_wellFormed (f : w.Faithful) (h : expression n ts = .ok (e, rest)) :
    e.WellFormed w := by
  obtain ⟨used, -, d⟩ := (Reading.sound n).expression h
  exact d.wellFormed f

theorem bindings_wellFormed (f : w.Faithful) {bound : List (String × Expr Atom)}
    (h : bindings n ts = .ok (bound, rest)) : Expr.NamedWellFormed w bound := by
  induction n generalizing ts bound with
  | zero => cases h
  | succ n ih =>
    cases ts with
    | nil => cases h
    | cons t ts =>
      rw [bindings] at h
      split at h
      · cases h
        trivial
      · obtain ⟨⟨name, ts₁⟩, -, h⟩ := exists_of_bind_ok h
        obtain ⟨⟨mark, ts₂⟩, -, h⟩ := exists_of_bind_ok h
        obtain ⟨⟨value, ts₃⟩, hvalue, h⟩ := exists_of_bind_ok h
        obtain ⟨ts₄, -, h⟩ := exists_of_bind_ok h
        obtain ⟨⟨others, ts₅⟩, hothers, h⟩ := exists_of_bind_ok h
        cases h
        exact ⟨expression_wellFormed f hvalue, ih hothers⟩

theorem callParts_wellFormed (f : w.Faithful) {tag : String} {named : Bool} {parts : CallParts}
    (h : callParts tag n named ts = .ok (parts, rest)) :
    Expr.AllWellFormed w parts.args ∧ Expr.NamedWellFormed w parts.named := by
  induction n generalizing ts named parts with
  | zero => cases h
  | succ n ih =>
    cases ts with
    | nil => cases h
    | cons t ts =>
      rw [callParts] at h
      split at h
      · cases h
        exact ⟨trivial, trivial⟩
      · -- a target, a keyword argument, or another argument
        split at h
        · cases h
          exact ⟨trivial, trivial⟩
        · split at h
          · obtain ⟨⟨value, ts₁⟩, hvalue, h⟩ := exists_of_bind_ok h
            obtain ⟨ts₂, -, h⟩ := exists_of_bind_ok h
            obtain ⟨⟨others, ts₃⟩, hothers, h⟩ := exists_of_bind_ok h
            cases h
            exact ⟨(ih hothers).1, expression_wellFormed f hvalue, (ih hothers).2⟩
          · split at h
            · cases h
            · obtain ⟨⟨value, ts₁⟩, hvalue, h⟩ := exists_of_bind_ok h
              obtain ⟨ts₂, -, h⟩ := exists_of_bind_ok h
              obtain ⟨⟨others, ts₃⟩, hothers, h⟩ := exists_of_bind_ok h
              cases h
              exact ⟨⟨expression_wellFormed f hvalue, (ih hothers).1⟩, (ih hothers).2⟩

/-! ### Bodies and blocks -/

/-- What is read with `n` steps can be written. -/
structure Writing (w : Numerals) (n : Nat) : Prop where
  body : ∀ {stops ts b}, body n stops ts = .ok b → Node.AllWellFormed w b.nodes
  block : ∀ {opener ts node rest}, block n opener ts = .ok (node, rest) →
    opener.text ∉ continuationKeywords ++ endKeywords → node.WellFormed w
  branches : ∀ {opener terminator ts bs last rest},
    branches n opener terminator ts = .ok (bs, last, rest) → Branch.AllWellFormed w bs

theorem closedBy_eq_ok {b : BodyReading} {opener last : Token} {ns : List (Node Atom)}
    (h : b.closedBy opener = .ok (ns, last, rest)) : b.nodes = ns := by
  rw [BodyReading.closedBy] at h
  split at h
  · cases h
    rfl
  · cases h

namespace Writing

theorem zero : Writing w 0 where
  body h := by cases h
  block h := by cases h
  branches h := by cases h

theorem closed (r : Writing w n) {stops : List String} {b : BodyReading} {opener last : Token}
    {ns : List (Node Atom)} (h : Reader.body n stops ts = .ok b)
    (h' : b.closedBy opener = .ok (ns, last, rest)) : Node.AllWellFormed w ns :=
  closedBy_eq_ok h' ▸ r.body h

theorem lastBody (r : Writing w n) {opener terminator last : Token} {keyword : String}
    {ns : List (Node Atom)}
    (h : Reader.lastBody n opener keyword terminator ts = .ok (ns, last, rest)) :
    Node.AllWellFormed w ns := by
  rw [Reader.lastBody] at h
  split at h
  · obtain ⟨⟨_, ts₁⟩, -, h⟩ := exists_of_bind_ok h
    obtain ⟨b, hb, h⟩ := exists_of_bind_ok h
    exact r.closed hb h
  · cases h
    trivial

theorem body_succ (f : w.Faithful) (r : Writing w n) {stops : List String} {b : BodyReading}
    (h : Reader.body (n + 1) stops ts = .ok b) : Node.AllWellFormed w b.nodes := by
  cases ts with
  | nil => cases h
  | cons t ts =>
    rw [Reader.body] at h
    split at h
    · cases h
      trivial
    · obtain ⟨b, hb, h⟩ := exists_of_bind_ok h
      cases h
      exact ⟨trivial, r.body hb⟩
    · obtain ⟨⟨value, ts₁⟩, hvalue, h⟩ := exists_of_bind_ok h
      obtain ⟨⟨_, ts₂⟩, -, h⟩ := exists_of_bind_ok h
      obtain ⟨b, hb, h⟩ := exists_of_bind_ok h
      cases h
      exact ⟨expression_wellFormed f hvalue, r.body hb⟩
    · split at h
      · cases h
      · next keyword _ =>
        split at h
        · cases h
        · split at h
          · cases h
            trivial
          · next stays =>
            split at h
            · cases h
            · next goes =>
              obtain ⟨⟨node, ts₁⟩, hnode, h⟩ := exists_of_bind_ok h
              obtain ⟨b, hb, h⟩ := exists_of_bind_ok h
              cases h
              -- a word that only goes on with a block or ends one has been refused
              have plain : keyword.text ∉ continuationKeywords ++ endKeywords := by
                rw [List.mem_append, not_or]
                exact ⟨goes, fun hend => stays (.inr hend)⟩
              exact ⟨r.block hnode plain, r.body hb⟩
    · cases h

theorem block_succ (f : w.Faithful) (r : Writing w n) {opener : Token}
    (h : Reader.block (n + 1) opener ts = .ok (node, rest))
    (plain : opener.text ∉ continuationKeywords ++ endKeywords) : node.WellFormed w := by
  by_cases hfor : opener.text = "for"
  · rw [block_loop hfor] at h
    obtain ⟨⟨target, ts₁⟩, -, h⟩ := exists_of_bind_ok h
    obtain ⟨⟨_, ts₂⟩, -, h⟩ := exists_of_bind_ok h
    obtain ⟨⟨items, ts₃⟩, hitems, h⟩ := exists_of_bind_ok h
    obtain ⟨⟨_, ts₄⟩, -, h⟩ := exists_of_bind_ok h
    obtain ⟨b, hb, h⟩ := exists_of_bind_ok h
    obtain ⟨⟨ns, _, ts₅⟩, hns, h⟩ := exists_of_bind_ok h
    obtain ⟨⟨ms, _, ts₆⟩, hms, h⟩ := exists_of_bind_ok h
    obtain ⟨ts₇, -, h⟩ := exists_of_bind_ok h
    cases h
    exact ⟨expression_wellFormed f hitems, r.closed hb hns, r.lastBody hms⟩
  by_cases hif : opener.text = "if"
  · rw [block_choice hif] at h
    obtain ⟨⟨test, ts₁⟩, htest, h⟩ := exists_of_bind_ok h
    obtain ⟨⟨_, ts₂⟩, -, h⟩ := exists_of_bind_ok h
    obtain ⟨b, hb, h⟩ := exists_of_bind_ok h
    obtain ⟨⟨ns, _, ts₃⟩, hns, h⟩ := exists_of_bind_ok h
    obtain ⟨⟨bs, _, ts₄⟩, hbs, h⟩ := exists_of_bind_ok h
    obtain ⟨⟨ms, _, ts₅⟩, hms, h⟩ := exists_of_bind_ok h
    obtain ⟨ts₆, -, h⟩ := exists_of_bind_ok h
    cases h
    exact ⟨expression_wellFormed f htest, r.closed hb hns, r.branches hbs, r.lastBody hms⟩
  rw [Reader.block, if_neg hfor, if_neg hif] at h
  split at h
  · obtain ⟨⟨bound, ts₁⟩, hbound, h⟩ := exists_of_bind_ok h
    dsimp only at h
    split at h
    · cases h
    · next some =>
      obtain ⟨⟨_, ts₂⟩, -, h⟩ := exists_of_bind_ok h
      obtain ⟨b, hb, h⟩ := exists_of_bind_ok h
      obtain ⟨⟨ns, _, ts₃⟩, hns, h⟩ := exists_of_bind_ok h
      obtain ⟨ts₄, -, h⟩ := exists_of_bind_ok h
      cases h
      exact ⟨by simpa using some, bindings_wellFormed f hbound, r.closed hb hns⟩
  · next hwith =>
    split at h
    · obtain ⟨⟨target, ts₁⟩, -, h⟩ := exists_of_bind_ok h
      obtain ⟨⟨_, ts₂⟩, -, h⟩ := exists_of_bind_ok h
      obtain ⟨⟨value, ts₃⟩, hvalue, h⟩ := exists_of_bind_ok h
      obtain ⟨⟨_, ts₄⟩, -, h⟩ := exists_of_bind_ok h
      cases h
      exact expression_wellFormed f hvalue
    · next hset =>
      obtain ⟨⟨parts, ts₁⟩, hparts, h⟩ := exists_of_bind_ok h
      obtain ⟨⟨_, ts₂⟩, -, h⟩ := exists_of_bind_ok h
      cases h
      have free : opener.text ∉ reservedNames := by
        rw [List.mem_append, not_or] at plain
        simp [reservedNames, hfor, hif, hwith, hset, plain]
      exact ⟨free, callParts_wellFormed f hparts⟩

theorem branches_succ (f : w.Faithful) (r : Writing w n) {opener terminator last : Token}
    {bs : List (Branch Atom)}
    (h : Reader.branches (n + 1) opener terminator ts = .ok (bs, last, rest)) :
    Branch.AllWellFormed w bs := by
  rw [Reader.branches] at h
  split at h
  · obtain ⟨⟨test, ts₁⟩, htest, h⟩ := exists_of_bind_ok h
    obtain ⟨⟨_, ts₂⟩, -, h⟩ := exists_of_bind_ok h
    obtain ⟨b, hb, h⟩ := exists_of_bind_ok h
    obtain ⟨⟨ns, _, ts₃⟩, hns, h⟩ := exists_of_bind_ok h
    obtain ⟨⟨bs, _, ts₄⟩, hbs, h⟩ := exists_of_bind_ok h
    cases h
    exact ⟨expression_wellFormed f htest, r.closed hb hns, r.branches hbs⟩
  · cases h
    trivial

/-- What is read can be written. -/
theorem all (f : w.Faithful) : ∀ n, Writing w n
  | 0 => zero
  | n + 1 =>
    { body := body_succ f (all f n)
      block := block_succ f (all f n)
      branches := branches_succ f (all f n) }

end Writing

end Reader

/-! ### Templates -/

/-- A tree that is read from tokens can be written. -/
theorem Tree.wellFormed_of_ofTokens (f : w.Faithful) {t : Tree Atom}
    (h : Tree.ofTokens ts = .ok t) : t.WellFormed w := by
  obtain ⟨b, hb, h⟩ := Reader.exists_of_bind_ok h
  split at h
  · cases h
  · cases h
    exact (Reader.Writing.all f _).body hb

/-- The printed form of a tree is read as it, up to places. -/
theorem Tree.ofTokens_printed {t : Tree Atom} (h : t.WellFormed w)
    (hts : ts.map Token.lexeme = t.printed w) :
    ∃ t', Tree.ofTokens ts = .ok t' ∧ t'.placeless = t.placeless := by
  obtain ⟨us, last, rfl, hus, hlast⟩ := List.map_eq_append_iff.mp hts
  obtain ⟨last, rfl, heof⟩ := List.map_eq_singleton_iff.mp hlast
  obtain ⟨ns, reads, same⟩ := Node.read_allPrinted t.body us h hus
  have hb : Reader.body (Reader.enough (us ++ [last])) [] (us ++ [last]) = .ok ⟨ns, none, [last]⟩ :=
    reads.eof (Token.lexeme_eq_iff.mp heof).1 (Nat.le_refl _)
  refine ⟨⟨⟨1, 0⟩, ns⟩, ?_, by rw [Tree.placeless, Tree.placeless, same]⟩
  rw [Tree.ofTokens, Reader.template, hb]
  rfl

/-! ### Numbers -/

/-- Numbers with all their digits. -/
def Numerals.exact : Numerals where
  int n := (intText? n).getD ""
  float := Binary64.exactText

theorem Numerals.exact_faithful : Numerals.exact.Faithful where
  int h := by
    obtain ⟨text, htext, hread⟩ := readInt_intText (natAbs_lt_of_readInt h)
    simpa [exact, htext] using hread
  float h := readFloat_exactText (canonical_of_readFloat h)

/-! ### The round trip -/

/-- Reading undoes printing: numbers can be written so that every number that is read is read back;
however they are written, a tree that can be written is read from its printed form, up to places;
and if they are written so, then every tree that is read can be written, and is read again from
its printed form. -/
theorem Tree.round_trip : (∃ w : Numerals, w.Faithful) ∧ ∀ w : Numerals,
    (∀ (t : Tree Atom) (ts : List Token), t.WellFormed w → ts.map Token.lexeme = t.printed w →
      ∃ t', Tree.ofTokens ts = .ok t' ∧ t'.placeless = t.placeless) ∧
    (w.Faithful → ∀ (ts : List Token) (t : Tree Atom), Tree.ofTokens ts = .ok t →
      t.WellFormed w ∧ ∀ ts' : List Token, ts'.map Token.lexeme = t.printed w →
        ∃ t', Tree.ofTokens ts' = .ok t' ∧ t'.placeless = t.placeless) := by
  refine ⟨⟨Numerals.exact, Numerals.exact_faithful⟩, fun w => ⟨?_, ?_⟩⟩
  · intro t ts h hts
    exact Tree.ofTokens_printed h hts
  · intro f ts t h
    have hwf := Tree.wellFormed_of_ofTokens f h
    exact ⟨hwf, fun ts' hts' => Tree.ofTokens_printed hwf hts'⟩

/-- A tag that is called with a variable `as`, a filtered `not` and two numbers, and whose target
bears the name of a keyword, in the body of a loop. -/
def captured : Tree Atom :=
  ⟨.start, [.loop .start "in" (.member .start (.name .start "end") "0")
    [.call .start "show"
      [.name .start "as", .filter .start (.not .start (.name .start "x")) "f" []]
      [("n", .const .start (.int (-7))),
       ("f", .const .start (.float (.finite false (2 ^ 52) (-53))))]
      (some "empty")] []]⟩

theorem Tree.round_trip_captured : captured.WellFormed Numerals.exact ∧
    ∃ t, Tree.ofTokens ((captured.printed Numerals.exact).map fun l => ⟨l.1, l.2, .start⟩) = .ok t ∧
      t.placeless = captured ∧ t.WellFormed Numerals.exact := by
  have hcanonical : (Binary64.finite false (2 ^ 52) (-53)).Canonical :=
    ⟨by decide, by decide, by decide, by decide⟩
  have hseven : readInt (Numerals.exact.int (-7)) = .ok (-7) := by decide
  have hhalf := readFloat_exactText hcanonical
  have hwf : captured.WellFormed Numerals.exact := by
    simp only [captured, Tree.WellFormed, Node.AllWellFormed, Node.WellFormed, Expr.AllWellFormed,
      Expr.WellFormed, Expr.NamedWellFormed, Expr.IsPath, Numerals.Reads, and_true, true_and]
    exact ⟨⟨by decide, by decide⟩, by decide, ⟨⟨by decide, by decide⟩, by decide, by decide⟩,
      hseven, hhalf⟩
  have hts : ((captured.printed Numerals.exact).map fun l => (⟨l.1, l.2, .start⟩ : Token)).map
      Token.lexeme = captured.printed Numerals.exact := by
    simp [Token.lexeme, Function.comp_def]
  obtain ⟨t, ht, same⟩ := (Tree.round_trip.2 Numerals.exact).1 captured _ hwf hts
  obtain ⟨again, -⟩ := (Tree.round_trip.2 Numerals.exact).2 Numerals.exact_faithful _ t ht
  exact ⟨hwf, t, ht, same, again⟩

end Stencil
