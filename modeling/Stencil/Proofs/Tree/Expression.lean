/-
Stencil/Proofs/Tree/Expression.lean

The reader of expressions accepts its grammar, no more and no less.

What it reads is derived by the tokens it used (`Reading.sound`): induction on the steps that are
left, one lemma for each reader.  What a prefix derives is read, unless the token behind it could
go on with it (`Derives.reads`): induction on the derivation.  The readers of paths and of filters
take what was read so far as an argument, so their statements speak of what is read in addition.

A reader needs two steps for a token, and each statement on what is read asks for that many
(`Enough`), so that it can be used at any place of the reader.
-/
import Stencil.Proofs.Tree.Grammar

namespace Stencil.Grammar

variable {ts rest used : List Token} {t : Token} {e e' value : Expr Atom} {n : Nat}

/-! ### What is read is derived -/

theorem path_sound (h : Reader.path e ts = .ok (e', rest)) (d : Derives used (.path e)) :
    ∃ more, ts = more ++ rest ∧ Derives (used ++ more) (.path e') := by
  induction e, ts using Reader.path.induct generalizing used with
  | case1 e => simp [Reader.path] at h
  | case2 e t hdot => simp [Reader.path, hdot] at h
  | case3 e t hdot =>
    obtain ⟨rfl, rfl⟩ : e = e' ∧ [t] = rest := by simpa [Reader.path, hdot] using h
    exact ⟨[], rfl, by simpa using d⟩
  | case4 e t segment ts hdot hs ih =>
    rw [Reader.path, if_pos hdot, if_pos hs] at h
    obtain ⟨more, rfl, d'⟩ := ih h (d.segment hdot hs)
    exact ⟨t :: segment :: more, rfl, by simpa using d'⟩
  | case5 e t segment ts hdot hs => simp [Reader.path, hdot, hs] at h
  | case6 e t segment ts hdot =>
    rw [Reader.path, if_neg hdot] at h
    obtain ⟨rfl, rfl⟩ : e = e' ∧ t :: segment :: ts = rest := by simpa using h
    exact ⟨[], rfl, by simpa using d⟩

/-- What is read with `n` steps is derived by the tokens that were used. -/
structure Reading (n : Nat) : Prop where
  expression : ∀ {ts rest e}, Reader.expression n ts = .ok (e, rest) →
    ∃ used, ts = used ++ rest ∧ Derives used (.expression e)
  primary : ∀ {ts rest e}, Reader.primary n ts = .ok (e, rest) →
    ¬ (∃ t ∈ ts.head?, t.IsWord "not") →
    ∃ used, ts = used ++ rest ∧ Derives used (.primary e)
  filters : ∀ {ts rest used value e}, Reader.filters n value ts = .ok (e, rest) →
    Derives used (.filtered value) →
    ∃ more, ts = more ++ rest ∧ Derives (used ++ more) (.filtered e)
  arguments : ∀ {ts rest args}, Reader.arguments n ts = .ok (args, rest) →
    ∃ used closing, ts = used ++ closing :: rest ∧ closing.kind = .rightParen ∧
      Derives used (.arguments args)

namespace Reading

theorem zero : Reading 0 where
  expression h := by simp [Reader.expression] at h
  primary h := by simp [Reader.primary] at h
  filters h := by simp [Reader.filters] at h
  arguments h := by simp [Reader.arguments] at h

theorem expression_succ (r : Reading n) (h : Reader.expression (n + 1) ts = .ok (e, rest)) :
    ∃ used, ts = used ++ rest ∧ Derives used (.expression e) := by
  cases ts with
  | nil => simp [Reader.expression] at h
  | cons t ts =>
    rw [Reader.expression] at h
    split at h
    · next mark =>
      split at h
      · cases h
      · next operand left hx =>
        obtain ⟨rfl, rfl⟩ : Expr.not t.position operand = e ∧ left = rest := by simpa using h
        obtain ⟨used, rfl, d⟩ := r.expression hx
        exact ⟨t :: used, rfl, d.negation mark⟩
    · next mark =>
      split at h
      · cases h
      · next value left hp =>
        obtain ⟨used, hused, d⟩ := r.primary hp (by simpa [Token.IsWord] using mark)
        obtain ⟨more, rfl, d'⟩ := r.filters h d.primary
        exact ⟨used ++ more, by rw [hused, List.append_assoc], d'.filtered⟩

theorem primary_succ (r : Reading n) (h : Reader.primary (n + 1) ts = .ok (e, rest))
    (plain : ¬ ∃ t ∈ ts.head?, t.IsWord "not") :
    ∃ used, ts = used ++ rest ∧ Derives used (.primary e) := by
  cases ts with
  | nil => simp [Reader.primary] at h
  | cons t ts =>
    rw [Reader.primary] at h
    split at h
    · next a hl =>
      obtain ⟨rfl, rfl⟩ : Expr.const t.position a = e ∧ ts = rest := by simpa using h
      exact ⟨[t], rfl, .literal (literal?_eq_ok_iff.mp hl)⟩
    · cases h
    · next hl =>
      split at h
      · next kind =>
        -- the reader of expressions has taken every `not` before
        have notNot : t.text ≠ "not" := fun text => plain ⟨t, rfl, kind, text⟩
        obtain ⟨more, rfl, d⟩ := path_sound h (.name kind (literalWord?_eq_none hl kind) notNot)
        exact ⟨t :: more, rfl, d.dotted⟩
      · split at h
        · next hopen =>
          rcases hx : Reader.expression n ts with f | ⟨inner, left⟩
          · simp [hx] at h
          · rw [hx] at h
            obtain ⟨used, rfl, d⟩ := r.expression hx
            rcases left with - | ⟨closing, left⟩
            · simp [Reader.expect] at h
            · by_cases hclose : closing.kind = .rightParen
              · obtain ⟨rfl, rfl⟩ : inner = e ∧ left = rest := by
                  simpa [Reader.expect, hclose] using h
                exact ⟨t :: (used ++ [closing]), by simp, d.group hopen hclose⟩
              · simp [Reader.expect, hclose] at h
        · cases h

theorem filters_succ (r : Reading n) (h : Reader.filters (n + 1) value ts = .ok (e, rest))
    (d : Derives used (.filtered value)) :
    ∃ more, ts = more ++ rest ∧ Derives (used ++ more) (.filtered e) := by
  cases ts with
  | nil => simp [Reader.filters] at h
  | cons pipe ts =>
    by_cases hpipe : pipe.kind = .pipe
    · rcases ts with - | ⟨name, ts⟩
      · simp [Reader.filters, hpipe, Reader.expect] at h
      · by_cases hname : name.kind = .name
        · rcases ts with - | ⟨next, ts⟩
          · simp [Reader.filters, hpipe, Reader.expect, hname] at h
          · by_cases hopen : next.kind = .leftParen
            · rcases ha : Reader.arguments n ts with f | ⟨args, left⟩
              · simp [Reader.filters, hpipe, Reader.expect, hname, hopen, ha] at h
              · obtain ⟨mid, closing, rfl, hclose, da⟩ := r.arguments ha
                have h' : Reader.filters n (.filter pipe.position value name.text args) left
                    = .ok (e, rest) := by
                  simpa [Reader.filters, hpipe, Reader.expect, hname, hopen, ha] using h
                obtain ⟨more, rfl, d'⟩ :=
                  r.filters h' (d.apply (.applied hpipe hname hopen da hclose))
                exact ⟨pipe :: name :: next :: (mid ++ [closing]) ++ more, by simp,
                  by simpa using d'⟩
            · have h' : Reader.filters n (.filter pipe.position value name.text []) (next :: ts)
                  = .ok (e, rest) := by
                simpa [Reader.filters, hpipe, Reader.expect, hname, hopen] using h
              obtain ⟨more, hmore, d'⟩ := r.filters h' (d.apply (.bare hpipe hname))
              exact ⟨pipe :: name :: more, by simp [hmore], by simpa using d'⟩
        · simp [Reader.filters, hpipe, Reader.expect, hname] at h
    · obtain ⟨rfl, rfl⟩ : value = e ∧ pipe :: ts = rest := by
        simpa [Reader.filters, hpipe] using h
      exact ⟨[], rfl, by simpa using d⟩

theorem arguments_succ (r : Reading n) {args : List (Expr Atom)}
    (h : Reader.arguments (n + 1) ts = .ok (args, rest)) :
    ∃ used closing, ts = used ++ closing :: rest ∧ closing.kind = .rightParen ∧
      Derives used (.arguments args) := by
  cases ts with
  | nil => simp [Reader.arguments] at h
  | cons t ts =>
    by_cases hend : t.kind = .rightParen
    · obtain ⟨rfl, rfl⟩ : [] = args ∧ ts = rest := by simpa [Reader.arguments, hend] using h
      exact ⟨[], t, rfl, hend, .nothing⟩
    · rcases hx : Reader.expression n (t :: ts) with f | ⟨arg, left⟩
      · simp [Reader.arguments, hend, hx] at h
      · obtain ⟨used, hused, dx⟩ := r.expression hx
        rcases left with - | ⟨next, left⟩
        · simp [Reader.arguments, hend, hx] at h
        · by_cases hcomma : next.kind = .comma
          · rcases ha : Reader.arguments n left with f | ⟨others, after⟩
            · simp [Reader.arguments, hend, hx, hcomma, ha] at h
            · obtain ⟨rfl, rfl⟩ : arg :: others = args ∧ after = rest := by
                simpa [Reader.arguments, hend, hx, hcomma, ha] using h
              obtain ⟨mid, closing, rfl, hclose, da⟩ := r.arguments ha
              refine ⟨used ++ next :: mid, closing, by simp [hused], hclose, ?_⟩
              -- the comma is the last token, or another argument follows it
              cases da with
              | nothing => exact .trailing (.last dx) hcomma
              | listed s => exact .listed (.more dx hcomma s)
              | trailing s hlast =>
                have d := Derives.trailing (.more dx hcomma s) hlast
                simpa using d
          · by_cases hclose : next.kind = .rightParen
            · obtain ⟨rfl, rfl⟩ : [arg] = args ∧ left = rest := by
                simpa [Reader.arguments, hend, hx, hcomma, hclose] using h
              exact ⟨used, next, hused, hclose, .listed (.last dx)⟩
            · simp [Reader.arguments, hend, hx, hcomma, hclose] at h

/-- What is read is derived, with however many steps: induction on the steps. -/
theorem sound : ∀ n, Reading n
  | 0 => zero
  | n + 1 =>
    { expression := (sound n).expression_succ
      primary := (sound n).primary_succ
      filters := (sound n).filters_succ
      arguments := (sound n).arguments_succ }

end Reading

/-! ### What is derived is read -/

/-- The steps suffice for the tokens. -/
def Enough (n : Nat) (ts : List Token) : Prop := Reader.enough ts ≤ n

/-- A token that no expression in front of it could go on with. -/
structure Ends (t : Token) : Prop where
  notDot : t.kind ≠ .dot
  notPipe : t.kind ≠ .pipe
  notOpen : t.kind ≠ .leftParen

theorem Enough.steps (h : Enough n ts) : ∃ m, n = m + 2 :=
  Nat.exists_eq_add_of_le' (Nat.le_of_add_left_le h)

theorem Enough.succ (h : Enough n ts) : Enough (n + 1) ts := Nat.le_succ_of_le h

theorem Enough.mono (h : Enough n ts) (hle : used.length ≤ ts.length) : Enough n used :=
  Nat.le_trans (Nat.add_le_add_right (Nat.mul_le_mul_left 2 hle) 2) h

/-- A token less needs two steps less. -/
theorem Enough.behind (h : Enough (n + 2) ts) (hlt : used.length < ts.length) : Enough n used := by
  simp only [Enough, Reader.enough] at h ⊢
  omega

/-- How a phrase is read in front of other tokens.  Readers that go on with what was read so far are
shown to come to the same as with the phrase added. -/
def Phrase.Read (ts : List Token) : Phrase → Prop
  | expression e => ∀ {n t rest}, Enough n (ts ++ t :: rest) → Ends t →
      Reader.expression n (ts ++ t :: rest) = .ok (e, t :: rest)
  | filtered e => ∀ {n t rest}, Enough (n + 1) (ts ++ t :: rest) → t.kind ≠ .dot →
      t.kind ≠ .leftParen →
      ∃ m value mid, Enough m (t :: rest) ∧
        Reader.primary n (ts ++ t :: rest) = .ok (value, mid) ∧
        Reader.filters n value mid = Reader.filters m e (t :: rest)
  | call place name args => ∀ {n value t rest}, Enough n (ts ++ t :: rest) → t.kind ≠ .leftParen →
      ∃ m, Enough m (t :: rest) ∧ Reader.filters n value (ts ++ t :: rest)
        = Reader.filters m (.filter place value name args) (t :: rest)
  | arguments args => ∀ {n closing rest}, Enough n (ts ++ closing :: rest) →
      closing.kind = .rightParen →
      Reader.arguments (n + 1) (ts ++ closing :: rest) = .ok (args, rest)
  | series args => ∀ {n closing rest}, closing.kind = .rightParen →
      (Enough n (ts ++ closing :: rest) →
        Reader.arguments (n + 1) (ts ++ closing :: rest) = .ok (args, rest)) ∧
      ∀ {comma}, comma.kind = .comma → Enough n (ts ++ comma :: closing :: rest) →
        Reader.arguments (n + 1) (ts ++ comma :: closing :: rest) = .ok (args, rest)
  | primary e => ∀ {n t rest}, Enough (n + 1) (ts ++ t :: rest) → t.kind ≠ .dot →
      Reader.primary n (ts ++ t :: rest) = .ok (e, t :: rest)
  | path e => ∃ t more, ts = t :: more ∧ t.kind = .name ∧ Reader.literalWord? t.text = none ∧
      ∀ {rest}, Reader.path (.name t.position t.text) (more ++ rest) = Reader.path e rest

theorem path_closed (h : t.kind ≠ .dot) : Reader.path e (t :: rest) = .ok (e, t :: rest) := by
  cases rest <;> simp [Reader.path, h]

theorem filters_closed (h : t.kind ≠ .pipe) (enough : Enough n (t :: rest)) :
    Reader.filters n e (t :: rest) = .ok (e, t :: rest) := by
  obtain ⟨n, rfl⟩ := enough.steps
  simp [Reader.filters, h]

theorem ends_of_comma {t : Token} (h : t.kind = .comma) : Ends t := by
  constructor <;> simp [h]

theorem ends_of_rightParen {t : Token} (h : t.kind = .rightParen) : Ends t := by
  constructor <;> simp [h]

theorem read_negation (mark : t.IsWord "not") (ih : Phrase.Read ts (.expression e)) :
    Phrase.Read (t :: ts) (.expression (.not t.position e)) := by
  intro n next rest enough ends
  obtain ⟨n, rfl⟩ := enough.steps
  have hx : Reader.expression (n + 1) (ts ++ next :: rest) = .ok (e, next :: rest) :=
    ih (enough.behind (Nat.lt_succ_self _)).succ ends
  have hmark : t.kind = .name ∧ t.text = "not" := mark
  rw [List.cons_append, Reader.expression, if_pos hmark, hx]

theorem read_filtered (f : Derives ts (.filtered e)) (ih : Phrase.Read ts (.filtered e)) :
    Phrase.Read ts (.expression e) := by
  intro n next rest enough ends
  obtain ⟨n, rfl⟩ := enough.steps
  obtain ⟨m, value, mid, hm, hp, hf⟩ := ih (n := n + 1) enough ends.notDot ends.notOpen
  obtain ⟨t, ts, rfl, -, plain⟩ := f.begins
  have hplain : ¬ (t.kind = .name ∧ t.text = "not") := plain
  rw [List.cons_append] at hp ⊢
  rw [Reader.expression, if_neg hplain, hp]
  exact hf.trans (filters_closed ends.notPipe hm)

theorem read_primary (p : Derives ts (.primary e)) (ih : Phrase.Read ts (.primary e)) :
    Phrase.Read ts (.filtered e) := by
  intro n next rest enough hdot _
  obtain ⟨t, ts, rfl, -⟩ := p.begins
  exact ⟨n, e, next :: rest, enough.succ.behind (by simp +arith), ih enough hdot, rfl⟩

theorem read_apply {us : List Token} {place : Position} {name : String} {args : List (Expr Atom)}
    (c : Derives us (.call place name args)) (ihf : Phrase.Read ts (.filtered e))
    (ihc : Phrase.Read us (.call place name args)) :
    Phrase.Read (ts ++ us) (.filtered (.filter place e name args)) := by
  intro n next rest enough _ hopen
  obtain ⟨pipe, more, rfl, hpipe⟩ := c.begins
  rw [List.append_assoc, List.cons_append] at enough ⊢
  obtain ⟨m, value, mid, hm, hp, hf⟩ := ihf enough (by simp [hpipe]) (by simp [hpipe])
  obtain ⟨m', hm', hf'⟩ := @ihc m e next rest hm hopen
  exact ⟨m', value, mid, hm', hp, hf.trans hf'⟩

theorem read_bare {pipe name : Token} (hpipe : pipe.kind = .pipe) (hname : name.kind = .name) :
    Phrase.Read [pipe, name] (.call pipe.position name.text []) := by
  intro n value next rest enough hopen
  obtain ⟨n, rfl⟩ := enough.steps
  refine ⟨n + 1, (enough.behind (by simp)).succ, ?_⟩
  simp [Reader.filters, Reader.expect, hpipe, hname, hopen]

theorem read_applied {pipe name opening closing : Token} {args : List (Expr Atom)}
    (hpipe : pipe.kind = .pipe) (hname : name.kind = .name) (hopen : opening.kind = .leftParen)
    (hclose : closing.kind = .rightParen) (ih : Phrase.Read ts (.arguments args)) :
    Phrase.Read (pipe :: name :: opening :: (ts ++ [closing]))
      (.call pipe.position name.text args) := by
  intro n value next rest enough _
  obtain ⟨n, rfl⟩ := enough.steps
  have ha : Reader.arguments (n + 1) (ts ++ closing :: next :: rest) = .ok (args, next :: rest) :=
    ih (enough.behind (by simp +arith)) hclose
  refine ⟨n + 1, (enough.behind (by simp +arith)).succ, ?_⟩
  simp [Reader.filters, Reader.expect, hpipe, hname, hopen, ha]

theorem read_nothing : Phrase.Read [] (.arguments []) := by
  intro n closing rest _ hclose
  simp [Reader.arguments, hclose]

theorem read_trailing {comma : Token} {args : List (Expr Atom)} (hcomma : comma.kind = .comma)
    (ih : Phrase.Read ts (.series args)) : Phrase.Read (ts ++ [comma]) (.arguments args) := by
  intro n closing rest enough hclose
  rw [List.append_assoc] at enough ⊢
  exact (ih hclose).2 hcomma enough

/-- Behind an argument and a comma the arguments go on, behind an argument and a closing parenthesis
they end. -/
theorem arguments_expression {next : Token} (x : Derives ts (.expression e))
    (ih : Phrase.Read ts (.expression e)) (ends : Ends next)
    (enough : Enough n (ts ++ next :: rest)) :
    Reader.arguments (n + 1) (ts ++ next :: rest) =
      if next.kind = .comma then (Reader.arguments n rest).map fun r => (e :: r.1, r.2)
      else if next.kind = .rightParen then .ok ([e], rest)
      else .error (.grammatical .filterArguments next) := by
  have hx : Reader.expression n (ts ++ next :: rest) = .ok (e, next :: rest) := ih enough ends
  obtain ⟨t, ts, rfl, hfirst⟩ := x.begins
  have hopen : t.kind ≠ .rightParen := fun ht => by
    rw [ht] at hfirst
    exact absurd hfirst (by decide)
  rw [List.cons_append] at hx ⊢
  rw [Reader.arguments, if_neg hopen, hx]
  simp only
  split
  · rcases Reader.arguments n rest with f | ⟨args, rest⟩ <;> rfl
  · rfl

theorem arguments_last {closing : Token} (x : Derives ts (.expression e))
    (ih : Phrase.Read ts (.expression e)) (hclose : closing.kind = .rightParen)
    (enough : Enough n (ts ++ closing :: rest)) :
    Reader.arguments (n + 1) (ts ++ closing :: rest) = .ok ([e], rest) := by
  rw [arguments_expression x ih (ends_of_rightParen hclose) enough]
  simp [hclose]

theorem arguments_more {comma : Token} (x : Derives ts (.expression e))
    (ih : Phrase.Read ts (.expression e)) (hcomma : comma.kind = .comma)
    (enough : Enough n (ts ++ comma :: rest)) :
    ∃ m, Enough m rest ∧ Reader.arguments (n + 1) (ts ++ comma :: rest)
      = (Reader.arguments (m + 1) rest).map fun r => (e :: r.1, r.2) := by
  rw [arguments_expression x ih (ends_of_comma hcomma) enough, if_pos hcomma]
  obtain ⟨m, rfl⟩ := enough.steps
  exact ⟨m + 1, (enough.behind (by simp +arith)).succ, rfl⟩

theorem read_last (x : Derives ts (.expression e)) (ih : Phrase.Read ts (.expression e)) :
    Phrase.Read ts (.series [e]) := by
  intro n closing rest hclose
  refine ⟨arguments_last x ih hclose, fun hcomma enough => ?_⟩
  obtain ⟨m, hm, h⟩ := arguments_more x ih hcomma enough
  have hnothing : Reader.arguments (m + 1) (closing :: rest) = .ok ([], rest) :=
    read_nothing hm hclose
  rw [h, hnothing]
  rfl

theorem read_more {us : List Token} {comma : Token} {args : List (Expr Atom)}
    (x : Derives ts (.expression e)) (hcomma : comma.kind = .comma)
    (ihx : Phrase.Read ts (.expression e)) (ihs : Phrase.Read us (.series args)) :
    Phrase.Read (ts ++ comma :: us) (.series (e :: args)) := by
  intro n closing rest hclose
  constructor
  · intro enough
    rw [List.append_assoc, List.cons_append] at enough ⊢
    obtain ⟨m, hm, h⟩ := arguments_more x ihx hcomma enough
    rw [h, (ihs hclose).1 hm]
    rfl
  · intro last hlast enough
    rw [List.append_assoc, List.cons_append] at enough ⊢
    obtain ⟨m, hm, h⟩ := arguments_more x ihx hcomma enough
    rw [h, (ihs hclose).2 hlast hm]
    rfl

theorem read_literal {a : Atom} (h : Literal t a) :
    Phrase.Read [t] (.primary (.const t.position a)) := by
  intro n next rest enough _
  obtain ⟨m, hm⟩ := enough.steps
  obtain rfl := Nat.succ.inj hm
  simp [Reader.primary, literal?_eq_ok_iff.mpr h]

theorem read_dotted (ih : Phrase.Read ts (.path e)) : Phrase.Read ts (.primary e) := by
  intro n next rest enough hdot
  obtain ⟨t, more, rfl, kind, plain, reads⟩ := ih
  obtain ⟨m, hm⟩ := enough.steps
  obtain rfl := Nat.succ.inj hm
  rw [List.cons_append, Reader.primary, literal?_eq_none kind plain]
  simp only [if_pos kind]
  rw [reads, path_closed hdot]

theorem read_group {opening closing : Token} (hopen : opening.kind = .leftParen)
    (hclose : closing.kind = .rightParen) (ih : Phrase.Read ts (.expression e)) :
    Phrase.Read (opening :: (ts ++ [closing])) (.primary e) := by
  intro n next rest enough _
  obtain ⟨m, hm⟩ := enough.steps
  obtain rfl := Nat.succ.inj hm
  have hx : Reader.expression m (ts ++ closing :: next :: rest)
      = .ok (e, closing :: next :: rest) :=
    ih (enough.behind (by simp +arith)) (ends_of_rightParen hclose)
  simp [Reader.primary, Reader.literal?, hopen, hx, Reader.expect, hclose]

theorem read_segment {dot s : Token} (hdot : dot.kind = .dot)
    (hs : s.kind = .name ∨ s.kind = .integer)
    (ih : Phrase.Read ts (.path e)) :
    Phrase.Read (ts ++ [dot, s]) (.path (.member s.position e s.text)) := by
  obtain ⟨t, more, rfl, kind, plain, reads⟩ := ih
  refine ⟨t, more ++ [dot, s], rfl, kind, plain, fun {rest} => ?_⟩
  rw [List.append_assoc, reads]
  simp [Reader.path, hdot, hs]

/-- What tokens derive is read from them: induction on the derivation. -/
theorem Derives.read {p : Phrase} (d : Derives ts p) : p.Read ts := by
  induction d with
  | negation mark _ ih => exact read_negation mark ih
  | filtered f ih => exact read_filtered f ih
  | primary p ih => exact read_primary p ih
  | apply _ c ihf ihc => exact read_apply c ihf ihc
  | bare hpipe hname => exact read_bare hpipe hname
  | applied hpipe hname hopen _ hclose ih => exact read_applied hpipe hname hopen hclose ih
  | nothing => exact read_nothing
  | listed _ ih => exact fun enough hclose => (ih hclose).1 enough
  | trailing _ hcomma ih => exact read_trailing hcomma ih
  | last x ih => exact read_last x ih
  | more x hcomma _ ihx ihs => exact read_more x hcomma ihx ihs
  | literal h => exact read_literal h
  | dotted _ ih => exact read_dotted ih
  | group hopen _ hclose ih => exact read_group hopen hclose ih
  | name kind plain => exact ⟨_, [], rfl, kind, plain, rfl⟩
  | segment _ hdot hs ih => exact read_segment hdot hs ih

/-! ### One tree for some tokens -/

theorem ends_of_eof (h : t.kind = .eof) : Ends t := by
  constructor <;> simp [h]

/-- The tokens of an expression derive one tree only. -/
theorem Expression.unique (d : Expression ts e) (d' : Expression ts e') : e = e' := by
  -- both trees are read in front of a token that no expression goes on with
  let stop : Token := ⟨.eof, "", .start⟩
  have ends : Ends stop := ends_of_eof rfl
  have h : Reader.expression (Reader.enough (ts ++ [stop])) (ts ++ [stop]) = .ok (e, [stop]) :=
    Derives.read d (Nat.le_refl _) ends
  have h' : Reader.expression (Reader.enough (ts ++ [stop])) (ts ++ [stop]) = .ok (e', [stop]) :=
    Derives.read d' (Nat.le_refl _) ends
  rw [h] at h'
  exact (Prod.mk.inj (Except.ok.inj h')).1

/-- A word `not` takes the whole expression behind it. -/
theorem Expression.of_not {mark : Token} (h : mark.IsWord "not") (d : Expression (mark :: ts) e) :
    ∃ operand, e = .not mark.position operand ∧ Expression ts operand := by
  generalize hts : mark :: ts = us at d
  cases d with
  | negation _ operand =>
    obtain ⟨rfl, rfl⟩ := List.cons.inj hts
    exact ⟨_, rfl, operand⟩
  | filtered f =>
    obtain ⟨t, more, rfl, -, plain⟩ := f.begins
    obtain rfl := (List.cons.inj hts).1
    exact absurd h plain

theorem drop_eq_extract_append {i j : Nat} (h : i ≤ j) :
    ts.drop i = ts.extract i j ++ ts.drop j := by
  have hdrop : (ts.drop i).drop (j - i) = ts.drop j := by
    rw [List.drop_drop, Nat.add_sub_cancel' h]
  rw [List.extract_eq_take_drop, ← hdrop, List.take_append_drop]

/-- What an expression leaves of a list of tokens is the list from a place on, and the tokens at
the end of the list are left. -/
theorem exists_stop {i : Nat} (closed : ∃ t ∈ ts.getLast?, t.kind = .eof)
    (d : Expression used e) (h : ts.drop i = used ++ rest) :
    ∃ j < ts.length, i ≤ j ∧ rest = ts.drop j ∧ used = ts.extract i j := by
  refine ⟨i + used.length, ?_, Nat.le_add_right .., ?_, ?_⟩
  · obtain ⟨t, hlast, hkind⟩ := closed
    -- the closing token is not used up by an expression
    have hrest : rest ≠ [] := by
      rintro rfl
      obtain ⟨first, more, rfl, -⟩ := d.begins
      rw [List.append_nil] at h
      have hmem : t ∈ first :: more := by
        rw [← h]
        refine List.mem_of_getLast? ?_
        rw [List.getLast?_drop, if_neg, hlast]
        intro hle
        simp [List.drop_eq_nil_of_le hle] at h
      have := d.kind_mem t hmem
      rw [hkind] at this
      exact absurd this (by decide)
    have hlen := congrArg List.length h
    have hpos := List.length_pos_iff.mpr hrest
    simp at hlen
    omega
  · rw [← List.drop_drop, h, List.drop_left]
  · rw [List.extract_eq_take_drop, h, Nat.add_sub_cancel_left, List.take_left]

/-- The reader of expressions accepts its grammar.  In a list of tokens that ends with its closing
token it reads, from any place on, only what the tokens that it used derive; and what the tokens up
to another place derive, when the token there is no dot, pipe or opening parenthesis, it reads
exactly.  So no tokens derive two trees, a word `not` applies to an expression with all of its
filters, and a filter applies to all that stands in front of it. -/
theorem expression_exact {tokens : List Token} (closed : ∃ t ∈ tokens.getLast?, t.kind = .eof)
    (i : Nat) :
    (∀ n e rest, Reader.expression n (tokens.drop i) = .ok (e, rest) →
      ∃ j < tokens.length, i ≤ j ∧ rest = tokens.drop j ∧ Expression (tokens.extract i j) e) ∧
    (∀ n e j t, Reader.enough (tokens.drop i) ≤ n → i ≤ j → tokens[j]? = some t → Ends t →
      Expression (tokens.extract i j) e →
      Reader.expression n (tokens.drop i) = .ok (e, tokens.drop j)) ∧
    (∀ e e' j j' t t', i ≤ j → i ≤ j' → tokens[j]? = some t → Ends t → tokens[j']? = some t' →
      Ends t' → Expression (tokens.extract i j) e → Expression (tokens.extract i j') e' →
      j = j' ∧ e = e') ∧
    (∀ ts e e', Expression ts e → Expression ts e' → e = e') ∧
    (∀ mark ts e, mark.IsWord "not" → Expression (mark :: ts) e →
      ∃ operand, e = .not mark.position operand ∧ Expression ts operand) ∧
    ∀ ts us value place name args e, Derives ts (.filtered value) →
      Derives us (.call place name args) → Expression (ts ++ us) e →
      e = .filter place value name args := by
  have complete : ∀ n e j t, Reader.enough (tokens.drop i) ≤ n → i ≤ j → tokens[j]? = some t →
      Ends t → Expression (tokens.extract i j) e →
      Reader.expression n (tokens.drop i) = .ok (e, tokens.drop j) := by
    intro n e j t enough hj ht ends d
    obtain ⟨hlt, rfl⟩ := List.getElem?_eq_some_iff.mp ht
    have hrest : tokens.drop j = tokens[j] :: tokens.drop (j + 1) := List.drop_eq_getElem_cons hlt
    rw [drop_eq_extract_append hj, hrest] at enough ⊢
    exact Derives.read d enough ends
  refine ⟨?_, complete, ?_, fun _ _ _ => Expression.unique, fun _ _ _ => Expression.of_not, ?_⟩
  · intro n e rest h
    obtain ⟨used, hused, d⟩ := (Reading.sound n).expression h
    obtain ⟨j, hj, hle, hrest, rfl⟩ := exists_stop closed d hused
    exact ⟨j, hj, hle, hrest, d⟩
  · intro e e' j j' t t' hj hj' ht ends ht' ends' d d'
    have h := complete _ e j t (Nat.le_refl _) hj ht ends d
    have h' := complete _ e' j' t' (Nat.le_refl _) hj' ht' ends' d'
    rw [h] at h'
    obtain ⟨rfl, hdrop⟩ := Prod.mk.inj (Except.ok.inj h')
    have hlen := congrArg List.length hdrop
    obtain ⟨hlt, -⟩ := List.getElem?_eq_some_iff.mp ht
    obtain ⟨hlt', -⟩ := List.getElem?_eq_some_iff.mp ht'
    simp at hlen
    exact ⟨by omega, rfl⟩
  · intro ts us value place name args e f c d
    exact d.unique (f.apply c).filtered

/-- The tokens of `not a.0 | f | g("s",)` in front of the end of a region. -/
def chained : List Token :=
  [⟨.name, "not", ⟨1, 3⟩⟩, ⟨.name, "a", ⟨1, 7⟩⟩, ⟨.dot, ".", ⟨1, 8⟩⟩, ⟨.integer, "0", ⟨1, 9⟩⟩,
   ⟨.pipe, "|", ⟨1, 11⟩⟩, ⟨.name, "f", ⟨1, 13⟩⟩, ⟨.pipe, "|", ⟨1, 15⟩⟩, ⟨.name, "g", ⟨1, 17⟩⟩,
   ⟨.leftParen, "(", ⟨1, 18⟩⟩, ⟨.string, "s", ⟨1, 19⟩⟩, ⟨.comma, ",", ⟨1, 22⟩⟩,
   ⟨.rightParen, ")", ⟨1, 23⟩⟩, ⟨.blockEnd, "%\x7d", ⟨1, 25⟩⟩, ⟨.eof, "", ⟨1, 27⟩⟩]

/-- Two filters in a chain below a `not`, the second with a comma behind its argument. -/
theorem expression_exact_chained :
    (∃ t ∈ chained.getLast?, t.kind = .eof) ∧
      Reader.expression (Reader.enough chained) chained =
        .ok (.not ⟨1, 3⟩ (.filter ⟨1, 15⟩ (.filter ⟨1, 11⟩ (.member ⟨1, 9⟩ (.name ⟨1, 7⟩ "a") "0")
          "f" []) "g" [.const ⟨1, 19⟩ (.str "s")]), chained.drop 12) := by
  have closed : ∃ t ∈ chained.getLast?, t.kind = .eof := ⟨_, rfl, rfl⟩
  have a : Derives [chained[1], chained[2], chained[3]] (.filtered _) :=
    .primary (.dotted (.segment (.name rfl rfl (by decide)) rfl (.inr rfl)))
  have f : Derives [chained[4], chained[5]] (.call _ "f" []) := .bare rfl rfl
  have s : Derives [chained[9], chained[10]] (.arguments _) :=
    .trailing (.last (.filtered (.primary (.literal (.string rfl))))) rfl
  have g : Derives (chained.extract 6 12) (.call _ "g" _) :=
    @Derives.applied chained[6] chained[7] chained[8] chained[11] _ _ rfl rfl rfl s rfl
  have d : Expression (chained.extract 0 12) _ :=
    .negation (t := chained[0]) ⟨rfl, rfl⟩ (.filtered ((a.apply f).apply g))
  exact ⟨closed, (expression_exact closed 0).2.1 _ _ 12 _ (Nat.le_refl _) (by decide) rfl
    ⟨by decide, by decide, by decide⟩ d⟩

end Stencil.Grammar
