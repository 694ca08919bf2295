/-
Stencil/Proofs/Tree/Outcome.lean

How the reading of tokens ends.  No reader uses up a token that closes the list, so where there is
one among the tokens there is one among those that are left (`Leaves.closed`), and no reader runs
out of tokens.  With steps enough for its tokens, a reader ends with a part of them left, or with a
refusal, and one of the tokens is to blame for that: it cannot stand where it does, or it is a
number that cannot be read (`Refusal.Blames`).

Induction on the steps that are left, one lemma for each reader.  What one reader leaves is what
the next one reads (`Concludes.bind`); how many tokens were used at least says that the steps
suffice for the next.  Every node that is read stands where one of the tokens does (`StandAt`).
-/
import Stencil.Proofs.Tree.Body

namespace Stencil

/-! ### Places of nodes -/

section

variable {κ : Type}

mutual

/-- The places of a node and of the nodes in it. -/
def Node.places : Node κ → List Position
  | .choice p _ body others otherwise =>
    p :: (Node.allPlaces body ++ Branch.allPlaces others ++ Node.allPlaces otherwise)
  | .loop p _ _ body empty => p :: (Node.allPlaces body ++ Node.allPlaces empty)
  | .scope p _ body => p :: Node.allPlaces body
  | .data p _ | .output p _ | .assign p _ _ | .call p _ _ _ _ | .bare _ p | .tree _ p _ => [p]
  | .expr _ e => [e.place]

/-- The places of nodes and of the nodes in them. -/
def Node.allPlaces : List (Node κ) → List Position
  | [] => []
  | node :: rest => node.places ++ Node.allPlaces rest

/-- The places of the nodes in branches. -/
def Branch.allPlaces : List (Branch κ) → List Position
  | [] => []
  | .mk _ body :: rest => Node.allPlaces body ++ Branch.allPlaces rest

end

end

/-- At each of the places stands one of the tokens. -/
def StandAt (ts : List Token) (ps : List Position) : Prop := ∀ p ∈ ps, ∃ t ∈ ts, t.position = p

namespace StandAt

variable {ts us : List Token} {ps qs : List Position} {t : Token}

theorem nil : StandAt ts [] := nofun

theorem cons (mem : t ∈ ts) (h : StandAt ts ps) : StandAt ts (t.position :: ps) := by
  intro p hp
  rcases List.mem_cons.mp hp with rfl | hp
  · exact ⟨t, mem, rfl⟩
  · exact h p hp

theorem append (h : StandAt ts ps) (h' : StandAt ts qs) : StandAt ts (ps ++ qs) := fun p hp =>
  (List.mem_append.mp hp).elim (h p) (h' p)

theorem mono (h : StandAt us ps) (sub : us ⊆ ts) : StandAt ts ps := fun p hp =>
  (h p hp).imp fun _ => .imp_left fun ht => sub ht

end StandAt

/-! ### Refusals -/

/-- One of the tokens is to blame for a refusal. -/
inductive Refusal.Blames (ts : List Token) : Refusal → Prop
  | grammatical {t : Token} (mem : t ∈ ts) (c : Complaint) : Blames ts (.grammatical c t)
  | integer {t : Token} {e : NumberError} (mem : t ∈ ts) (kind : t.kind = .integer)
      (reads : readInt t.text = .error e) : Blames ts (.numeral e)
  | float {t : Token} {e : NumberError} (mem : t ∈ ts) (kind : t.kind = .float)
      (reads : readFloat t.text = .error e) : Blames ts (.numeral e)

theorem Refusal.Blames.mono {ts us : List Token} {e : Refusal} (h : e.Blames us) (sub : us ⊆ ts) :
    e.Blames ts := by
  cases h with
  | grammatical mem c => exact .grammatical (sub mem) c
  | integer mem kind reads => exact .integer (sub mem) kind reads
  | float mem kind reads => exact .float (sub mem) kind reads

namespace Reader

variable {α β : Type} {n j k : Nat} {ts us rest : List Token} {t opener terminator : Token}
  {stops : List String}

/-! ### Tokens that are left -/

/-- One of the tokens closes the list. -/
def Closed (ts : List Token) : Prop := ∃ t ∈ ts, t.kind = .eof

/-- At least `k` of the tokens were used, none that closes the list, and the rest is left. -/
def Leaves (k : Nat) (ts rest : List Token) : Prop :=
  ∃ used, ts = used ++ rest ∧ (∀ t ∈ used, t.kind ≠ .eof) ∧ k ≤ used.length

theorem Leaves.refl (ts : List Token) : Leaves 0 ts ts := ⟨[], rfl, by simp, Nat.le_refl _⟩

theorem Leaves.cons (hkind : t.kind ≠ .eof) (h : Leaves k ts rest) :
    Leaves (k + 1) (t :: ts) rest := by
  obtain ⟨used, rfl, plain, hle⟩ := h
  exact ⟨t :: used, rfl, by simpa using ⟨hkind, plain⟩, Nat.succ_le_succ hle⟩

theorem Leaves.trans (h : Leaves j ts us) (h' : Leaves k us rest) : Leaves (j + k) ts rest := by
  obtain ⟨used, rfl, plain, hle⟩ := h
  obtain ⟨more, rfl, plain', hle'⟩ := h'
  refine ⟨used ++ more, (List.append_assoc ..).symm, fun t ht => ?_, ?_⟩
  · exact (List.mem_append.mp ht).elim (plain t) (plain' t)
  · rw [List.length_append]
    exact Nat.add_le_add hle hle'

theorem Leaves.le (h : Leaves k ts rest) (hle : j ≤ k) : Leaves j ts rest := by
  obtain ⟨used, heq, plain, hk⟩ := h
  exact ⟨used, heq, plain, Nat.le_trans hle hk⟩

theorem Leaves.length (h : Leaves k ts rest) : rest.length + k ≤ ts.length := by
  obtain ⟨used, rfl, -, hle⟩ := h
  rw [List.length_append]
  omega

/-- For each token that was used two steps less suffice. -/
theorem Leaves.enough (h : Leaves k ts rest) : enough rest + 2 * k ≤ enough ts := by
  have hlen := h.length
  simp only [Reader.enough]
  omega

theorem Leaves.subset (h : Leaves k ts rest) : rest ⊆ ts := by
  obtain ⟨used, rfl, -⟩ := h
  exact List.subset_append_right used rest

/-- What closes the list is left. -/
theorem Leaves.closed (h : Leaves k ts rest) (closed : Closed ts) : Closed rest := by
  obtain ⟨used, rfl, plain, -⟩ := h
  obtain ⟨t, ht, hkind⟩ := closed
  rcases List.mem_append.mp ht with ht | ht
  · exact absurd hkind (plain t ht)
  · exact ⟨t, ht, hkind⟩

theorem Closed.exists_cons (h : Closed ts) : ∃ t rest, ts = t :: rest := by
  obtain ⟨t, ht, -⟩ := h
  exact List.exists_cons_of_ne_nil (List.ne_nil_of_mem ht)

/-- Behind a token that does not close the list there is another. -/
theorem Closed.behind (h : Closed (t :: ts)) (hkind : t.kind ≠ .eof) :
    ∃ next more, ts = next :: more ∧ Closed ts := by
  have closed := (Leaves.cons hkind (.refl ts)).closed h
  obtain ⟨next, more, rfl⟩ := closed.exists_cons
  exact ⟨next, more, rfl, closed⟩

/-! ### Conclusions -/

/-- A reading of the tokens ends well, or with a refusal that one of them is to blame for. -/
def Concludes (ts : List Token) (good : α → Prop) : Except Refusal α → Prop
  | .ok a => good a
  | .error e => e.Blames ts

theorem Concludes.mono {good good' : α → Prop} {x : Except Refusal α} (h : Concludes us good x)
    (sub : us ⊆ ts) (imp : ∀ a, good a → good' a) : Concludes ts good' x := by
  cases x with
  | ok a => exact imp a h
  | error e => exact Refusal.Blames.mono h sub

/-- Of what a reading left, the next reading goes on. -/
theorem Concludes.bind {good : α → Prop} {good' : β → Prop} {x : Except Refusal α}
    {f : α → Except Refusal β} (h : Concludes ts good x)
    (next : ∀ a, good a → Concludes ts good' (f a)) : Concludes ts good' (x >>= f) := by
  cases x with
  | ok a => exact next a h
  | error e => exact h

/-- A reading that ends so leaves tokens, and uses at least `k` of them. -/
abbrev Uses (k : Nat) (ts : List Token) (x : Except Refusal (α × List Token)) : Prop :=
  Concludes ts (fun r => Leaves k ts r.2) x

theorem Uses.behind {x : Except Refusal (α × List Token)} (h : Uses k us x) (left : Leaves j ts us) :
    Uses (j + k) ts x :=
  Concludes.mono h left.subset fun _ h' => left.trans h'

theorem Uses.le {x : Except Refusal (α × List Token)} (h : Uses k ts x) (hle : j ≤ k) :
    Uses j ts x :=
  Concludes.mono h (List.Subset.refl _) fun _ left => left.le hle

/-- A reader was refused, or read something and left tokens. -/
theorem Uses.cases {x : Except Refusal (α × List Token)} (h : Uses k us x) (left : Leaves j ts us) :
    (∃ e, x = .error e ∧ e.Blames ts) ∨ ∃ a rest, x = .ok (a, rest) ∧ Leaves (j + k) ts rest := by
  rcases x with e | ⟨a, rest⟩
  · exact .inl ⟨e, rfl, Refusal.Blames.mono h left.subset⟩
  · exact .inr ⟨a, rest, rfl, left.trans h⟩

/-- What one reader left, the next one reads. -/
theorem Leaves.bind {good : β → Prop} {x : Except Refusal (α × List Token)}
    {f : α × List Token → Except Refusal β} (left : Leaves j ts us) (h : Uses k us x)
    (next : ∀ a rest, Leaves (j + k) ts rest → Concludes ts good (f (a, rest))) :
    Concludes ts good (x >>= f) :=
  (h.behind left).bind fun (a, rest) => next a rest

/-! ### Single tokens -/

theorem uses_expect (kind : TokenKind) (closed : Closed ts) (hkind : kind ≠ .eof) :
    Uses 1 ts (expect kind ts) := by
  obtain ⟨t, rest, rfl⟩ := closed.exists_cons
  rw [expect]
  split
  · next h => exact .cons (h ▸ hkind) (.refl rest)
  · exact .grammatical List.mem_cons_self _

theorem uses_expectWord {word : String} (closed : Closed ts) : Uses 1 ts (expectWord word ts) := by
  obtain ⟨t, rest, rfl⟩ := closed.exists_cons
  rw [expectWord]
  split
  · next h => exact .cons (by simp [h.1]) (.refl rest)
  · exact .grammatical List.mem_cons_self _

theorem Leaves.skipComma {good : β → Prop} {f : List Token → Except Refusal β} (left : Leaves k ts us)
    (closed : Closed ts) (next : ∀ rest, Leaves k ts rest → Concludes ts good (f rest)) :
    Concludes ts good (Reader.skipComma us >>= f) := by
  obtain ⟨t, rest, rfl⟩ := (left.closed closed).exists_cons
  refine next _ ?_
  split
  · next h => exact (left.trans (.cons (by simp [h]) (.refl rest))).le (Nat.le_add_right _ _)
  · exact left

/-! ### Expressions -/

theorem uses_path (e : Expr Atom) (closed : Closed ts) : Uses 0 ts (path e ts) := by
  induction e, ts using path.induct with
  | case1 e =>
    obtain ⟨t, rest, h⟩ := closed.exists_cons
    cases h
  | case2 e t hdot =>
    obtain ⟨_, _, h, -⟩ := closed.behind (by simp [hdot])
    cases h
  | case3 e t hdot =>
    rw [path, if_neg hdot]
    exact Leaves.refl _
  | case4 e t segment ts hdot hs ih =>
    rw [path, if_pos hdot, if_pos hs]
    have used : Leaves 2 (t :: segment :: ts) ts :=
      .cons (by simp [hdot]) (.cons (by rcases hs with hs | hs <;> simp [hs]) (.refl ts))
    exact ((ih (used.closed closed)).behind used).le (Nat.zero_le _)
  | case5 e t segment ts hdot hs =>
    rw [path, if_pos hdot, if_neg hs]
    exact .grammatical (List.mem_cons_of_mem _ List.mem_cons_self) _
  | case6 e t segment ts hdot =>
    rw [path, if_neg hdot]
    exact Leaves.refl _

/-- A literal that cannot be read is a number. -/
theorem literal?_eq_error {e : NumberError} (h : literal? t = some (.error e)) :
    (t.kind = .integer ∧ readInt t.text = .error e) ∨
      (t.kind = .float ∧ readFloat t.text = .error e) := by
  unfold literal? at h
  split at h
  · cases h
  · next kind =>
    rcases reads : readInt t.text with f | x
    · obtain rfl : f = e := by simpa [reads, Except.map] using h
      exact .inl ⟨kind, rfl⟩
    · simp [reads, Except.map] at h
  · next kind =>
    rcases reads : readFloat t.text with f | x
    · obtain rfl : f = e := by simpa [reads, Except.map] using h
      exact .inr ⟨kind, rfl⟩
    · simp [reads, Except.map] at h
  · obtain ⟨a, -, ha⟩ := Option.map_eq_some_iff.mp h
    cases ha
  · cases h

/-- No literal closes the list. -/
theorem ne_eof_of_literal? {x : Except NumberError Atom} (h : literal? t = some x) :
    t.kind ≠ .eof := by
  intro kind
  simp [literal?, kind] at h

/-- What reading expressions with `n` steps comes to. -/
structure Concluding (n : Nat) : Prop where
  expression : ∀ {ts}, Closed ts → enough ts ≤ n → Uses 1 ts (Reader.expression n ts)
  primary : ∀ {ts}, Closed ts → enough ts ≤ n + 1 → Uses 1 ts (Reader.primary n ts)
  filters : ∀ {ts} value, Closed ts → enough ts ≤ n → Uses 0 ts (Reader.filters n value ts)
  arguments : ∀ {ts}, Closed ts → enough ts < n → Uses 1 ts (Reader.arguments n ts)

namespace Concluding

theorem zero : Concluding 0 where
  expression _ h := by cases h
  primary _ h := by simp [enough] at h
  filters _ _ h := by cases h
  arguments _ h := by cases h

theorem expression_succ (r : Concluding n) (closed : Closed ts) (h : enough ts ≤ n + 1) :
    Uses 1 ts (Reader.expression (n + 1) ts) := by
  obtain ⟨t, rest, rfl⟩ := closed.exists_cons
  rw [Reader.expression]
  split
  · next mark =>
    have used : Leaves 1 (t :: rest) rest := .cons (by simp [mark.1]) (.refl rest)
    have hn := used.enough
    have hx := r.expression (used.closed closed) (by omega)
    obtain ⟨e, heq, blames⟩ | ⟨operand, left, heq, used⟩ := hx.cases used
    · rw [heq]
      exact blames
    · rw [heq]
      exact used.le (by omega)
  · obtain ⟨e, heq, blames⟩ | ⟨value, left, heq, used⟩ := (r.primary closed h).cases (.refl _)
    · rw [heq]
      exact blames
    · rw [heq]
      have hn := used.enough
      exact (r.filters _ (used.closed closed) (by omega)).behind used

theorem primary_succ (r : Concluding n) (closed : Closed ts) (h : enough ts ≤ n + 2) :
    Uses 1 ts (Reader.primary (n + 1) ts) := by
  obtain ⟨t, rest, rfl⟩ := closed.exists_cons
  rw [Reader.primary]
  split
  · next a hl => exact .cons (ne_eof_of_literal? hl) (.refl rest)
  · next e hl =>
    rcases literal?_eq_error hl with ⟨kind, reads⟩ | ⟨kind, reads⟩
    · exact .integer List.mem_cons_self kind reads
    · exact .float List.mem_cons_self kind reads
  · split
    · next kind =>
      have used : Leaves 1 (t :: rest) rest := .cons (by simp [kind]) (.refl rest)
      exact (uses_path _ (used.closed closed)).behind used
    · split
      · next kind =>
        have used : Leaves 1 (t :: rest) rest := .cons (by simp [kind]) (.refl rest)
        have hn := used.enough
        have hx := r.expression (used.closed closed) (by omega)
        obtain ⟨e, heq, blames⟩ | ⟨inner, left, heq, used⟩ := hx.cases used
        · rw [heq]
          exact blames
        · rw [heq]
          have hclose := uses_expect .rightParen (used.closed closed) (by decide)
          obtain ⟨e, heq, blames⟩ | ⟨close, left, heq, used⟩ := hclose.cases used
          · simp only [heq]
            exact blames
          · simp only [heq]
            exact used.le (by omega)
      · exact .grammatical List.mem_cons_self _

theorem filters_succ (r : Concluding n) (value : Expr Atom) (closed : Closed ts)
    (h : enough ts ≤ n + 1) : Uses 0 ts (Reader.filters (n + 1) value ts) := by
  obtain ⟨t, rest, rfl⟩ := closed.exists_cons
  rw [Reader.filters]
  split
  · next kind =>
    have used : Leaves 1 (t :: rest) rest := .cons (by simp [kind]) (.refl rest)
    have hname := uses_expect .name (used.closed closed) (by decide)
    obtain ⟨e, heq, blames⟩ | ⟨name, left, heq, used⟩ := hname.cases used
    · rw [heq]
      exact blames
    · rw [heq]
      obtain ⟨next, more, rfl⟩ := (used.closed closed).exists_cons
      simp only
      split
      · next hopen =>
        have opened := used.trans (.cons (by simp [hopen]) (.refl more))
        have hn := opened.enough
        have ha := r.arguments (opened.closed closed) (by omega)
        obtain ⟨e, heq, blames⟩ | ⟨args, left, heq, used⟩ := ha.cases opened
        · rw [heq]
          exact blames
        · rw [heq]
          have hn := used.enough
          have hf := r.filters (.filter t.position value name.text args) (used.closed closed)
            (by omega)
          exact (hf.behind used).le (by omega)
      · have hn := used.enough
        have hf := r.filters (.filter t.position value name.text []) (used.closed closed)
          (by omega)
        exact (hf.behind used).le (by omega)
  · exact Leaves.refl _

theorem arguments_succ (r : Concluding n) (closed : Closed ts) (h : enough ts < n + 1) :
    Uses 1 ts (Reader.arguments (n + 1) ts) := by
  obtain ⟨t, rest, rfl⟩ := closed.exists_cons
  rw [Reader.arguments]
  split
  · next kind => exact .cons (by simp [kind]) (.refl rest)
  · have hx := r.expression closed (by omega)
    obtain ⟨e, heq, blames⟩ | ⟨arg, left, heq, used⟩ := hx.cases (.refl _)
    · rw [heq]
      exact blames
    · rw [heq]
      obtain ⟨next, more, rfl⟩ := (used.closed closed).exists_cons
      simp only
      split
      · next kind =>
        have used := used.trans (.cons (by simp [kind]) (.refl more))
        have hn := used.enough
        have ha := r.arguments (used.closed closed) (by omega)
        obtain ⟨e, heq, blames⟩ | ⟨args, left, heq, used⟩ := ha.cases used
        · rw [heq]
          exact blames
        · rw [heq]
          exact used.le (by omega)
      · split
        · next kind => exact (used.trans (.cons (by simp [kind]) (.refl more))).le (by omega)
        · exact .grammatical (used.subset List.mem_cons_self) _

/-- Expressions: induction on the steps. -/
theorem all : ∀ n, Concluding n
  | 0 => zero
  | n + 1 =>
    { expression := (all n).expression_succ
      primary := (all n).primary_succ
      filters := (all n).filters_succ
      arguments := (all n).arguments_succ }

end Concluding

theorem uses_expression (closed : Closed ts) (h : enough ts ≤ n) : Uses 1 ts (expression n ts) :=
  (Concluding.all n).expression closed h

/-! ### Bindings and tag calls -/

theorem uses_bindings (closed : Closed ts) (h : enough ts ≤ n) : Uses 0 ts (bindings n ts) := by
  induction n generalizing ts with
  | zero => cases h
  | succ n ih =>
    obtain ⟨t, rest, rfl⟩ := closed.exists_cons
    rw [bindings]
    split
    · exact Leaves.refl _
    · refine (Leaves.refl _).bind (uses_expect .name closed (by decide)) fun name _ used => ?_
      refine used.bind (uses_expect .assign (used.closed closed) (by decide)) fun _ _ used => ?_
      have hn := used.enough
      refine used.bind (uses_expression (used.closed closed) (by omega))
        fun value _ used => ?_
      refine used.skipComma closed fun _ used => ?_
      have hn := used.enough
      exact used.bind (ih (used.closed closed) (by omega))
        fun others _ used => used.le (Nat.zero_le _)

/-- The token behind the first, which does not close the list. -/
theorem exists_of_peekIs {kind : TokenKind} (closed : Closed (t :: rest)) (hkind : t.kind ≠ .eof)
    (h : peekIs (t :: rest) 1 kind = true) :
    ∃ next more, rest = next :: more ∧ next.kind = kind := by
  obtain ⟨next, more, rfl, -⟩ := closed.behind hkind
  exact ⟨next, more, rfl, by simpa [peekIs, peek?] using h⟩

theorem uses_callParts (tag : String) (named : Bool) (closed : Closed ts) (h : enough ts < n) :
    Uses 0 ts (callParts tag n named ts) := by
  induction n generalizing ts named with
  | zero => cases h
  | succ n ih =>
    -- an argument, a comma behind it or none, and the other parts
    have argument {k : Nat} {us : List Token} (named : Bool)
        (f : Expr Atom × List Token → CallParts → CallParts) (used : Leaves k ts us) :
        Uses 0 ts (do
          let r ← expression n us
          let left ← skipComma r.2
          let p ← callParts tag n named left
          .ok (f r p.1, p.2)) := by
      have hn := used.enough
      refine used.bind (uses_expression (used.closed closed) (by omega))
        fun value _ used => ?_
      refine used.skipComma closed fun _ used => ?_
      have hn := used.enough
      exact used.bind (ih named (used.closed closed) (by omega))
        fun parts _ used => used.le (Nat.zero_le _)
    obtain ⟨t, rest, rfl⟩ := closed.exists_cons
    rw [callParts]
    split
    · exact Leaves.refl _
    · split
      · next mark =>
        have hkind : t.kind ≠ .eof := by simp [mark.1]
        obtain ⟨next, more, rfl, hnext⟩ := exists_of_peekIs closed hkind mark.2.2.1
        exact (Leaves.cons hkind (.cons (by simp [hnext]) (.refl more))).le (Nat.zero_le _)
      · split
        · next mark =>
          have hkind : t.kind ≠ .eof := by simp [mark.1]
          obtain ⟨next, more, rfl, hnext⟩ := exists_of_peekIs closed hkind mark.2
          exact argument true (fun r parts => { parts with named := (t.text, r.1) :: parts.named })
            (.cons hkind (.cons (by simp [hnext]) (.refl more)))
        · split
          · exact .grammatical List.mem_cons_self _
          · exact argument false (fun r parts => { parts with args := r.1 :: parts.args }) (.refl _)

/-! ### Bodies and blocks -/

/-- Tokens are left behind a body, and what ended it is one of those there were, as the nodes stand
where those do. -/
structure BodyReading.EndsIn (k : Nat) (ts : List Token) (b : BodyReading) : Prop where
  left : Leaves k ts b.rest
  ended : ∀ t ∈ b.terminator?, t ∈ ts
  placed : StandAt ts (Node.allPlaces b.nodes)

/-- Tokens are left behind a part of a block, and what ended it is one of those there were, as what
was read stands where those do. -/
structure Ended (places : α → List Position) (k : Nat) (ts : List Token)
    (r : α × Token × List Token) : Prop where
  left : Leaves k ts r.2.2
  ended : r.2.1 ∈ ts
  placed : StandAt ts (places r.1)

/-- Tokens are left behind a node, and it stands where those do that there were. -/
structure BlockEnds (k : Nat) (ts : List Token) (r : Node Atom × List Token) : Prop where
  left : Leaves k ts r.2
  placed : StandAt ts r.1.places

theorem BodyReading.EndsIn.behind {b : BodyReading} (h : b.EndsIn k us) (left : Leaves j ts us) :
    b.EndsIn (j + k) ts :=
  ⟨left.trans h.left, fun t ht => left.subset (h.ended t ht), h.placed.mono left.subset⟩

theorem BodyReading.EndsIn.closedBy {b : BodyReading} (h : b.EndsIn k ts) (mem : opener ∈ ts) :
    Concludes ts (Ended Node.allPlaces k ts) (b.closedBy opener) := by
  rw [BodyReading.closedBy]
  split
  · next t ht => exact ⟨h.left, h.ended t ht, h.placed⟩
  · exact .grammatical mem _

theorem concludes_finishBlock (closed : Closed us) (left : Leaves k us ts) (mem : terminator ∈ us) :
    Concludes us (Leaves k us) (finishBlock terminator ts) := by
  rw [finishBlock]
  split
  · obtain ⟨e, heq, blames⟩ | ⟨t, rest, heq, used⟩ :=
      (uses_expect .blockEnd (left.closed closed) (by decide)).cases left
    · rw [heq]
      exact blames
    · rw [heq]
      exact used.le (Nat.le_succ _)
  · exact .grammatical mem _

/-- What reading bodies and blocks with `n` steps comes to; the keyword of a block and what ended a
body of it are among the tokens there were before. -/
structure Building (n : Nat) : Prop where
  body : ∀ {ts} stops, Closed ts → enough ts ≤ n →
    Concludes ts (BodyReading.EndsIn 0 ts) (Reader.body n stops ts)
  block : ∀ {ts us k} {opener : Token}, Closed us → Leaves k us ts → opener ∈ us →
    enough us + 1 < n + 2 * k → Concludes us (BlockEnds k us) (Reader.block n opener ts)
  branches : ∀ {ts us k} {opener terminator : Token}, Closed us → Leaves k us ts → opener ∈ us →
    terminator ∈ us → enough us < n + 2 * k →
    Concludes us (Ended Branch.allPlaces k us) (Reader.branches n opener terminator ts)

namespace Building

theorem zero : Building 0 where
  body _ _ h := by cases h
  block _ left _ h := by
    have hn := left.enough
    simp only [enough] at h hn
    omega
  branches _ left _ _ h := by
    have hn := left.enough
    simp only [enough] at h hn
    omega

theorem body_succ (r : Building n) (stops : List String) (closed : Closed ts)
    (h : enough ts ≤ n + 1) :
    Concludes ts (BodyReading.EndsIn 0 ts) (Reader.body (n + 1) stops ts) := by
  -- the nodes that follow, once one was read
  have others {k : Nat} {us : List Token} (node : Node Atom) (used : Leaves (k + 1) ts us)
      (placed : StandAt ts node.places) :
      Concludes ts (BodyReading.EndsIn 0 ts) (do
        let b ← Reader.body n stops us
        .ok { b with nodes := node :: b.nodes }) := by
    have hn := used.enough
    have hb := (r.body stops (used.closed closed) (by omega)).mono used.subset
      fun b hb => hb.behind used
    exact hb.bind fun b hb => ⟨hb.left.le (Nat.zero_le _), hb.ended, placed.append hb.placed⟩
  obtain ⟨t, rest, rfl⟩ := closed.exists_cons
  have here : StandAt (t :: rest) [t.position] := .cons List.mem_cons_self .nil
  rw [Reader.body]
  split
  · refine ⟨.refl _, fun t ht => ?_, .nil⟩
    cases ht
  · next kind => exact others _ (.cons (by simp [kind]) (.refl rest)) here
  · next kind =>
    have used : Leaves 1 (t :: rest) rest := .cons (by simp [kind]) (.refl rest)
    have hn := used.enough
    refine used.bind (uses_expression (used.closed closed) (by omega)) fun value _ used => ?_
    exact used.bind (uses_expect .variableEnd (used.closed closed) (by decide))
      fun _ _ used => others _ used here
  · next kind =>
    obtain ⟨keyword, more, rfl, -⟩ := closed.behind (by simp [kind])
    have mem : keyword ∈ t :: keyword :: more := List.mem_cons_of_mem _ List.mem_cons_self
    change Concludes _ _ (if keyword.kind ≠ .name then _ else _)
    split
    · exact .grammatical mem _
    · next name =>
      have hname : keyword.kind = .name := by simpa using name
      have used : Leaves 2 (t :: keyword :: more) more :=
        .cons (by simp [kind]) (.cons (by simp [hname]) (.refl more))
      split
      · exact ⟨used.le (Nat.zero_le _), by simp, .nil⟩
      · split
        · exact .grammatical mem _
        · have hblock := r.block closed used mem (by omega)
          exact hblock.bind fun read ends => others read.1 ends.left ends.placed
  · exact .grammatical List.mem_cons_self _

/-- A body that must be closed, and what is read behind it. -/
theorem bind_closed (r : Building n) {good : β → Prop} {stops : List String}
    {f : List (Node Atom) × Token × List Token → Except Refusal β} (closed : Closed us)
    (left : Leaves k us ts) (mem : opener ∈ us) (h : enough us ≤ n + 2 * k)
    (next : ∀ nodes terminator rest, Leaves k us rest → terminator ∈ us →
      StandAt us (Node.allPlaces nodes) → Concludes us good (f (nodes, terminator, rest))) :
    Concludes us good (Reader.body n stops ts >>= fun b => b.closedBy opener >>= f) := by
  have hn := left.enough
  have hb := (r.body stops (left.closed closed) (by omega)).mono left.subset
    fun b hb => hb.behind left
  refine hb.bind fun b hb => (hb.closedBy mem).bind fun (nodes, terminator, rest) ended => ?_
  exact next nodes terminator rest ended.left ended.ended ended.placed

theorem bind_lastBody (r : Building n) {good : β → Prop} {keyword : String}
    {f : List (Node Atom) × Token × List Token → Except Refusal β} (closed : Closed us)
    (left : Leaves k us ts) (mem : opener ∈ us) (mem' : terminator ∈ us)
    (h : enough us ≤ n + 2 * k)
    (next : ∀ nodes terminator rest, Leaves k us rest → terminator ∈ us →
      StandAt us (Node.allPlaces nodes) → Concludes us good (f (nodes, terminator, rest))) :
    Concludes us good (lastBody n opener keyword terminator ts >>= f) := by
  have hlast : Concludes us (Ended Node.allPlaces k us) (lastBody n opener keyword terminator ts) := by
    rw [lastBody]
    split
    · refine left.bind (uses_expect .blockEnd (left.closed closed) (by decide)) fun _ _ used => ?_
      have hn := used.enough
      have hb := (r.body [] (used.closed closed) (by omega)).mono used.subset
        fun b hb => hb.behind used
      refine hb.bind fun b hb => ?_
      exact (hb.closedBy mem).mono (List.Subset.refl _)
        fun _ ended => ⟨ended.left.le (by omega), ended.ended, ended.placed⟩
    · exact ⟨left, mem', .nil⟩
  refine hlast.bind ?_
  rintro ⟨nodes, terminator, rest⟩ ended
  exact next nodes terminator rest ended.left ended.ended ended.placed

theorem branches_succ (r : Building n) (closed : Closed us) (left : Leaves k us ts)
    (mem : opener ∈ us) (mem' : terminator ∈ us) (h : enough us < n + 1 + 2 * k) :
    Concludes us (Ended Branch.allPlaces k us) (Reader.branches (n + 1) opener terminator ts) := by
  rw [Reader.branches]
  split
  · have hn := left.enough
    refine left.bind (uses_expression (left.closed closed) (by omega)) fun test _ used => ?_
    refine used.bind (uses_expect .blockEnd (used.closed closed) (by decide)) fun _ _ used => ?_
    refine r.bind_closed closed used mem (by omega)
      fun nodes terminator rest used mem' placed => ?_
    have hothers := r.branches closed used mem mem' (by omega)
    refine hothers.bind ?_
    rintro ⟨others, terminator, rest⟩ ended
    exact ⟨ended.left.le (by omega), ended.ended, placed.append ended.placed⟩
  · exact ⟨left, mem', .nil⟩

theorem block_succ (r : Building n) (closed : Closed us) (left : Leaves k us ts)
    (mem : opener ∈ us) (h : enough us + 1 < n + 1 + 2 * k) :
    Concludes us (BlockEnds k us) (Reader.block (n + 1) opener ts) := by
  have hn := left.enough
  by_cases hfor : opener.text = "for"
  · rw [block_loop hfor]
    refine left.bind (uses_expect .name (left.closed closed) (by decide)) fun target _ used => ?_
    refine used.bind (uses_expectWord (used.closed closed)) fun _ _ used => ?_
    have hn := used.enough
    refine used.bind (uses_expression (used.closed closed) (by omega)) fun items _ used => ?_
    refine used.bind (uses_expect .blockEnd (used.closed closed) (by decide)) fun _ _ used => ?_
    refine r.bind_closed closed used mem (by omega)
      fun nodes terminator rest used mem' placed => ?_
    refine r.bind_lastBody closed used mem mem' (by omega)
      fun empty terminator rest used mem' placed' => ?_
    exact (concludes_finishBlock closed used mem').bind
      fun rest used => ⟨used.le (by omega), .cons mem (placed.append placed')⟩
  by_cases hif : opener.text = "if"
  · rw [block_choice hif]
    refine left.bind (uses_expression (left.closed closed) (by omega)) fun test _ used => ?_
    refine used.bind (uses_expect .blockEnd (used.closed closed) (by decide)) fun _ _ used => ?_
    refine r.bind_closed closed used mem (by omega)
      fun nodes terminator rest used mem' placed => ?_
    refine (r.branches closed used mem mem' (by omega)).bind
      fun (others, terminator, rest) ⟨used, mem', placed'⟩ => ?_
    refine r.bind_lastBody closed used mem mem' (by omega)
      fun otherwise terminator rest used mem' placed'' => ?_
    exact (concludes_finishBlock closed used mem').bind
      fun rest used => ⟨used.le (by omega), .cons mem ((placed.append placed').append placed'')⟩
  have here : StandAt us [opener.position] := .cons mem .nil
  rw [Reader.block, if_neg hfor, if_neg hif]
  split
  · refine left.bind (uses_bindings (left.closed closed) (by omega)) fun bound _ used => ?_
    dsimp only
    split
    · exact .grammatical mem _
    · refine used.bind (uses_expect .blockEnd (used.closed closed) (by decide)) fun _ _ used => ?_
      refine r.bind_closed closed used mem (by omega)
        fun nodes terminator rest used mem' placed => ?_
      exact (concludes_finishBlock closed used mem').bind
        fun rest used => ⟨used.le (by omega), .cons mem placed⟩
  · split
    · refine left.bind (uses_expect .name (left.closed closed) (by decide)) fun target _ used => ?_
      refine used.bind (uses_expect .assign (used.closed closed) (by decide)) fun _ _ used => ?_
      have hn := used.enough
      refine used.bind (uses_expression (used.closed closed) (by omega)) fun value _ used => ?_
      exact used.bind (uses_expect .blockEnd (used.closed closed) (by decide))
        fun _ _ used => ⟨used.le (by omega), here⟩
    · refine left.bind (uses_callParts opener.text false (left.closed closed) (by omega))
        fun parts _ used => ?_
      exact used.bind (uses_expect .blockEnd (used.closed closed) (by decide))
        fun _ _ used => ⟨used.le (by omega), here⟩

/-- Bodies and blocks: induction on the steps. -/
theorem all : ∀ n, Building n
  | 0 => zero
  | n + 1 =>
    { body := (all n).body_succ
      block := (all n).block_succ
      branches := (all n).branches_succ }

end Building

end Reader

/-! ### Templates -/

/-- Tokens with one that closes the list are read as a tree whose nodes stand where they do, or one of
them is to blame. -/
theorem Tree.ofTokens_concludes {ts : List Token} (closed : Reader.Closed ts) :
    Reader.Concludes ts (fun tree => StandAt ts (Node.allPlaces tree.body)) (Tree.ofTokens ts) := by
  have hb := (Reader.Building.all _).body [] closed (Nat.le_refl _)
  refine hb.bind fun b ends => ?_
  split
  · next t ht => exact .grammatical (ends.ended t ht) _
  · exact ends.placed

end Stencil
