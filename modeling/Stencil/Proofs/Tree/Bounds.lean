/-
Stencil/Proofs/Tree/Bounds.lean

The reading of any tokens ends within bounds.  Where one of the tokens closes the list, every token
that the cursor looks at is one of the list, ahead or not; the places where it stands never
decrease, and it never goes past a token that closes the list (`Cursor.InBounds`).  One step of a
cursor keeps that, and by induction so does every way onward; a cursor does not advance from a token
that closes the list, and that is all there is to it.

That the reading ends, and how, comes from the readers, which the cursor agrees with: no steps are
used up and no token is missing, so a tree is read, or one of the tokens is to blame
(`Tree.ofTokens_bounded`).
-/
import Stencil.Fault
import Stencil.Proofs.Tree.Guided

namespace Stencil

/-! ### Bounds -/

namespace Cursor

/-- The cursor has looked at tokens of the list only, has only gone onward, and not past a token
that closes the list. -/
structure InBounds (c : Cursor) : Prop where
  inside : ∀ l ∈ c.looks, l.index < c.tokens.length
  ordered : c.places.Pairwise (· ≤ ·)
  before : ∀ i t, c.tokens[i]? = some t → t.kind = .eof → ∀ p ∈ c.places, p ≤ i

variable {c c' : Cursor} {i : Nat}

theorem position_mem_places (c : Cursor) : c.position ∈ c.places := by simp [places]

theorem places_looked (i : Nat) (c : Cursor) : (c.looked i).places = c.places ++ [c.position] := by
  simp [places, looked]

/-- The cursor has stood at every place but the last when it looked. -/
theorem places_next (c : Cursor) : c.next.places = c.places.dropLast ++ [c.position + 1] := by
  simp [places, next]

theorem pairwise_snoc {ps : List Nat} {p : Nat} (h : ps.Pairwise (· ≤ ·)) (hp : ∀ q ∈ ps, q ≤ p) :
    (ps ++ [p]).Pairwise (· ≤ ·) :=
  List.pairwise_append.mpr ⟨h, List.pairwise_singleton _ _, fun q hq r hr => by
    rw [List.mem_singleton.mp hr]
    exact hp q hq⟩

namespace InBounds

theorem start (ts : List Token) : InBounds (start ts) where
  inside _ h := by cases h
  ordered := List.pairwise_singleton _ _
  before _ _ _ _ _ h := by
    rw [List.mem_singleton.mp h]
    exact Nat.zero_le _

/-- No place is behind the one where the cursor stands. -/
theorem le_position (b : InBounds c) : ∀ p ∈ c.places, p ≤ c.position := by
  intro p hp
  rcases List.mem_append.mp hp with hp | hp
  · exact (List.pairwise_append.mp b.ordered).2.2 p hp _ (List.mem_singleton_self _)
  · exact Nat.le_of_eq (List.mem_singleton.mp hp)

theorem looked (b : InBounds c) (hi : i < c.tokens.length) : InBounds (c.looked i) where
  inside l hl := by
    rcases List.mem_cons.mp hl with rfl | hl
    · exact hi
    · exact b.inside l hl
  ordered := by
    rw [places_looked]
    exact pairwise_snoc b.ordered b.le_position
  before j t ht hkind p hp := by
    rw [places_looked] at hp
    rcases List.mem_append.mp hp with hp | hp
    · exact b.before j t ht hkind p hp
    · rw [List.mem_singleton.mp hp]
      exact b.before j t ht hkind _ c.position_mem_places

theorem next (b : InBounds c) {t : Token} (ht : c.tokens[c.position]? = some t)
    (hkind : t.kind ≠ .eof) : InBounds c.next where
  inside := b.inside
  ordered := by
    rw [places_next]
    refine pairwise_snoc (b.ordered.sublist (List.dropLast_sublist _)) fun q hq => ?_
    exact Nat.le_succ_of_le (b.le_position q (List.dropLast_subset _ hq))
  before j u hu heof p hp := by
    rw [places_next] at hp
    rcases List.mem_append.mp hp with hp | hp
    · exact b.before j u hu heof p (List.dropLast_subset _ hp)
    · -- the token where the cursor stands does not close the list, so that one is further on
      have hle : c.position ≤ j := b.before j u hu heof _ c.position_mem_places
      have hne : c.position ≠ j := by
        rintro rfl
        rw [Option.some.inj (ht.symm.trans hu)] at hkind
        exact hkind heof
      rw [List.mem_singleton.mp hp]
      omega

/-- One step stays in bounds. -/
theorem step (b : InBounds c) (closed : Reader.Closed c.tokens) (s : c.Step c') : InBounds c' := by
  cases s with
  | look hi =>
    rcases hi with rfl | hi
    · obtain ⟨t, ht, hkind⟩ := closed
      obtain ⟨j, hj, hget⟩ := List.getElem_of_mem ht
      have hle : c.position ≤ j :=
        b.before j t (by rw [List.getElem?_eq_getElem hj, hget]) hkind _ c.position_mem_places
      exact b.looked (Nat.lt_of_le_of_lt hle hj)
    · exact b.looked hi
  | next ht hkind => exact b.next ht hkind

/-- Every way onward stays in bounds: induction on the steps. -/
theorem onward (b : InBounds c) (closed : Reader.Closed c.tokens) (h : c.Onward c') :
    InBounds c' ∧ c'.tokens = c.tokens := by
  induction h with
  | refl => exact ⟨b, rfl⟩
  | @tail d e _ s ih =>
    obtain ⟨hd, htokens⟩ := ih
    refine ⟨hd.step (htokens ▸ closed) s, ?_⟩
    cases s <;> exact htokens

end InBounds

end Cursor

/-! ### Readings of any tokens -/

/-- The reading of tokens, the last of which closes the list, ends, and it stays in bounds: each look
is at a token of the list, the places of the cursor never decrease, and none is past a token that
closes the list.  It ends with a tree; or with a fault at one of the tokens; or with a number token
that cannot be read, and the fault of that. -/
theorem Tree.ofTokens_bounded {ts : List Token} {last : Token} (hlast : ts.getLast? = some last)
    (hkind : last.kind = .eof) (name source : Option String) :
    ∃ c : Cursor, c.InBounds ∧ c.tokens = ts ∧
      ((∃ tree, Scan.template.run (.start ts) = .ok tree c ∧ Tree.ofTokens ts = .ok tree) ∨
        (∃ e, ∃ t ∈ ts, ∃ m, Scan.template.run (.start ts) = .error (.refused e) c ∧
          Tree.ofTokens ts = .error e ∧ e.toFault name source = .malformed m ∧
          m.atToken = true ∧ m.line = some t.line ∧ m.column = some t.column) ∨
        ∃ e, ∃ t ∈ ts, Scan.template.run (.start ts) = .error (.refused (.numeral e)) c ∧
          Tree.ofTokens ts = .error (.numeral e) ∧
          ((t.kind = .integer ∧ readInt t.text = .error e) ∨
            (t.kind = .float ∧ readFloat t.text = .error e))) := by
  have closed : Reader.Closed ts := ⟨last, List.mem_of_getLast? hlast, hkind⟩
  have concludes := Tree.ofTokens_concludes closed
  cases Scan.agrees_template ts with
  | @ok tree c run gives onward =>
    obtain ⟨bounds, tokens⟩ := (Cursor.InBounds.start ts).onward closed onward
    exact ⟨c, bounds, tokens, .inl ⟨tree, run, gives⟩⟩
  | @error h c run gives onward =>
    obtain ⟨bounds, tokens⟩ := (Cursor.InBounds.start ts).onward closed onward
    rw [gives] at concludes
    have blames : h.refusal.Blames ts := concludes
    -- steps that are used up and a token that is missing have nobody to blame
    obtain ⟨e, rfl⟩ : ∃ e, h = .refused e := by
      cases h with
      | refused e => exact ⟨e, rfl⟩
      | outside => cases blames
      | spent => cases blames
    refine ⟨c, bounds, tokens, .inr ?_⟩
    cases blames with
    | @grammatical t mem complaint => exact .inl ⟨_, t, mem, _, run, gives, rfl, rfl, rfl, rfl⟩
    | @integer t e mem kind reads => exact .inr ⟨e, t, mem, run, gives, .inl ⟨kind, reads⟩⟩
    | @float t e mem kind reads => exact .inr ⟨e, t, mem, run, gives, .inr ⟨kind, reads⟩⟩

/-- Tokens that leave a call of a tag open, where a comma and another closing token follow the one
that closes them: the reading looks ahead to the first closing token and stops there. -/
theorem Tree.ofTokens_bounded_open :
    let eof : Token := ⟨.eof, "", ⟨1, 9⟩⟩
    let ts : List Token :=
      [⟨.blockBegin, "", ⟨1, 0⟩⟩, ⟨.name, "tag", ⟨1, 3⟩⟩, ⟨.name, "as", ⟨1, 7⟩⟩, eof,
        ⟨.comma, ",", ⟨2, 0⟩⟩, eof]
    ts.getLast? = some eof ∧ eof.kind = .eof ∧ ∃ c : Cursor, c.InBounds ∧
      Scan.template.run (.start ts)
        = .error (.refused (.grammatical (.missingExpression eof) eof)) c ∧ c.position = 3 := by
  intro eof ts
  have hlast : ts.getLast? = some eof := rfl
  have hkind : eof.kind = .eof := rfl
  refine ⟨hlast, hkind, ?_⟩
  obtain ⟨c, bounds, -, ends⟩ := Tree.ofTokens_bounded hlast hkind none none
  rcases ends with ⟨tree, run, -⟩ | ⟨e, t, -, m, run, -⟩ | ⟨e, t, -, run, -⟩
  · cases run
  · cases run
    exact ⟨_, bounds, rfl, rfl⟩
  · cases run

end Stencil
