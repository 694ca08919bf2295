/-
Stencil/Proofs/Source/Refusal.lean

Where a source is refused, and what its number literals look like.  The walk over a source complains
at the place where it stands, or at the place where the region it stands in was opened, and these
are places in the source (`walk_eq_error`): induction on what is left, with the text in front of it
as the place.  A token is a number only where the pattern of numbers matched (`isNumber_of_walk`).
-/
import Stencil.Proofs.Source.Layout
import Stencil.Proofs.Source.Written

namespace Stencil

variable {before cs text : List Char} {mode : Mode} {place : Position} {s : Stride} {e : Refusal}
  {kind : TokenKind} {tokens : List Token} {n pass : Nat}

/-! ### Places in a source -/

/-- A place that a character of a source has, or its end. -/
def InSource (cs : List Char) (p : Position) : Prop :=
  ∃ offset ≤ cs.length, Position.start.after (cs.take offset) = p

theorem InSource.of_front (h : before <+: cs) : InSource cs (Position.start.after before) :=
  ⟨before.length, h.length_le, by rw [← List.prefix_iff_eq_take.mp h]⟩

/-- A token of a source stands in it. -/
theorem inSource_of_lex (h : lexChars cs = .ok tokens) {t : Token} (ht : t ∈ tokens) :
    InSource cs t.position := by
  obtain ⟨chunks, laid, rfl, rfl⟩ := exists_laid h
  have heq := tokensAt_eq [] chunks
  rw [Position.after_nil, List.nil_append] at heq
  rw [heq] at ht
  obtain ⟨s, hs, rfl⟩ := List.mem_map.mp ht
  obtain ⟨hle, hposition⟩ := laid.position hs
  exact ⟨s.offset, hle, hposition.symm⟩

/-! ### Refused characters -/

/-- A piece is refused where it begins, or where its region was opened. -/
theorem stride_eq_error (h : stride mode place cs = .error e) :
    ∃ c p, e = .lexical c p ∧ (p = place ∨ ∃ r, mode = .inside r p) := by
  cases mode with
  | plain =>
    rw [stride] at h
    split at h
    · split at h
      · cases h
      · cases h
        exact ⟨_, _, rfl, .inl rfl⟩
    · cases h
    · cases h
  | inside r opened =>
    simp only [stride] at h
    split at h
    · cases h
    · split at h <;> cases h
      · exact ⟨_, _, rfl, .inl rfl⟩
      · exact ⟨_, _, rfl, .inr ⟨r, rfl⟩⟩

/-- A region that the walk stands in behind a piece was opened there, or stood before. -/
theorem mode_of_stride (h : stride mode place cs = .ok s) {r : Region} {opened : Position}
    (hmode : s.mode = .inside r opened) : opened = place ∨ mode = .inside r opened := by
  cases mode with
  | plain =>
    rw [stride] at h
    split at h
    · split at h <;> cases h
      cases hmode
    · cases h
      cases hmode
      exact .inl rfl
    · cases h
      cases hmode
  | inside r' opened' =>
    simp only [stride] at h
    split at h
    · cases h
      cases hmode
    · split at h <;> cases h
      · exact .inr hmode
      · exact .inr hmode

theorem walk_nil : walk mode place pass [] = match mode with
    | .plain => .ok [⟨.eof, "", place⟩]
    | .inside r opened => .error (.lexical r.unclosed opened) := by
  cases pass <;> rfl

/-- The walk is refused at a place of the source. -/
theorem walk_eq_error (h : walk mode (Position.start.after before) pass cs = .error e)
    (hopened : ∀ r opened, mode = .inside r opened →
      ∃ front, front <+: before ∧ opened = Position.start.after front) :
    ∃ c front, front <+: before ++ cs ∧ e = .lexical c (Position.start.after front) := by
  induction cs generalizing mode before pass with
  | nil =>
    rw [walk_nil] at h
    split at h
    · cases h
    · next r opened =>
      cases h
      obtain ⟨front, hfront, rfl⟩ := hopened r opened rfl
      exact ⟨_, front, hfront.trans (List.prefix_append _ _), rfl⟩
  | cons c cs ih =>
    have onward {mode : Mode} {pass : Nat}
        (h : walk mode ((Position.start.after before).next c) pass cs = .error e)
        (hopened : ∀ r opened, mode = .inside r opened →
          ∃ front, front <+: before ∧ opened = Position.start.after front) :
        ∃ c' front, front <+: before ++ c :: cs ∧
          e = .lexical c' (Position.start.after front) := by
      rw [← Position.after_concat] at h
      have := ih h fun r opened hr =>
        (hopened r opened hr).imp fun _ => .imp_left fun hf => hf.trans (List.prefix_append _ _)
      rwa [List.append_assoc] at this
    cases pass with
    | succ pass =>
      rw [walk] at h
      exact onward h hopened
    | zero =>
      rw [walk] at h
      split at h
      · next hs =>
        cases h
        obtain ⟨c', p, rfl, rfl | ⟨r, hr⟩⟩ := stride_eq_error hs
        · exact ⟨c', before, List.prefix_append _ _, rfl⟩
        · obtain ⟨front, hfront, rfl⟩ := hopened r p hr
          exact ⟨c', front, hfront.trans (List.prefix_append _ _), rfl⟩
      · next s hs =>
        rcases hw : walk s.mode ((Position.start.after before).next c) (s.length - 1) cs with f | ts
        · obtain rfl : f = e := by simpa [hw] using h
          refine onward hw fun r opened hr => ?_
          rcases mode_of_stride hs hr with rfl | hmode
          · exact ⟨before, List.prefix_refl _, rfl⟩
          · exact hopened r opened hmode
        · rcases hlexeme : s.token? with - | lexeme <;> simp [hw, hlexeme] at h

/-- A source that no tokens come from is refused at a place in it. -/
theorem lexChars_eq_error (h : lexChars cs = .error e) :
    ∃ c p, e = .lexical c p ∧ InSource cs p := by
  have hwalk : walk .plain (Position.start.after []) 0 cs = .error e := h
  obtain ⟨c, front, hfront, rfl⟩ := walk_eq_error hwalk nofun
  exact ⟨c, _, rfl, .of_front hfront⟩

/-! ### Number literals -/

/-- A text that is a number literal matches the pattern of its kind. -/
def IsNumber (kind : TokenKind) (text : List Char) : Prop :=
  kind = .integer ∨ kind = .float → IsWord kind text

theorem isWord_of_numberRun? (h : numberRun? cs = some (kind, text)) : IsWord kind text := by
  simp only [numberRun?] at h
  generalize hsign : cs.take (if cs.head? = some '-' then 1 else 0) = sign at h
  have isSign : sign ∈ signs := by
    subst hsign
    rcases cs with - | ⟨c, cs⟩
    · simp [signs]
    · by_cases hc : c = '-' <;> simp [signs, hc]
  generalize cs.drop sign.length = body at h
  have digits : ∀ c ∈ body.takeWhile Text.isDecimal, Text.isDecimal c = true :=
    fun c hc => List.mem_takeWhile_imp hc
  generalize body.takeWhile Text.isDecimal = whole at h digits
  split at h
  · cases h
  next hne =>
  have hwhole : AreDigits whole := ⟨by simpa using hne, digits⟩
  split at h
  · next rest _ =>
    split at h
    · cases h
      exact .integer isSign hwhole
    · next hfraction =>
      cases h
      rw [List.append_assoc]
      exact .float isSign hwhole ⟨by simpa using hfraction, fun c hc => List.mem_takeWhile_imp hc⟩
  · cases h
    exact .integer isSign hwhole

theorem isNumber_of_piece? (h : piece? cs = some (.token kind text, n)) : IsNumber kind text := by
  intro hkind
  cases cs with
  | nil => cases h
  | cons c cs =>
    simp only [piece?] at h
    split at h
    · cases h
    split at h
    · next hnumber =>
      cases h
      exact isWord_of_numberRun? hnumber
    split at h
    · cases h
      simp at hkind
    split at h
    · cases h
      simp at hkind
    · obtain ⟨kind', hpunctuation, heq⟩ := Option.map_eq_some_iff.mp h
      cases heq
      -- a punctuation mark is no number
      unfold punctuation? at hpunctuation
      repeat' split at hpunctuation
      all_goals cases hpunctuation <;> simp at hkind

theorem isNumber_of_stride (h : stride mode place cs = .ok s) :
    ∀ lexeme ∈ s.token?, IsNumber lexeme.1 lexeme.2 := by
  intro (kind, text) hlexeme
  cases mode with
  | plain =>
    rw [stride] at h
    split at h
    · split at h <;> cases h
      cases hlexeme
    · next r _ =>
      cases h
      cases hlexeme
      intro hkind
      cases r <;> simp [Region.beginKind] at hkind
    · cases h
      cases hlexeme
      simp [IsNumber]
  | inside r opened =>
    simp only [stride] at h
    split at h
    · cases h
      cases hlexeme
      intro hkind
      cases r <;> simp [Region.endKind] at hkind
    · split at h <;> cases h
      · cases hlexeme
      · next hpiece =>
        cases hlexeme
        exact isNumber_of_piece? hpiece

/-- The number tokens of a source match the patterns of numbers. -/
theorem isNumber_of_walk (h : walk mode place pass cs = .ok tokens) :
    ∀ t ∈ tokens, IsNumber t.kind t.text.toList := by
  induction cs generalizing mode place pass tokens with
  | nil =>
    rw [walk_nil] at h
    split at h <;> cases h
    simp [IsNumber]
  | cons c cs ih =>
    cases pass with
    | succ pass =>
      rw [walk] at h
      exact ih h
    | zero =>
      rw [walk] at h
      split at h
      · cases h
      · next s hs =>
        split at h
        · cases h
        · next others =>
          cases h
          exact ih others
        · next kind text others hlexeme hothers =>
          cases h
          have hword := isNumber_of_stride hs (kind, text) (by simp [hlexeme])
          simpa using ⟨hword, ih hothers⟩

end Stencil
