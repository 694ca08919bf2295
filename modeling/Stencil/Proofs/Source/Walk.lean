/-
Stencil/Proofs/Source/Walk.lean

The walk over a source, piece by piece.  The characters of a piece after its first only move the
place on (`walk_pass`), so one step of the walk passes over a whole piece (`walk_append`).  A source
from which tokens come is laid out as pieces (`Laid`), one behind the other, that are exactly its
text: induction on what is left of the source, one step of the walk for each piece.
-/
import Stencil.Proofs.Source.Piece

namespace Stencil

/-! ### Chunks -/

/-- A piece of a source: a token with the raw text it was read from, blanks, or a comment. -/
inductive Chunk where
  | token (kind : TokenKind) (text raw : List Char)
  | blank (raw : List Char)
  | comment (raw : List Char)

/-- The part of the source that a piece is. -/
def Chunk.raw : Chunk → List Char
  | .token _ _ raw | .blank raw | .comment raw => raw

/-- The token that a piece gives, without its place. -/
def Chunk.token? : Chunk → Option (TokenKind × List Char)
  | .token kind text _ => some (kind, text)
  | .blank _ | .comment _ => none

/-- The source that pieces make up. -/
def sourceOf (chunks : List Chunk) : List Char := chunks.flatMap Chunk.raw

@[simp] theorem sourceOf_nil : sourceOf [] = [] := rfl

@[simp] theorem sourceOf_cons (c : Chunk) (chunks : List Chunk) :
    sourceOf (c :: chunks) = c.raw ++ sourceOf chunks := List.flatMap_cons

/-- A token is put in front of others, if there is one. -/
def emit (lexeme? : Option (TokenKind × List Char)) (place : Position) (tokens : List Token) :
    List Token :=
  match lexeme? with
  | some (kind, text) => ⟨kind, String.ofList text, place⟩ :: tokens
  | none => tokens

/-- The tokens of a source that is made up of pieces. -/
def tokensAt (place : Position) : List Chunk → List Token
  | [] => [⟨.eof, "", place⟩]
  | c :: chunks => emit c.token? place (tokensAt (place.after c.raw) chunks)

/-- The region that the walk stands in. -/
def Mode.region? : Mode → Option Region
  | .plain => none
  | .inside r _ => some r

/-- A piece may stand where it does, in a region or outside, in front of the rest of the source;
the next piece stands in the region given last, or outside. -/
inductive Stands : Option Region → Chunk → (rest : List Char) → Option Region → Prop where
  | data {run rest} (nonempty : run ≠ [])
      (plain : ∀ i < run.length, opening? ((run ++ rest).drop i) = none)
      (opens : rest = [] ∨ (opening? rest).isSome) : Stands none (.token .data run run) rest none
  | comment {run rest} (closes : ClosesFirst run) :
      Stands none (.comment ('\x7b' :: '#' :: run)) rest none
  | opening {rest} (r : Region) :
      Stands none (.token r.beginKind r.openingMark r.openingMark) rest (some r)
  | closing {rest} (r : Region) :
      Stands (some r) (.token r.endKind r.closingMark r.closingMark) rest none
  | blank {r run rest} (nonempty : run ≠ []) (blank : ∀ c ∈ run, Text.isBlank c = true) :
      Stands (some r) (.blank run) rest (some r)
  | word {r kind text raw rest} (word : WordRun kind text raw) :
      Stands (some r) (.token kind text raw) rest (some r)

/-- Pieces that lie one behind the other, up to the end of a source. -/
inductive Laid : Option Region → List Chunk → Prop where
  | nil : Laid none []
  | cons {region region' c chunks} (stands : Stands region c (sourceOf chunks) region')
      (rest : Laid region' chunks) : Laid region (c :: chunks)

variable {cs ds piece rest : List Char} {mode mode' : Mode} {place : Position} {s : Stride}
  {region region' : Option Region} {c : Chunk} {tokens : List Token}

theorem Stands.ne_nil (h : Stands region c rest region') : c.raw ≠ [] := by
  cases h with
  | data nonempty => exact nonempty
  | comment => exact List.cons_ne_nil _ _
  | opening r => cases r <;> exact List.cons_ne_nil _ _
  | closing r => cases r <;> exact List.cons_ne_nil _ _
  | blank nonempty => exact nonempty
  | word word => exact word.ne_nil

/-! ### One step -/

/-- The rest of a piece moves the place on. -/
theorem walk_pass (cs ds : List Char) :
    walk mode place cs.length (cs ++ ds) = walk mode (place.after cs) 0 ds := by
  induction cs generalizing place with
  | nil => rfl
  | cons c cs ih =>
    rw [List.length_cons, List.cons_append, walk, ih, Position.after_cons]

/-- One step of the walk passes over a piece. -/
theorem walk_append (hne : piece ≠ []) (h : stride mode place (piece ++ rest) = .ok s)
    (hlen : s.length = piece.length) :
    walk mode place 0 (piece ++ rest)
      = (walk s.mode (place.after piece) 0 rest).map (emit s.token? place) := by
  obtain ⟨c, cs, rfl⟩ := List.exists_cons_of_ne_nil hne
  rw [List.cons_append] at h ⊢
  rw [walk, h]
  simp only [hlen, List.length_cons, Nat.add_sub_cancel, walk_pass, Position.after_cons]
  rcases walk s.mode ((place.next c).after cs) 0 rest with f | tokens
  · rfl
  · rcases s.token? with - | ⟨kind, text⟩ <;> rfl

theorem opening?_comment (h : opening? cs = some .comment) :
    ∃ rest, cs = '\x7b' :: '#' :: rest := by
  unfold opening? at h
  split at h <;> cases h
  exact ⟨_, rfl⟩

theorem opening?_region {r : Region} (h : opening? cs = some (.region r)) :
    ∃ rest, cs = r.openingMark ++ rest := by
  unfold opening? at h
  split at h <;> cases h <;> exact ⟨_, rfl⟩

/-- What a step passes over is a piece that may stand there. -/
theorem stride_eq_ok (hne : cs ≠ []) (h : stride mode place cs = .ok s) :
    ∃ c rest, cs = Chunk.raw c ++ rest ∧ s.length = c.raw.length ∧ s.token? = c.token? ∧
      Stands mode.region? c rest s.mode.region? := by
  cases mode with
  | plain =>
    rw [stride] at h
    rcases ho : opening? cs with - | r | -
    · simp only [ho] at h
      cases h
      obtain ⟨rest, hcs, hnone, hrest⟩ := plainRun_spec cs
      refine ⟨.token .data (plainRun cs) (plainRun cs), rest, hcs, rfl, rfl, .data ?_ ?_ hrest⟩
      · -- nothing opens at the front, so the first character is plain text
        intro hnil
        rw [hnil, List.nil_append] at hcs
        subst hcs
        rcases hrest with rfl | hsome
        · exact hne rfl
        · simp [ho] at hsome
      · rwa [← hcs]
    · simp only [ho] at h
      cases h
      obtain ⟨rest, hcs⟩ := opening?_region ho
      exact ⟨.token r.beginKind r.openingMark r.openingMark, rest, hcs, by cases r <;> rfl, rfl,
        .opening r⟩
    · obtain ⟨more, rfl⟩ := opening?_comment ho
      rcases hrun : commentRun? more with - | run
      · simp [ho, hrun] at h
      · simp only [ho, List.drop_succ_cons, List.drop_zero, hrun] at h
        cases h
        obtain ⟨rest, rfl, closes⟩ := commentRun?_eq_some hrun
        exact ⟨.comment ('\x7b' :: '#' :: run), rest, rfl, rfl, rfl, .comment closes⟩
  | inside r opened =>
    simp only [stride] at h
    split at h
    · next hclose =>
      cases h
      obtain ⟨rest, hcs⟩ := List.isPrefixOf_iff_prefix.mp hclose
      exact ⟨.token r.endKind r.closingMark r.closingMark, rest, hcs.symm, by cases r <;> rfl, rfl,
        .closing r⟩
    · split at h
      · next hpiece =>
        cases h
        obtain ⟨run, rest, hcs, hlen, nonempty, blank⟩ := piece?_blank hpiece
        exact ⟨.blank run, rest, hcs, hlen.symm, rfl, .blank nonempty blank⟩
      · next hpiece =>
        cases h
        obtain ⟨raw, rest, hcs, hlen, word⟩ := piece?_token hpiece
        exact ⟨.token _ _ raw, rest, hcs, hlen.symm, rfl, .word word⟩
      · cases h
      · cases h

/-- A source from which tokens come is laid out as pieces. -/
theorem exists_laid (h : walk mode place 0 cs = .ok tokens) :
    ∃ chunks, Laid mode.region? chunks ∧ sourceOf chunks = cs ∧ tokens = tokensAt place chunks := by
  induction hn : cs.length using Nat.strongRecOn generalizing cs mode place tokens with
  | ind n ih =>
    by_cases hne : cs = []
    · subst hne
      cases mode with
      | plain =>
        cases h
        exact ⟨[], .nil, rfl, rfl⟩
      | inside r opened => cases h
    · obtain ⟨s, hs⟩ : ∃ s, stride mode place cs = .ok s := by
        obtain ⟨d, ds, rfl⟩ := List.exists_cons_of_ne_nil hne
        rw [walk] at h
        rcases hs : stride mode place (d :: ds) with f | s
        · simp [hs] at h
        · exact ⟨s, rfl⟩
      obtain ⟨c, rest, rfl, hlen, htoken, stands⟩ := stride_eq_ok hne hs
      rw [walk_append stands.ne_nil hs hlen] at h
      rcases hw : walk s.mode (place.after c.raw) 0 rest with f | others
      · simp [hw, Except.map] at h
      · rw [hw] at h
        cases h
        -- a piece is not empty, so less than before is left
        have hlt : rest.length < n := by
          have := List.length_pos_iff.mpr stands.ne_nil
          simp only [← hn, List.length_append]
          omega
        obtain ⟨chunks, laid, rfl, rfl⟩ := ih rest.length hlt hw rfl
        exact ⟨c :: chunks, .cons stands laid, rfl, by rw [htoken]; rfl⟩

end Stencil
