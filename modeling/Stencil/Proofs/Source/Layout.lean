/-
Stencil/Proofs/Source/Layout.lean

Where tokens stand in a source.  Nothing of a source is lost: each token was read from a part of it
(`Spot`), these parts lie apart and in order, and what is between them is blank or a comment.

The pieces that a source is laid out as fix the spots of the tokens (`spotsOf`).  What holds of one
spot follows from what its piece looks like; that a blank lies inside a region follows from the
pieces on both sides of it, the last opening mark before it (`Laid.exists_opening`) and the first
closing mark behind it (`Laid.exists_closing`).
-/
import Stencil.Proofs.Source.Walk

namespace Stencil

/-! ### Spots -/

/-- A token, and the part of the source that it was read from. -/
structure Spot where
  token : Token
  offset : Nat
  raw : List Char

namespace Spot

/-- The offset behind a spot. -/
def stop (s : Spot) : Nat := s.offset + s.raw.length

/-- The kind of the token at a spot. -/
def kind (s : Spot) : TokenKind := s.token.kind

end Spot

/-- A line starts at the first offset, and it is the line that the second lies in. -/
structure LineStart (cs : List Char) (start offset : Nat) : Prop where
  le : start ≤ offset
  feed : start = 0 ∨ cs[start - 1]? = some '\n'
  same : ∀ i, start ≤ i → i < offset → cs[i]? ≠ some '\n'

/-- A comment, from its opening mark to the first closing mark behind it. -/
structure CommentAt (cs : List Char) (start stop : Nat) : Prop where
  opens : ['\x7b', '#'] <+: cs.drop start
  le : start + 4 ≤ stop
  closes : ['#', '\x7d'] <+: cs.drop (stop - 2)
  first : ∀ i, start + 2 ≤ i → i + 2 < stop → ¬ ['#', '\x7d'] <+: cs.drop i

/-- An offset lies between the marks of a region. -/
def InRegion (spots : List Spot) (i : Nat) : Prop :=
  ∃ (r : Region) (before inner after : List Spot) (opening closing : Spot),
    spots = before ++ opening :: (inner ++ closing :: after) ∧
      opening.kind = r.beginKind ∧ closing.kind = r.endKind ∧
      (∀ s ∈ inner, s.kind ∈ wordKinds) ∧ opening.stop ≤ i ∧ i < closing.offset

/-- How tokens lie in a source. -/
structure Layout (cs : List Char) (tokens : List Token) (spots : List Spot) : Prop where
  /-- There is one spot for each token. -/
  tokens_eq : spots.map Spot.token = tokens
  /-- The offsets increase, and the raw texts do not overlap. -/
  ordered : spots.Pairwise fun s t => s.offset < t.offset ∧ s.stop ≤ t.offset
  /-- The raw texts stand in the source where they are said to. -/
  stands : ∀ s ∈ spots, s.raw <+: cs.drop s.offset
  /-- The row of a token is one more than the number of line feeds before it. -/
  line : ∀ s ∈ spots, s.token.line = 1 + (cs.take s.offset).count '\n'
  /-- The column of a token is its distance from the start of its line. -/
  column : ∀ s ∈ spots, ∃ start, LineStart cs start s.offset ∧ s.token.column = s.offset - start
  /-- The text of a token is its raw text, unless it is a string. -/
  verbatim : ∀ s ∈ spots, s.kind ≠ .string → s.token.text = String.ofList s.raw
  /-- The text of a string is what is between its marks, without the backslashes. -/
  quoted : ∀ s ∈ spots, s.kind = .string → ∃ mark body, (mark = '\'' ∨ mark = '"') ∧
    s.raw = mark :: (body ++ [mark]) ∧ Unescapes body s.token.text.toList
  /-- What no token was read from is blank and in a region, or in a comment. -/
  covered : ∀ i < cs.length, (∃ s ∈ spots, s.offset ≤ i ∧ i < s.stop) ∨
    (∃ c, cs[i]? = some c ∧ Text.isBlank c = true ∧ InRegion spots i) ∨
    ∃ start stop, start ≤ i ∧ i < stop ∧ CommentAt cs start stop ∧
      ∀ s ∈ spots, s.stop ≤ start ∨ stop ≤ s.offset
  /-- Plain text is not empty and has no opening mark. -/
  data : ∀ s ∈ spots, s.kind = .data → s.token.text ≠ "" ∧ Unopened s.token.text.toList
  /-- Between two plain texts without another token between them there is a comment. -/
  apart : ∀ before s t after, spots = before ++ s :: t :: after → s.kind = .data →
    t.kind = .data → ∃ start stop, s.stop ≤ start ∧ stop ≤ t.offset ∧ CommentAt cs start stop
  /-- The token that closes the list is the only one of its kind, at the end of the source. -/
  closed : ∃ front last, spots = front ++ [last] ∧ last.kind = .eof ∧ last.offset = cs.length ∧
    last.raw = [] ∧ ∀ s ∈ front, s.kind ≠ .eof

/-! ### Places -/

theorem Position.after_concat (p : Position) (cs : List Char) (c : Char) :
    p.after (cs ++ [c]) = (p.after cs).next c := by
  rw [Position.after_append]
  rfl

theorem line_after (cs : List Char) : (Position.start.after cs).line = 1 + cs.count '\n' := by
  induction cs using List.reverseRecOn with
  | nil => rfl
  | append_singleton cs c ih =>
    rw [Position.after_concat, Position.next, List.count_append, List.count_singleton]
    split
    · next h =>
      subst h
      simp [ih, Int.add_assoc]
    · next h => simp [ih, h]

theorem column_after (cs : List Char) : ∃ start, LineStart cs start cs.length ∧
    (Position.start.after cs).column = cs.length - start := by
  induction cs using List.reverseRecOn with
  | nil => exact ⟨0, ⟨Nat.le_refl _, .inl rfl, by simp⟩, rfl⟩
  | append_singleton cs c ih =>
    obtain ⟨start, h, hcolumn⟩ := ih
    have hle := h.le
    rw [Position.after_concat, Position.next, List.length_append, List.length_singleton]
    split
    · next hc =>
      -- the next line starts behind the line feed
      refine ⟨cs.length + 1, ⟨Nat.le_refl _, .inr (by simp [hc]), fun i _ _ => by omega⟩, by simp⟩
    · next hc =>
      refine ⟨start, ⟨by omega, ?_, fun i hi hlt => ?_⟩, by simp [hcolumn]; omega⟩
      · refine h.feed.imp_right fun hfeed => ?_
        rwa [List.getElem?_append_left (List.getElem?_eq_some_iff.mp hfeed).1]
      · rcases Nat.lt_succ_iff_lt_or_eq.mp hlt with hlt | rfl
        · rw [List.getElem?_append_left hlt]
          exact h.same i hi hlt
        · simpa using hc

/-- A line start before an offset is one in the whole source. -/
theorem LineStart.of_append {cs ds : List Char} {start : Nat} (h : LineStart cs start cs.length) :
    LineStart (cs ++ ds) start cs.length := by
  refine ⟨h.le, h.feed.imp_right fun hfeed => ?_, fun i hi hlt => ?_⟩
  · rwa [List.getElem?_append_left (List.getElem?_eq_some_iff.mp hfeed).1]
  · rw [List.getElem?_append_left hlt]
    exact h.same i hi hlt

/-! ### The spots of pieces -/

/-- The spot of a piece behind a text, if it is a token. -/
def Chunk.spots (before : List Char) : Chunk → List Spot
  | .token kind text raw =>
    [⟨⟨kind, String.ofList text, Position.start.after before⟩, before.length, raw⟩]
  | .blank _ | .comment _ => []

/-- The spots of pieces behind a text. -/
def spotsOf (before : List Char) : List Chunk → List Spot
  | [] => []
  | c :: chunks => c.spots before ++ spotsOf (before ++ c.raw) chunks

/-- The spot of the token that closes the list. -/
def endSpot (cs : List Char) : Spot := ⟨⟨.eof, "", Position.start.after cs⟩, cs.length, []⟩

variable {before cs : List Char} {c : Chunk} {chunks front back : List Chunk} {s : Spot}
  {region : Option Region} {r : Region}

theorem sourceOf_append : sourceOf (front ++ back) = sourceOf front ++ sourceOf back :=
  List.flatMap_append

theorem spotsOf_append :
    spotsOf before (front ++ back)
      = spotsOf before front ++ spotsOf (before ++ sourceOf front) back := by
  induction front generalizing before with
  | nil => simp [spotsOf]
  | cons c front ih => simp [spotsOf, ih, List.append_assoc]

theorem tokensAt_eq (before : List Char) (chunks : List Chunk) :
    tokensAt (Position.start.after before) chunks
      = (spotsOf before chunks ++ [endSpot (before ++ sourceOf chunks)]).map Spot.token := by
  induction chunks generalizing before with
  | nil => simp [tokensAt, spotsOf, endSpot]
  | cons c chunks ih =>
    rw [tokensAt, ← Position.after_append, ih, sourceOf_cons, spotsOf, ← List.append_assoc before]
    cases c <;> simp [emit, Chunk.token?, Chunk.spots]

/-- A spot is that of a piece. -/
theorem exists_of_mem_spotsOf (h : s ∈ spotsOf before chunks) :
    ∃ front kind text raw back, chunks = front ++ .token kind text raw :: back ∧
      s = ⟨⟨kind, String.ofList text, Position.start.after (before ++ sourceOf front)⟩,
        (before ++ sourceOf front).length, raw⟩ := by
  induction chunks generalizing before with
  | nil => cases h
  | cons c chunks ih =>
    rcases List.mem_append.mp h with h | h
    · cases c with
      | token kind text raw =>
        obtain rfl := List.mem_singleton.mp h
        exact ⟨[], kind, text, raw, chunks, rfl, by simp⟩
      | blank | comment => cases h
    · obtain ⟨front, kind, text, raw, back, rfl, rfl⟩ := ih h
      exact ⟨c :: front, kind, text, raw, back, rfl, by simp⟩

/-- Spots lie in the text of their pieces. -/
theorem bounds_of_mem_spotsOf (h : s ∈ spotsOf before chunks) :
    before.length ≤ s.offset ∧ s.stop ≤ before.length + (sourceOf chunks).length := by
  obtain ⟨front, kind, text, raw, back, rfl, rfl⟩ := exists_of_mem_spotsOf h
  simp only [Spot.stop, sourceOf_append, sourceOf_cons, List.length_append, Chunk.raw]
  omega

theorem Laid.stands_of_append (h : Laid region (front ++ c :: back)) :
    ∃ region₁ region₂, Stands region₁ c (sourceOf back) region₂ := by
  induction front generalizing region with
  | nil =>
    cases h with
    | cons stands _ => exact ⟨_, _, stands⟩
  | cons d front ih =>
    cases h with
    | cons _ rest => exact ih rest

theorem Laid.pairwise (h : Laid region chunks) :
    (spotsOf before chunks).Pairwise fun s t => s.offset < t.offset ∧ s.stop ≤ t.offset := by
  induction h generalizing before with
  | nil => exact .nil
  | @cons region region' c chunks stands rest ih =>
    refine List.pairwise_append.mpr ⟨by cases c <;> simp [Chunk.spots], ih, fun s hs t ht => ?_⟩
    have hle := (bounds_of_mem_spotsOf ht).1
    have hpos := List.length_pos_iff.mpr stands.ne_nil
    cases c with
    | token kind text raw =>
      obtain rfl := List.mem_singleton.mp hs
      simp only [Spot.stop, List.length_append, Chunk.raw] at hle hpos ⊢
      omega
    | blank | comment => cases hs

/-! ### Regions -/

/-- Blanks and the words of a region. -/
def Chunk.IsInner : Chunk → Prop
  | .token kind _ _ => kind ∈ wordKinds
  | .blank _ => True
  | .comment _ => False

theorem kind_mem_of_inner (h : ∀ c ∈ chunks, c.IsInner) (hs : s ∈ spotsOf before chunks) :
    s.kind ∈ wordKinds := by
  obtain ⟨front, kind, text, raw, back, rfl, rfl⟩ := exists_of_mem_spotsOf hs
  exact h (.token kind text raw) (by simp)

/-- Where a region is, its closing mark follows, behind inner pieces. -/
theorem Laid.exists_closing (h : Laid (some r) chunks) : ∃ inner back,
    chunks = inner ++ .token r.endKind r.closingMark r.closingMark :: back ∧
      ∀ c ∈ inner, c.IsInner := by
  generalize hr : some r = region at h
  induction h with
  | nil => cases hr
  | cons stands rest ih =>
    subst hr
    cases stands with
    | closing => exact ⟨[], _, rfl, by simp⟩
    | @blank _ run _ _ _ =>
      obtain ⟨inner, back, rfl, hinner⟩ := ih rfl
      exact ⟨.blank run :: inner, back, rfl, List.forall_mem_cons.mpr ⟨trivial, hinner⟩⟩
    | @word _ kind text raw _ word =>
      obtain ⟨inner, back, rfl, hinner⟩ := ih rfl
      exact ⟨.token kind text raw :: inner, back, rfl,
        List.forall_mem_cons.mpr ⟨word.kind_mem, hinner⟩⟩

/-- Where a region is, its opening mark precedes, in front of inner pieces, or the region was there
from the start. -/
theorem Laid.exists_opening (h : Laid region (front ++ back)) : ∃ region', Laid region' back ∧
    ∀ r, region' = some r → (region = some r ∧ ∀ c ∈ front, c.IsInner) ∨
      ∃ outer inner, front = outer ++ .token r.beginKind r.openingMark r.openingMark :: inner ∧
        ∀ c ∈ inner, c.IsInner := by
  induction front generalizing region with
  | nil => exact ⟨region, h, fun r hr => .inl ⟨hr, by simp⟩⟩
  | cons c front ih =>
    cases h with
    | cons stands rest =>
      obtain ⟨region', hback, hfront⟩ := ih rest
      refine ⟨region', hback, fun r hr => ?_⟩
      rcases hfront r hr with ⟨rfl, hinner⟩ | ⟨outer, inner, rfl, hinner⟩
      · cases stands with
        | opening => exact .inr ⟨[], front, rfl, hinner⟩
        | blank => exact .inl ⟨rfl, List.forall_mem_cons.mpr ⟨trivial, hinner⟩⟩
        | word word => exact .inl ⟨rfl, List.forall_mem_cons.mpr ⟨word.kind_mem, hinner⟩⟩
      · exact .inr ⟨c :: outer, inner, rfl, hinner⟩

theorem spotsOf_token {kind : TokenKind} {text raw : List Char} :
    spotsOf before (.token kind text raw :: chunks)
      = ⟨⟨kind, String.ofList text, Position.start.after before⟩, before.length, raw⟩ ::
          spotsOf (before ++ raw) chunks :=
  rfl

theorem InRegion.append {as bs ds ends : List Spot} {opening closing : Spot} {i : Nat}
    (hopen : opening.kind = r.beginKind) (hclose : closing.kind = r.endKind)
    (hinner : ∀ s ∈ bs, s.kind ∈ wordKinds) (hle : opening.stop ≤ i) (hlt : i < closing.offset) :
    InRegion (as ++ opening :: (bs ++ closing :: ds) ++ ends) i :=
  ⟨r, as, bs, ds ++ ends, opening, closing, by simp, hopen, hclose, hinner, hle, hlt⟩

/-- What lies between the marks of a region lies in it. -/
theorem inRegion_of_marks {outer inner : List Chunk} {ends : List Spot} {i : Nat}
    (hinner : ∀ c ∈ inner, c.IsInner)
    (hle : (sourceOf outer ++ r.openingMark).length ≤ i)
    (hlt : i < (sourceOf outer ++ r.openingMark ++ sourceOf inner).length) :
    InRegion (spotsOf [] (outer ++ .token r.beginKind r.openingMark r.openingMark ::
      (inner ++ .token r.endKind r.closingMark r.closingMark :: back)) ++ ends) i := by
  rw [spotsOf_append, spotsOf_token, spotsOf_append, spotsOf_token]
  refine InRegion.append rfl rfl (fun s hs => kind_mem_of_inner hinner hs) ?_ ?_
  · simpa [Spot.stop] using hle
  · simpa [Nat.add_assoc] using hlt

/-- A blank lies inside a region. -/
theorem Laid.inRegion {run : List Char} {ends : List Spot} {i : Nat}
    (h : Laid none (front ++ .blank run :: back)) (hle : (sourceOf front).length ≤ i)
    (hlt : i < (sourceOf front).length + run.length) :
    InRegion (spotsOf [] (front ++ .blank run :: back) ++ ends) i := by
  obtain ⟨region, hback, hfront⟩ := h.exists_opening
  cases hback with
  | cons stands rest =>
    cases stands with
    | @blank r =>
      -- the walk starts outside of any region, so a mark has opened this one
      rcases hfront r rfl with ⟨hr, -⟩ | ⟨outer, inner, rfl, hinner⟩
      · cases hr
      obtain ⟨inner', back, rfl, hinner'⟩ := rest.exists_closing
      have hall : ∀ c ∈ inner ++ .blank run :: inner', Chunk.IsInner c :=
        List.forall_mem_append.mpr ⟨hinner, List.forall_mem_cons.mpr ⟨trivial, hinner'⟩⟩
      have hlt' : i < (sourceOf outer ++ r.openingMark ++
          sourceOf (inner ++ .blank run :: inner')).length := by
        simp only [sourceOf_append, sourceOf_cons, Chunk.raw, List.length_append] at hlt ⊢
        omega
      have hle' : (sourceOf outer ++ r.openingMark).length ≤ i := by
        simp only [sourceOf_append, sourceOf_cons, Chunk.raw, List.length_append] at hle ⊢
        omega
      simpa using @inRegion_of_marks back r outer _ ends i hall hle' hlt'

/-! ### Comments -/

/-- A comment lies where its piece does. -/
theorem commentAt_append {run : List Char} (h : ClosesFirst run) (before after : List Char) :
    CommentAt (before ++ ('\x7b' :: '#' :: run ++ after)) before.length
      (before.length + (run.length + 2)) := by
  obtain ⟨body, rfl, first⟩ := h
  have hdrop : ∀ j, (before ++ ('\x7b' :: '#' :: (body ++ ['#', '\x7d']) ++ after)).drop
      (before.length + 2 + j) = (body ++ ['#', '\x7d'] ++ after).drop j := fun j => by
    rw [Nat.add_assoc, List.drop_length_add_append, Nat.add_comm 2 j]
    rfl
  refine ⟨⟨body ++ ['#', '\x7d'] ++ after, by simp⟩, by simp, ?_, fun i hle hlt => ?_⟩
  · have hstop : before.length + ((body ++ ['#', '\x7d']).length + 2) - 2
        = before.length + 2 + body.length := by
      simp
      omega
    rw [hstop, hdrop, List.append_assoc, List.drop_left]
    exact List.prefix_append _ _
  · obtain ⟨j, rfl⟩ := Nat.exists_eq_add_of_le hle
    rw [hdrop]
    intro hprefix
    -- the mark would lie in the comment as a whole, and begin before its last two characters
    have hj : j < body.length := by
      simp only [List.length_append, List.length_cons, List.length_nil] at hlt
      omega
    have hle' : j ≤ (body ++ ['#', '\x7d']).length := by
      rw [List.length_append]
      omega
    rw [List.drop_append_of_le_length hle'] at hprefix
    refine first j hj (List.prefix_of_prefix_length_le hprefix (List.prefix_append _ _) ?_)
    simp
    omega

/-! ### What is covered -/

theorem exists_chunk_at {i : Nat} (h : i < (sourceOf chunks).length) :
    ∃ front c back, chunks = front ++ c :: back ∧ (sourceOf front).length ≤ i ∧
      i < (sourceOf front).length + c.raw.length := by
  induction chunks generalizing i with
  | nil => cases h
  | cons c chunks ih =>
    rw [sourceOf_cons, List.length_append] at h
    by_cases hi : i < c.raw.length
    · exact ⟨[], c, chunks, rfl, Nat.zero_le _, by simpa using hi⟩
    · obtain ⟨front, d, back, rfl, hle, hlt⟩ := @ih (i - c.raw.length) (by omega)
      refine ⟨c :: front, d, back, rfl, ?_, ?_⟩ <;>
        · rw [sourceOf_cons, List.length_append]
          omega

theorem Laid.covered (h : Laid none chunks) {i : Nat} (hi : i < (sourceOf chunks).length) :
    (∃ s ∈ spotsOf [] chunks ++ [endSpot (sourceOf chunks)], s.offset ≤ i ∧ i < s.stop) ∨
    (∃ c, (sourceOf chunks)[i]? = some c ∧ Text.isBlank c = true ∧
      InRegion (spotsOf [] chunks ++ [endSpot (sourceOf chunks)]) i) ∨
    ∃ start stop, start ≤ i ∧ i < stop ∧ CommentAt (sourceOf chunks) start stop ∧
      ∀ s ∈ spotsOf [] chunks ++ [endSpot (sourceOf chunks)], s.stop ≤ start ∨ stop ≤ s.offset := by
  obtain ⟨front, c, back, rfl, hle, hlt⟩ := exists_chunk_at hi
  obtain ⟨region₁, region₂, stands⟩ := h.stands_of_append
  -- the piece at the offset is a token, a blank or a comment
  cases c with
  | token kind text raw =>
    refine .inl ⟨⟨⟨kind, String.ofList text, Position.start.after (sourceOf front)⟩,
      (sourceOf front).length, raw⟩, ?_, hle, hlt⟩
    rw [spotsOf_append, spotsOf_token]
    simp
  | blank run =>
    refine .inr (.inl ?_)
    have hget : (sourceOf (front ++ .blank run :: back))[i]?
        = run[i - (sourceOf front).length]? := by
      rw [sourceOf_append, sourceOf_cons, List.getElem?_append_right hle]
      exact List.getElem?_append_left (by simp only [Chunk.raw] at hlt ⊢; omega)
    have hlt' : i - (sourceOf front).length < run.length := by
      simp only [Chunk.raw] at hlt
      omega
    refine ⟨run[i - (sourceOf front).length], by rw [hget, List.getElem?_eq_getElem hlt'], ?_,
      h.inRegion hle hlt⟩
    cases stands with
    | blank _ blank => exact blank _ (List.getElem_mem _)
  | comment raw =>
    cases stands with
    | @comment run _ closes =>
      refine .inr (.inr ⟨(sourceOf front).length, (sourceOf front).length + (run.length + 2), hle,
        hlt, ?_, fun s hs => ?_⟩)
      · rw [sourceOf_append, sourceOf_cons]
        exact commentAt_append closes _ _
      · rw [spotsOf_append, List.append_assoc, List.mem_append, List.mem_append] at hs
        rcases hs with hs | hs | hs
        · have := (bounds_of_mem_spotsOf hs).2
          exact .inl (by simpa using this)
        · have := (@bounds_of_mem_spotsOf _ back s hs).1
          exact .inr (by simpa [Chunk.raw] using this)
        · obtain rfl := List.mem_singleton.mp hs
          refine .inr ?_
          simp only [endSpot, sourceOf_append, sourceOf_cons, Chunk.raw, List.length_append,
            List.length_cons]
          omega

/-- Where plain text ended, plain text is the next token only behind a comment. -/
theorem Laid.comment_first (h : Laid none chunks)
    (opens : sourceOf chunks = [] ∨ (opening? (sourceOf chunks)).isSome)
    {before ends : List Char} {post : List Spot} {t : Spot}
    (hnext : spotsOf before chunks ++ [endSpot ends] = t :: post) (ht : t.kind = .data) :
    ∃ stop ≤ t.offset, CommentAt (before ++ sourceOf chunks) before.length stop := by
  cases h with
  | nil =>
    obtain ⟨rfl, -⟩ := List.cons.inj hnext
    cases ht
  | @cons _ _ c chunks stands rest =>
    cases stands with
    | opening r =>
      obtain ⟨rfl, -⟩ := List.cons.inj hnext
      cases r <;> cases ht
    | data nonempty plain =>
      -- plain text does not begin where something opens
      have hnone := plain 0 (List.length_pos_iff.mpr nonempty)
      rcases opens with hnil | hsome
      · simp [Chunk.raw, nonempty] at hnil
      · rw [List.drop_zero] at hnone
        exact absurd hnone (Option.isSome_iff_ne_none.mp hsome)
    | @comment run _ closes =>
      refine ⟨_, ?_, commentAt_append closes before (sourceOf chunks)⟩
      have hmem : t ∈ spotsOf (before ++ ('\x7b' :: '#' :: run)) chunks ++ [endSpot ends] := by
        have : t ∈ t :: post := List.mem_cons_self
        rwa [← hnext] at this
      rcases List.mem_append.mp hmem with hmem | hmem
      · have := (bounds_of_mem_spotsOf hmem).1
        simpa using this
      · obtain rfl := List.mem_singleton.mp hmem
        cases ht

/-- Two plain texts without a token between them have a comment between them. -/
theorem Laid.apart (h : Laid region chunks) {before ends : List Char} {pre post : List Spot}
    {s t : Spot} (hspots : spotsOf before chunks ++ [endSpot ends] = pre ++ s :: t :: post)
    (hs : s.kind = .data) (ht : t.kind = .data) : ∃ start stop, s.stop ≤ start ∧
      stop ≤ t.offset ∧ CommentAt (before ++ sourceOf chunks) start stop := by
  induction h generalizing before pre with
  | nil =>
    have := congrArg List.length hspots
    simp [spotsOf] at this
    omega
  | @cons region region' c chunks stands rest ih =>
    rw [sourceOf_cons, ← List.append_assoc]
    cases c with
    | blank raw => exact ih hspots
    | comment raw => exact ih hspots
    | token kind text raw =>
      rw [spotsOf_token, List.cons_append] at hspots
      cases pre with
      | cons p pre => exact ih (List.cons.inj hspots).2
      | nil =>
        -- the first piece is the first of the two texts
        obtain ⟨rfl, hnext⟩ := List.cons.inj hspots
        have hkind : kind = .data := hs
        cases stands with
        | opening r => cases r <;> cases hkind
        | closing r => cases r <;> cases hkind
        | word word =>
          subst hkind
          exact absurd word.kind_mem (by decide)
        | data nonempty plain opens =>
          obtain ⟨stop, hle, comment⟩ := rest.comment_first opens hnext ht
          exact ⟨_, stop, by simp [Spot.stop], hle, comment⟩

/-! ### Single spots -/

/-- What the piece of a token has to do with the token. -/
structure TokenSpec (kind : TokenKind) (text raw : List Char) : Prop where
  nonempty : raw ≠ []
  notEof : kind ≠ .eof
  verbatim : kind ≠ .string → text = raw
  quoted : kind = .string → ∃ mark body, (mark = '\'' ∨ mark = '"') ∧
    raw = mark :: (body ++ [mark]) ∧ Unescapes body text
  data : kind = .data → text ≠ [] ∧ Unopened text

theorem Stands.tokenSpec {kind : TokenKind} {text raw rest : List Char} {region' : Option Region}
    (h : Stands region (.token kind text raw) rest region') : TokenSpec kind text raw := by
  refine ⟨h.ne_nil, ?_, ?_, ?_, ?_⟩ <;> intro hkind
  · cases h with
    | data => cases hkind
    | opening r => cases r <;> cases hkind
    | closing r => cases r <;> cases hkind
    | word word =>
      subst hkind
      exact absurd word.kind_mem (by decide)
  · cases h with
    | data | opening | closing => rfl
    | word word =>
      cases word with
      | verbatim => rfl
      | quoted => exact absurd rfl hkind
  · cases h with
    | data => cases hkind
    | opening r => cases r <;> cases hkind
    | closing r => cases r <;> cases hkind
    | word word =>
      cases word with
      | verbatim _ other => exact absurd hkind other
      | @quoted mark body _ isMark value => exact ⟨mark, body, isMark, rfl, value⟩
  · cases h with
    | data nonempty plain => exact ⟨nonempty, .of_opening? plain⟩
    | opening r => cases r <;> cases hkind
    | closing r => cases r <;> cases hkind
    | word word =>
      subst hkind
      exact absurd word.kind_mem (by decide)

/-- A spot is the last one, or that of a piece whose token it is. -/
theorem Laid.spot (h : Laid none chunks)
    (hs : s ∈ spotsOf [] chunks ++ [endSpot (sourceOf chunks)]) :
    s = endSpot (sourceOf chunks) ∨ ∃ front kind text raw rest,
      sourceOf chunks = front ++ (raw ++ rest) ∧ TokenSpec kind text raw ∧
      s = ⟨⟨kind, String.ofList text, Position.start.after front⟩, front.length, raw⟩ := by
  rcases List.mem_append.mp hs with hs | hs
  · obtain ⟨front, kind, text, raw, back, rfl, rfl⟩ := exists_of_mem_spotsOf hs
    obtain ⟨region₁, region₂, stands⟩ := h.stands_of_append
    exact .inr ⟨sourceOf front, kind, text, raw, sourceOf back,
      by rw [sourceOf_append, sourceOf_cons, Chunk.raw], stands.tokenSpec, rfl⟩
  · exact .inl (List.mem_singleton.mp hs)

/-- The place of a token is that behind the text in front of it. -/
theorem Laid.position (h : Laid none chunks)
    (hs : s ∈ spotsOf [] chunks ++ [endSpot (sourceOf chunks)]) :
    s.offset ≤ (sourceOf chunks).length ∧
      s.token.position = Position.start.after ((sourceOf chunks).take s.offset) := by
  rcases h.spot hs with rfl | ⟨front, kind, text, raw, rest, hsource, -, rfl⟩
  · exact ⟨Nat.le_refl _, by simp [endSpot]⟩
  · rw [hsource]
    exact ⟨by simp, by simp⟩

/-! ### The layout of a source -/

/-- A source that is laid out as pieces has its tokens where the pieces are. -/
theorem Laid.layout (h : Laid none chunks) : Layout (sourceOf chunks)
    (tokensAt Position.start chunks) (spotsOf [] chunks ++ [endSpot (sourceOf chunks)]) where
  tokens_eq := (tokensAt_eq [] chunks).symm
  ordered := by
    refine List.pairwise_append.mpr ⟨h.pairwise, List.pairwise_singleton .., fun s hs t ht => ?_⟩
    obtain rfl := List.mem_singleton.mp ht
    have hstop := (bounds_of_mem_spotsOf hs).2
    obtain ⟨front, kind, text, raw, back, rfl, rfl⟩ := exists_of_mem_spotsOf hs
    obtain ⟨region₁, region₂, stands⟩ := h.stands_of_append
    have hpos := List.length_pos_iff.mpr stands.ne_nil
    simp only [Spot.stop, endSpot, Chunk.raw, List.length_nil] at hstop hpos ⊢
    omega
  stands s hs := by
    rcases h.spot hs with rfl | ⟨front, kind, text, raw, rest, hsource, -, rfl⟩
    · exact List.nil_prefix
    · rw [hsource, List.drop_left]
      exact List.prefix_append _ _
  line s hs := by
    rw [Token.line, (h.position hs).2, line_after]
  column s hs := by
    obtain ⟨hle, hposition⟩ := h.position hs
    obtain ⟨start, hstart, hcolumn⟩ := column_after ((sourceOf chunks).take s.offset)
    have hlen : ((sourceOf chunks).take s.offset).length = s.offset := List.length_take_of_le hle
    have hline := @LineStart.of_append _ ((sourceOf chunks).drop s.offset) _ hstart
    rw [List.take_append_drop, hlen] at hline
    exact ⟨start, hline, by rw [Token.column, hposition, hcolumn, hlen]⟩
  verbatim s hs hkind := by
    rcases h.spot hs with rfl | ⟨front, kind, text, raw, rest, -, spec, rfl⟩
    · rfl
    · exact congrArg String.ofList (spec.verbatim hkind)
  quoted s hs hkind := by
    rcases h.spot hs with rfl | ⟨front, kind, text, raw, rest, -, spec, rfl⟩
    · cases hkind
    · obtain ⟨mark, body, isMark, hraw, value⟩ := spec.quoted hkind
      exact ⟨mark, body, isMark, hraw, by simpa using value⟩
  covered i hi := h.covered hi
  data s hs hkind := by
    rcases h.spot hs with rfl | ⟨front, kind, text, raw, rest, -, spec, rfl⟩
    · cases hkind
    · obtain ⟨nonempty, unopened⟩ := spec.data hkind
      exact ⟨by simpa using nonempty, by simpa using unopened⟩
  apart pre s t post hspots hs ht := h.apart hspots hs ht
  closed := by
    refine ⟨_, _, rfl, rfl, rfl, rfl, fun s hs => ?_⟩
    obtain ⟨front, kind, text, raw, back, rfl, rfl⟩ := exists_of_mem_spotsOf hs
    obtain ⟨region₁, region₂, stands⟩ := h.stands_of_append
    exact stands.tokenSpec.notEof

/-- Every source from which tokens come is laid out: nothing of it is lost, and each token says
where it begins. -/
theorem exists_layout_of_lex (source : String) (tokens : List Token)
    (h : lex source = .ok tokens) : ∃ spots, Layout source.toList tokens spots := by
  obtain ⟨chunks, laid, hsource, rfl⟩ := exists_laid h
  exact ⟨_, hsource ▸ laid.layout⟩

/-- Two plain texts around a comment, and a string with an escaped mark, a line feed and the
closing mark of its region. -/
theorem exists_layout_of_lex_commented : ∃ spots,
    Layout "a\n\x7b# % #\x7db\x7b\x7b 'it\\'s\n\x7d\x7d' \x7d\x7d".toList
      [⟨.data, "a\n", ⟨1, 0⟩⟩, ⟨.data, "b", ⟨2, 7⟩⟩, ⟨.variableBegin, "\x7b\x7b", ⟨2, 8⟩⟩,
       ⟨.string, "it's\n\x7d\x7d", ⟨2, 11⟩⟩, ⟨.variableEnd, "\x7d\x7d", ⟨3, 4⟩⟩,
       ⟨.eof, "", ⟨3, 6⟩⟩] spots :=
  exists_layout_of_lex _ _ (by decide)

end Stencil
