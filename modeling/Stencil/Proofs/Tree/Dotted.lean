/-
Stencil/Proofs/Tree/Dotted.lean

Dotted paths as they are written.  The grammar lets the segments of a path be names and whole
numbers in any order, and a source that is written so is read as the path (`ofSource_dotted`), with
one exception.  The lexer does not know that it stands in a path: of two numbers that are
neighbours, with the dot between them, it makes one number with a fraction, and the reader refuses
that, since it is no segment.

`Token.links` are the tokens of the segments, and both halves of the statement are about them: that
they are what is lexed (`walk_links`), and what they are read as, which is an induction on the
segments in front of the two numbers.
-/
import Mathlib.Data.List.Chain
import Stencil.Proofs.Source.Written
import Stencil.Proofs.Tree.Body

namespace Stencil

/-! ### Segments -/

instance (cs : List Char) : Decidable (AreDigits cs) :=
  have : Decidable (∀ c ∈ cs, Text.isDecimal c = true) := List.decidableBAll _ cs
  inferInstanceAs (Decidable (_ ∧ _))

/-- The text of a segment: a name, or digits. -/
def IsLink (s : String) : Prop := IsWord .name s.toList ∨ AreDigits s.toList

/-- Two segments that can be told apart when they are neighbours: they are not both numbers. -/
def NotBothDigits (s s' : String) : Prop := ¬ (AreDigits s.toList ∧ AreDigits s'.toList)

/-- The kind of the token that a segment is. -/
def linkKind (s : String) : TokenKind := if AreDigits s.toList then .integer else .name

/-- Segments as they are written, with a dot in front of each. -/
def linksText (segments : List String) : List Char := segments.flatMap fun s => '.' :: s.toList

/-- A source that prints the value of a path. -/
def dottedSource (base : String) (segments : List String) : String :=
  "\x7b\x7b " ++ ".".intercalate (base :: segments) ++ " \x7d\x7d"

/-- The tokens of segments that are written from a place on. -/
def Token.links (place : Position) : List String → List Token
  | [] => []
  | [s] => [⟨.dot, ".", place⟩, ⟨linkKind s, s, place.next '.'⟩]
  | s :: s' :: rest =>
    if AreDigits s.toList ∧ AreDigits s'.toList then
      ⟨.dot, ".", place⟩ :: ⟨.float, s ++ "." ++ s', place.next '.'⟩ ::
        links (place.after (linksText [s, s'])) rest
    else
      ⟨.dot, ".", place⟩ :: ⟨linkKind s, s, place.next '.'⟩ ::
        links (place.after (linksText [s])) (s' :: rest)

/-- The path that goes on from an expression through segments that are written from a place on. -/
def Expr.dotted (e : Expr Atom) (place : Position) : List String → Expr Atom
  | [] => e
  | s :: rest => dotted (.member (place.next '.') e s) (place.after (linksText [s])) rest

variable {s s' base : String} {segments before after : List String} {cs rest : List Char} {c : Char}
  {r : Region} {opened place : Position} {e : Expr Atom} {ts : List Token} {t : Token}

@[simp] theorem linksText_nil : linksText [] = [] := rfl

@[simp] theorem linksText_cons (s : String) (segments : List String) :
    linksText (s :: segments) = '.' :: (s.toList ++ linksText segments) := rfl

theorem linkKind_of_digits (h : AreDigits s.toList) : linkKind s = .integer := if_pos h

/-- No name is made of digits. -/
theorem not_areDigits_of_name (h : IsWord .name cs) : ¬ AreDigits cs := by
  rintro ⟨-, digits⟩
  obtain ⟨d, ds, rfl, start, -⟩ := h.exists_start
  have hd := digits d List.mem_cons_self
  rw [not_isDecimal_of_isNameStart start] at hd
  cases hd

theorem linkKind_of_name (h : IsWord .name s.toList) : linkKind s = .name :=
  if_neg (not_areDigits_of_name h)

theorem linkKind_mem (s : String) : linkKind s = .name ∨ linkKind s = .integer := by
  rw [linkKind]
  split
  · exact .inr rfl
  · exact .inl rfl

theorem toList_dottedSource (base : String) (segments : List String) :
    (dottedSource base segments).toList = Region.variableRegion.openingMark ++
      ' ' :: (base.toList ++ (linksText segments ++ ' ' :: Region.variableRegion.closingMark)) := by
  have hjoin : ∀ (s : String) (segments : List String),
      ['.'].intercalate (s.toList :: segments.map String.toList) = s.toList ++ linksText segments := by
    intro s segments
    induction segments generalizing s with
    | nil => simp
    | cons s' segments ih =>
      rw [List.map_cons, List.intercalate_cons_cons, ih, linksText_cons, List.append_assoc]
      rfl
  rw [dottedSource, String.toList_append, String.toList_append, String.toList_intercalate]
  have := hjoin base segments
  simp only [List.map_cons, show (".".toList) = ['.'] from rfl, this]
  simp [Region.openingMark, Region.closingMark]

/-! ### Segments are lexed -/

/-- What stands behind a segment: a dot or a blank. -/
theorem exists_behind_links (segments : List String) (rest : List Char) :
    ∃ c cs, linksText segments ++ ' ' :: rest = c :: cs ∧ isNamePart c = false ∧
      Text.isDecimal c = false := by
  cases segments with
  | nil => exact ⟨' ', rest, rfl, by decide, by decide⟩
  | cons s segments => exact ⟨'.', _, rfl, by decide, by decide⟩

theorem walk_dot (rest : List Char) :
    walk (.inside r opened) place 0 ('.' :: rest)
      = (walk (.inside r opened) (place.next '.') 0 rest).map (⟨.dot, ".", place⟩ :: ·) := by
  have hne : ['.'] ≠ [] := List.cons_ne_nil _ _
  exact walk_piece hne (isPrefixOf_closingMark (by decide)) (piece?_punctuation (by decide))

/-- Digits are read as a whole number where no fraction follows. -/
theorem piece?_digits (digits : AreDigits cs) (hdecimal : Text.isDecimal c = false)
    (hdot : c = '.' → ∀ d ∈ rest.head?, Text.isDecimal d = false) :
    piece? (cs ++ c :: rest) = some (.token .integer cs, cs.length) := by
  have hnil : ([] : List Char) ∈ signs := List.mem_cons_self
  obtain ⟨d, ds, hcs, hd⟩ := exists_beginsWord_number hnil digits (c :: rest)
  exact piece?_of_numberRun? hd hcs (numberRun?_integer hnil digits hdecimal hdot)

theorem piece?_fraction {fraction : List Char} (digits : AreDigits cs)
    (digits' : AreDigits fraction) (hdecimal : Text.isDecimal c = false) :
    piece? ((cs ++ '.' :: fraction) ++ c :: rest)
      = some (.token .float (cs ++ '.' :: fraction), (cs ++ '.' :: fraction).length) := by
  have hnil : ([] : List Char) ∈ signs := List.mem_cons_self
  obtain ⟨d, ds, hcs, hd⟩ := exists_beginsWord_number hnil digits ('.' :: (fraction ++ c :: rest))
  rw [List.append_assoc, List.cons_append]
  exact piece?_of_numberRun? hd hcs (numberRun?_float hnil digits digits' hdecimal)

theorem IsLink.beginsWord (h : IsLink s) : ∃ d ds, s.toList = d :: ds ∧ BeginsWord d := by
  rcases h with name | ⟨hne, digits⟩
  · obtain ⟨d, ds, hcs, start, -⟩ := name.exists_start
    exact ⟨d, ds, hcs, beginsWord_of_isNameStart start⟩
  · obtain ⟨d, ds, hcs⟩ := List.exists_cons_of_ne_nil hne
    exact ⟨d, ds, hcs, beginsWord_of_isDecimal (digits d (hcs ▸ List.mem_cons_self))⟩

/-- A name does not begin with a digit. -/
theorem not_isDecimal_head_of_name (name : IsWord .name s.toList) (rest : List Char) :
    ∀ d ∈ (s.toList ++ rest).head?, Text.isDecimal d = false := by
  intro d hd
  obtain ⟨d', ds, hcs, start, -⟩ := name.exists_start
  obtain rfl : d' = d := by simpa [hcs] using hd
  exact not_isDecimal_of_isNameStart start

/-- A segment is read where what stands behind it does not go on with it. -/
theorem walk_link (h : IsLink s) (hpart : isNamePart c = false) (hdecimal : Text.isDecimal c = false)
    (hdot : AreDigits s.toList → c = '.' → ∀ d ∈ rest.head?, Text.isDecimal d = false) :
    walk (.inside r opened) place 0 ('.' :: (s.toList ++ c :: rest))
      = (walk (.inside r opened) (place.after (linksText [s])) 0 (c :: rest)).map
          ([⟨.dot, ".", place⟩, ⟨linkKind s, s, place.next '.'⟩] ++ ·) := by
  have hpiece : piece? (s.toList ++ c :: rest)
      = some (.token (linkKind s) s.toList, s.toList.length) := by
    rcases h with name | digits
    · rw [linkKind_of_name name]
      exact piece?_name name hpart
    · rw [linkKind_of_digits digits]
      exact piece?_digits digits hdecimal (hdot digits)
  obtain ⟨d, ds, hraw, hd⟩ := h.beginsWord
  have hclose : r.closingMark.isPrefixOf (s.toList ++ c :: rest) = false := by
    rw [hraw]
    exact isPrefixOf_closingMark hd.notClose
  rw [walk_dot, walk_piece (by simp [hraw]) hclose hpiece, String.ofList_toList]
  simp only [linksText_cons, linksText_nil, List.append_nil, Position.after_cons]
  rcases walk (.inside r opened) ((place.next '.').after s.toList) 0 (c :: rest) with f | ts <;> rfl

/-- Two numbers that are neighbours are read as one. -/
theorem walk_fraction (digits : AreDigits s.toList) (digits' : AreDigits s'.toList)
    (hdecimal : Text.isDecimal c = false) :
    walk (.inside r opened) place 0 (linksText [s, s'] ++ c :: rest)
      = (walk (.inside r opened) (place.after (linksText [s, s'])) 0 (c :: rest)).map
          ([⟨.dot, ".", place⟩, ⟨.float, s ++ "." ++ s', place.next '.'⟩] ++ ·) := by
  have htext : String.ofList (s.toList ++ '.' :: s'.toList) = s ++ "." ++ s' := by
    apply String.toList_injective
    simp
  obtain ⟨d, ds, hraw, hd⟩ := IsLink.beginsWord (.inr digits)
  have hclose : r.closingMark.isPrefixOf ((s.toList ++ '.' :: s'.toList) ++ c :: rest) = false := by
    rw [hraw]
    exact isPrefixOf_closingMark hd.notClose
  have hsplit : linksText [s, s'] ++ c :: rest
      = '.' :: ((s.toList ++ '.' :: s'.toList) ++ c :: rest) := by simp
  rw [hsplit, walk_dot, walk_piece (by simp) hclose (piece?_fraction digits digits' hdecimal), htext]
  simp only [linksText_cons, linksText_nil, List.append_nil, Position.after_cons,
    Position.after_append]
  rcases walk (.inside r opened) (((place.next '.').after s.toList).next '.' |>.after s'.toList) 0
    (c :: rest) with f | ts <;> rfl

/-- Segments are read as their tokens, up to the blank behind them.  Induction along the tokens. -/
theorem walk_links (links : ∀ s ∈ segments, IsLink s) (place : Position) (rest : List Char) :
    walk (.inside r opened) place 0 (linksText segments ++ ' ' :: rest)
      = (walk (.inside r opened) (place.after (linksText segments)) 0 (' ' :: rest)).map
          (Token.links place segments ++ ·) := by
  induction place, segments using Token.links.induct with
  | case1 place =>
    rw [linksText_nil, List.nil_append, Position.after_nil]
    rcases walk (.inside r opened) place 0 (' ' :: rest) with f | ts <;> rfl
  | case2 place s =>
    have hlink : walk (.inside r opened) place 0 ('.' :: (s.toList ++ ' ' :: rest)) = _ :=
      walk_link (links s List.mem_cons_self) (by decide) (by decide) fun _ h => absurd h (by decide)
    rw [Token.links, linksText_cons, linksText_nil, List.append_nil, List.cons_append]
    simpa only [linksText_cons, linksText_nil, List.append_nil] using hlink
  | case3 place s s' segments h ih =>
    obtain ⟨c, cs, hbehind, -, hdecimal⟩ := exists_behind_links segments rest
    have ih := ih fun x hx => links x (by simp [hx])
    have hsplit : linksText (s :: s' :: segments) = linksText [s, s'] ++ linksText segments := by simp
    rw [Token.links, if_pos h, hsplit, List.append_assoc, Position.after_append]
    rw [hbehind] at ih ⊢
    rw [walk_fraction h.1 h.2 hdecimal, ih]
    rcases walk (.inside r opened) _ 0 (' ' :: rest) with f | ts <;> rfl
  | case4 place s s' segments h ih =>
    have ih := ih fun x hx => links x (List.mem_cons_of_mem _ hx)
    have hs' := links s' (by simp)
    -- a number is not followed by another
    have hdot : AreDigits s.toList → ∀ d ∈ (s'.toList ++ (linksText segments ++ ' ' :: rest)).head?,
        Text.isDecimal d = false := by
      intro digits
      have name : IsWord .name s'.toList := hs'.resolve_right fun digits' => h ⟨digits, digits'⟩
      exact not_isDecimal_head_of_name name _
    have hlink : walk (.inside r opened) place 0
        ('.' :: (s.toList ++ '.' :: (s'.toList ++ (linksText segments ++ ' ' :: rest)))) = _ :=
      walk_link (links s List.mem_cons_self) (by decide) (by decide) fun digits _ => hdot digits
    have hsplit : linksText (s :: s' :: segments) = linksText [s] ++ linksText (s' :: segments) := by
      simp
    rw [Token.links, if_neg h, hsplit, Position.after_append]
    simp only [linksText_cons, linksText_nil, List.append_nil, List.cons_append,
      List.append_assoc] at ih hlink ⊢
    rw [hlink, ih]
    rcases walk (.inside r opened) _ 0 (' ' :: rest) with f | ts <;> rfl

/-- The tokens of a source that prints the value of a path. -/
def Token.dotted (base : String) (segments : List String) : List Token :=
  let place := Position.mk 1 3 |>.after base.toList
  let behind := place.after (linksText segments)
  ⟨.variableBegin, "\x7b\x7b", .start⟩ :: ⟨.name, base, ⟨1, 3⟩⟩ ::
    (Token.links place segments ++
      [⟨.variableEnd, "\x7d\x7d", behind.next ' '⟩,
       ⟨.eof, "", (behind.next ' ').after Region.variableRegion.closingMark⟩])

theorem lex_dotted (name : IsWord .name base.toList) (links : ∀ s ∈ segments, IsLink s) :
    lex (dottedSource base segments) = .ok (Token.dotted base segments) := by
  obtain ⟨d, ds, hbase, hd⟩ := IsLink.beginsWord (.inl name)
  obtain ⟨c, cs, hbehind, hpart, -⟩ :=
    exists_behind_links segments Region.variableRegion.closingMark
  have hblank : AreBlank [' '] := List.forall_mem_singleton.mpr (by decide)
  have hclose : Region.variableRegion.closingMark.isPrefixOf
      (base.toList ++ (linksText segments ++ ' ' :: Region.variableRegion.closingMark)) = false := by
    rw [hbase]
    exact isPrefixOf_closingMark hd.notClose
  have hname : piece? (base.toList ++ (linksText segments ++ ' ' :: Region.variableRegion.closingMark))
      = some (.token .name base.toList, base.toList.length) := by
    rw [hbehind]
    exact piece?_name name hpart
  have hfirst : ∀ rest, walk (.inside .variableRegion .start) ⟨1, 2⟩ 0 (' ' :: (base.toList ++ rest))
      = walk (.inside .variableRegion .start) ⟨1, 3⟩ 0 (base.toList ++ rest) := by
    intro rest
    rw [hbase]
    exact walk_gap hblank hd.notBlank
  have hlast : ∀ place, walk (.inside .variableRegion .start) place 0
      (' ' :: Region.variableRegion.closingMark)
        = .ok [⟨.variableEnd, "\x7d\x7d", place.next ' '⟩,
            ⟨.eof, "", (place.next ' ').after Region.variableRegion.closingMark⟩] := by
    intro place
    have hgap : walk (.inside .variableRegion .start) place 0 ([' '] ++ '\x7d' :: ['\x7d']) = _ :=
      walk_gap hblank (by decide)
    refine hgap.trans ?_
    show walk _ _ 0 (Region.variableRegion.closingMark ++ []) = _
    exact walk_close
  rw [lex, lexChars, toList_dottedSource, walk_open]
  show Except.map _ (walk (.inside .variableRegion .start) ⟨1, 2⟩ 0 _) = _
  rw [hfirst, walk_piece (by simp [hbase]) hclose hname, walk_links links, hlast,
    String.ofList_toList]
  rfl

/-! ### Segments are read -/

/-- A path goes on through segments that can be told apart.  Induction along the tokens. -/
theorem derives_links (apart : segments.IsChain NotBothDigits) (p : Grammar.Derives ts (.path e)) :
    Grammar.Derives (ts ++ Token.links place segments) (.path (e.dotted place segments)) := by
  have segment (s : String) (place : Position) {ts : List Token} {e : Expr Atom}
      (p : Grammar.Derives ts (.path e)) :
      Grammar.Derives (ts ++ [⟨.dot, ".", place⟩, ⟨linkKind s, s, place.next '.'⟩])
        (.path (.member (place.next '.') e s)) := p.segment rfl (linkKind_mem s)
  induction place, segments using Token.links.induct generalizing e ts with
  | case1 place => simpa [Token.links, Expr.dotted] using p
  | case2 place s => exact segment s place p
  | case3 place s s' segments h => exact absurd h (List.isChain_cons_cons.mp apart).1
  | case4 place s s' segments h ih =>
    have := ih (List.isChain_cons_cons.mp apart).2 (segment s place p)
    rw [Token.links, if_neg h, Expr.dotted]
    simpa using this

/-- A path does not go on through two numbers that are neighbours.  Induction on the segments in
front of them. -/
theorem path_links (apart : (before ++ [s]).IsChain NotBothDigits) (digits : AreDigits s.toList)
    (digits' : AreDigits s'.toList) :
    Reader.path e (Token.links place (before ++ s :: s' :: after) ++ ts)
      = .error (.grammatical .missingAttribute
          ⟨.float, s ++ "." ++ s', (place.after (linksText before)).next '.'⟩) := by
  induction before generalizing e place with
  | nil =>
    rw [List.nil_append, Token.links, if_pos ⟨digits, digits'⟩]
    simp [Reader.path]
  | cons b before ih =>
    obtain ⟨x, rest, hx⟩ : ∃ x rest, before ++ s :: s' :: after = x :: rest := by
      cases before <;> exact ⟨_, _, rfl⟩
    have hne : ¬ (AreDigits b.toList ∧ AreDigits x.toList) := by
      cases before with
      | nil =>
        obtain ⟨rfl, -⟩ := List.cons.inj hx
        exact (List.isChain_cons_cons.mp apart).1
      | cons b' before =>
        obtain ⟨rfl, -⟩ := List.cons.inj hx
        exact (List.isChain_cons_cons.mp apart).1
    have : Reader.path (.member (place.next '.') e b)
        (Token.links (place.after (linksText [b])) (before ++ s :: s' :: after) ++ ts) = _ :=
      ih (List.IsChain.tail apart)
    rw [hx] at this
    rw [List.cons_append, hx, Token.links, if_neg hne, List.cons_append, List.cons_append,
      Reader.path, if_pos rfl, if_pos (linkKind_mem b), this]
    simp [Position.after_append]

/-- Segments that cannot all be told apart have a first pair of numbers that are neighbours. -/
theorem exists_first_digits (h : ¬ segments.IsChain NotBothDigits) :
    ∃ before s s' after, segments = before ++ s :: s' :: after ∧
      (before ++ [s]).IsChain NotBothDigits ∧ AreDigits s.toList ∧ AreDigits s'.toList := by
  induction segments with
  | nil => exact absurd .nil h
  | cons s segments ih =>
    cases segments with
    | nil => exact absurd (.singleton s) h
    | cons s' segments =>
      by_cases both : AreDigits s.toList ∧ AreDigits s'.toList
      · exact ⟨[], s, s', segments, rfl, .singleton s, both.1, both.2⟩
      · obtain ⟨before, x, x', after, hsplit, apart, digits⟩ :=
          ih fun rest => h (List.isChain_cons_cons.mpr ⟨both, rest⟩)
        refine ⟨s :: before, x, x', after, by rw [hsplit]; rfl, ?_, digits⟩
        cases before with
        | nil =>
          obtain ⟨rfl, -⟩ := List.cons.inj hsplit
          exact List.isChain_cons_cons.mpr ⟨both, apart⟩
        | cons b before =>
          obtain ⟨rfl, -⟩ := List.cons.inj hsplit
          exact List.isChain_cons_cons.mpr ⟨both, apart⟩

/-- Where a path is not read, the region and so the source is not. -/
theorem Tree.ofTokens_path_error {opening name : Token} {f : Refusal}
    (hopen : opening.kind = .variableBegin) (kind : name.kind = .name)
    (plain : Reader.literalWord? name.text = none) (notNot : name.text ≠ "not")
    (h : Reader.path (.name name.position name.text) ts = .error f) :
    Tree.ofTokens (opening :: name :: ts) = .error f := by
  have hprimary (n : Nat) : Reader.primary (n + 1) (name :: ts) = .error f := by
    rw [Reader.primary, Grammar.literal?_eq_none kind plain]
    simp only [if_pos kind, h]
  have hexpression (n : Nat) : Reader.expression (n + 2) (name :: ts) = .error f := by
    rw [Reader.expression, if_neg (by simp [notNot]), hprimary]
  obtain ⟨n, hn⟩ : ∃ n, Reader.enough (opening :: name :: ts) = n + 3 :=
    ⟨2 * ts.length + 3, by simp +arith [Reader.enough]⟩
  have hbody : Reader.body (n + 3) [] (opening :: name :: ts) = .error f := by
    rw [Reader.body, hopen]
    simp only [hexpression]
    rfl
  rw [Tree.ofTokens, Reader.template, hn, hbody]
  rfl

/-- A path that is written with a dot in front of each segment is read as it, and is all that is
printed, as long as no two numbers are neighbours; whatever else follows what.  Otherwise the source
is refused at the first two numbers that are, which are one token with a fraction. -/
theorem ofSource_dotted (name : IsWord .name base.toList)
    (plain : Reader.literalWord? base = none) (notNot : base ≠ "not")
    (links : ∀ s ∈ segments, IsLink s) :
    (segments.IsChain NotBothDigits → Tree.ofSource (dottedSource base segments) = .ok ⟨.start,
      [.output .start ((Expr.name ⟨1, 3⟩ base).dotted (Position.mk 1 3 |>.after base.toList)
        segments)]⟩) ∧
    (¬ segments.IsChain NotBothDigits → ∃ before s s' after,
      segments = before ++ s :: s' :: after ∧ (before ++ [s]).IsChain NotBothDigits ∧
      AreDigits s.toList ∧ AreDigits s'.toList ∧
      Tree.ofSource (dottedSource base segments) = .error (.grammatical .missingAttribute
        ⟨.float, s ++ "." ++ s',
          (Position.mk 1 3 |>.after (base.toList ++ linksText before)).next '.'⟩)) := by
  rw [Tree.ofSource, lex_dotted name links]
  show (_ → Tree.ofTokens _ = _) ∧ (_ → ∃ _ _ _ _, _ ∧ _ ∧ _ ∧ _ ∧ Tree.ofTokens _ = _)
  constructor
  · intro apart
    have hname : Grammar.Derives [⟨.name, base, ⟨1, 3⟩⟩] (.path (.name ⟨1, 3⟩ base)) :=
      .name rfl plain notNot
    have hpath : Grammar.Derives ([⟨.name, base, ⟨1, 3⟩⟩] ++
        Token.links (Position.mk 1 3 |>.after base.toList) segments) _ := derives_links apart hname
    set behind := (Position.mk 1 3 |>.after base.toList).after (linksText segments)
    have hread : Reader.BodyRead (⟨.variableBegin, "\x7b\x7b", .start⟩ ::
        ([⟨.name, base, ⟨1, 3⟩⟩] ++ Token.links (Position.mk 1 3 |>.after base.toList) segments ++
          [⟨.variableEnd, "\x7d\x7d", behind.next ' '⟩])) _ :=
      Reader.BodyRead.output rfl hpath.dotted.primary.filtered rfl
    have hbody := hread.eof
      (t := ⟨.eof, "", (behind.next ' ').after Region.variableRegion.closingMark⟩) rfl (Nat.le_refl _)
    rw [Token.dotted, Tree.ofTokens, Reader.template]
    simp only [List.cons_append, List.append_assoc, List.nil_append] at hbody ⊢
    rw [hbody]
    rfl
  · intro clash
    obtain ⟨before, s, s', after, rfl, apart, digits, digits'⟩ := exists_first_digits clash
    refine ⟨before, s, s', after, rfl, apart, digits, digits', ?_⟩
    rw [Position.after_append]
    exact Tree.ofTokens_path_error rfl rfl plain notNot (path_links apart digits digits')

/-- Names that are keywords elsewhere and numbers by turns are read; two numbers are refused. -/
theorem ofSource_dotted_mixed :
    (IsWord .name "items".toList ∧ (∀ s ∈ ["0", "not", "12", "true"], IsLink s) ∧
      Tree.ofSource "\x7b\x7b items.0.not.12.true \x7d\x7d" = .ok ⟨.start, [.output .start
        (.member ⟨1, 18⟩ (.member ⟨1, 15⟩ (.member ⟨1, 11⟩ (.member ⟨1, 9⟩ (.name ⟨1, 3⟩ "items")
          "0") "not") "12") "true")]⟩) ∧
    (∀ s ∈ ["1", "5"], IsLink s) ∧
      Tree.ofSource "\x7b\x7b a.1.5 \x7d\x7d"
        = .error (.grammatical .missingAttribute ⟨.float, "1.5", ⟨1, 5⟩⟩) := by
  have items : IsWord .name "items".toList := .name (by decide) (List.all_eq_true.mp (by decide))
  have mixed : ∀ s ∈ ["0", "not", "12", "true"], IsLink s := by
    intro s hs
    simp only [List.mem_cons, List.not_mem_nil, or_false] at hs
    rcases hs with rfl | rfl | rfl | rfl
    · exact .inr (by decide)
    · exact .inl (.name (by decide) (List.all_eq_true.mp (by decide)))
    · exact .inr (by decide)
    · exact .inl (.name (by decide) (List.all_eq_true.mp (by decide)))
  have digits : ∀ s ∈ ["1", "5"], AreDigits s.toList := by decide
  refine ⟨⟨items, mixed, ?_⟩, fun s hs => .inr (digits s hs), ?_⟩
  · exact (ofSource_dotted items (by decide) (by decide) mixed).1 (by
      simp only [List.isChain_cons_cons, List.isChain_singleton, NotBothDigits]
      decide)
  · have a : IsWord .name "a".toList := .name (by decide) (List.all_eq_true.mp (by decide))
    obtain ⟨before, s, s', after, hsplit, -, -, -, hread⟩ :=
      (ofSource_dotted a (by decide) (by decide) fun s hs => .inr (digits s hs)).2 fun apart =>
        (List.isChain_cons_cons.mp apart).1 ⟨by decide, by decide⟩
    obtain rfl : before = [] := by
      have := congrArg List.length hsplit
      simp at this
      exact List.eq_nil_of_length_eq_zero (by omega)
    obtain ⟨rfl, rfl, -⟩ : s = "1" ∧ s' = "5" ∧ after = [] := by simpa using hsplit.symm
    exact hread

end Stencil
