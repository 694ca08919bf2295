/-
Stencil/Proofs/Text/Rows.lean

Rows and lines of a text.  Rows end at a line feed and nowhere else, and positions count them; lines
also end at the other line separators, and messages quote them by number.  The two agree up to some
place if every separator in front of it is a line feed, which may have a carriage return before it
(`rowwise`); otherwise there are more lines than rows.

So which line has the number of a row depends on what is in front of the row (`getElem?_lines`).  It
is the row, as far as the first separator in it, when the text in front is `rowwise`.  When it is
not, it is a line of the text in front.

Lines hold no separator, so texts that are put together from such pieces, with a line feed between
any two of them, have these pieces for lines (`lines_intercalate`).
-/
import Mathlib.Data.List.Basic
import Stencil.Text.Lines

namespace Stencil.Text

variable {before row after rest cs : List Char} {c : Char} {n : Nat}

/-- Whether every separator is a line feed, alone or behind a carriage return. -/
def rowwise : List Char → Bool
  | [] => true
  | '\r' :: '\n' :: rest => rowwise rest
  | c :: rest => (c == '\n' || !isLineBreak c) && rowwise rest

/-- A text that is empty or ends with a line feed. -/
def EndsRow (cs : List Char) : Prop := cs = [] ∨ cs.getLast? = some '\n'

/-- A text that holds no separator. -/
def Breakless (cs : List Char) : Prop := ∀ c ∈ cs, isLineBreak c = false

instance (cs : List Char) : Decidable (Breakless cs) :=
  List.decidableBAll (isLineBreak · = false) cs

/-- The characters in front of the first separator. -/
def firstLine (cs : List Char) : List Char := cs.takeWhile (!isLineBreak ·)

/-- The lines of a text, as characters. -/
def lineList (cs : List Char) : List (List Char) :=
  if (segments cs).getLast? = some [] then (segments cs).dropLast else segments cs

theorem lines_ofList (cs : List Char) :
    lines (String.ofList cs) = (lineList cs).map String.ofList := by
  rw [lines, String.toList_ofList, lineList]

/-! ### Segments -/

@[simp] theorem segments_nil : segments [] = [[]] := rfl

@[simp] theorem segments_pair (rest : List Char) :
    segments ('\r' :: '\n' :: rest) = [] :: segments rest := by
  rw [segments]

theorem segments_of_break (hpair : ∀ tail, c = '\r' → rest = '\n' :: tail → False)
    (h : isLineBreak c = true) : segments (c :: rest) = [] :: segments rest := by
  rw [segments, if_pos h]
  exact hpair

theorem segments_of_not_break (h : isLineBreak c = false) :
    segments (c :: rest) = consFirst c (segments rest) := by
  rw [segments, if_neg (by simp [h])]
  rintro tail rfl
  cases h

theorem segments_ne_nil (cs : List Char) : segments cs ≠ [] := by
  induction cs using segments.induct with
  | case1 => exact List.cons_ne_nil _ _
  | case2 rest => rw [segments_pair]; exact List.cons_ne_nil _ _
  | case3 c rest hpair h => rw [segments_of_break hpair h]; exact List.cons_ne_nil _ _
  | case4 c rest _ h =>
    rw [segments_of_not_break (by simpa using h)]
    cases segments rest <;> exact List.cons_ne_nil _ _

theorem length_consFirst {parts : List (List Char)} (h : parts ≠ []) (c : Char) :
    (consFirst c parts).length = parts.length := by
  cases parts with
  | nil => exact absurd rfl h
  | cons part parts => rfl

/-- A character in front of the first of at least two parts. -/
theorem consFirst_dropLast_append {parts others : List (List Char)} (h : 2 ≤ parts.length)
    (c : Char) : consFirst c (parts.dropLast ++ others) = (consFirst c parts).dropLast ++ others := by
  match parts with
  | part :: next :: parts => rfl

/-! ### Counting -/

theorem rowwise_of_not_pair (hpair : ∀ tail, c = '\r' → rest = '\n' :: tail → False) :
    rowwise (c :: rest) = ((c == '\n' || !isLineBreak c) && rowwise rest) := by
  rw [rowwise]
  exact hpair

/-- There are at least as many segments as rows, and just as many where every separator ends a
row. -/
theorem count_lt_length_segments (cs : List Char) : cs.count '\n' < (segments cs).length ∧
    (rowwise cs = true ↔ (segments cs).length = cs.count '\n' + 1) := by
  induction cs using segments.induct with
  | case1 => simp [rowwise]
  | case2 rest ih =>
    have hcount : ('\r' :: '\n' :: rest).count '\n' = rest.count '\n' + 1 := by simp
    rw [segments_pair, rowwise, hcount, List.length_cons]
    exact ⟨by omega, ih.2.trans (by omega)⟩
  | case3 c rest hpair h ih =>
    rw [segments_of_break hpair h, rowwise_of_not_pair hpair, h, List.length_cons, List.count_cons]
    by_cases hc : c = '\n'
    · simp only [hc, beq_self_eq_true, Bool.true_or, Bool.true_and, if_true]
      exact ⟨by omega, ih.2.trans (by omega)⟩
    · simp only [beq_eq_false_iff_ne.mpr hc, Bool.not_true, Bool.or_self, Bool.false_and,
        Bool.false_eq_true, if_false, false_iff]
      exact ⟨by omega, by omega⟩
  | case4 c rest hpair h ih =>
    have h : isLineBreak c = false := by simpa using h
    have hc : c ≠ '\n' := by
      rintro rfl
      cases h
    rw [segments_of_not_break h, rowwise_of_not_pair hpair, h,
      length_consFirst (segments_ne_nil rest), List.count_cons_of_ne hc]
    simpa using ih

theorem EndsRow.of_cons (h : EndsRow (c :: cs)) : (cs = [] ∧ c = '\n') ∨ (cs ≠ [] ∧ EndsRow cs) := by
  obtain h | h := h
  · cases h
  cases cs with
  | nil => exact .inl ⟨rfl, by simpa using h⟩
  | cons d ds => exact .inr ⟨List.cons_ne_nil _ _, .inr (by rwa [List.getLast?_cons_cons] at h)⟩

theorem EndsRow.tail (h : EndsRow (c :: cs)) : EndsRow cs := by
  obtain ⟨rfl, -⟩ | ⟨-, h⟩ := h.of_cons
  · exact .inl rfl
  · exact h

/-- Behind a line feed the segments begin anew.  Induction on the text in front. -/
theorem segments_append (ends : EndsRow before) (rest : List Char) :
    segments (before ++ rest) = (segments before).dropLast ++ segments rest := by
  induction before using segments.induct with
  | case1 => rfl
  | case2 tail ih =>
    rw [List.cons_append, List.cons_append, segments_pair, segments_pair, ih ends.tail.tail,
      List.dropLast_cons_of_ne_nil (segments_ne_nil tail), List.cons_append]
  | case3 c tail hpair h ih =>
    -- the separator is not the first half of a pair, with what is behind the text either
    have hpair' : ∀ tail', c = '\r' → tail ++ rest = '\n' :: tail' → False := by
      rintro tail' rfl heq
      cases tail with
      | nil =>
        obtain ⟨-, hc⟩ | ⟨hne, -⟩ := ends.of_cons
        · cases hc
        · exact hne rfl
      | cons d tail =>
        obtain ⟨rfl, -⟩ := List.cons.inj heq
        exact hpair tail rfl rfl
    rw [List.cons_append, segments_of_break hpair' h, segments_of_break hpair h, ih ends.tail,
      List.dropLast_cons_of_ne_nil (segments_ne_nil tail), List.cons_append]
  | case4 c tail hpair h ih =>
    have h : isLineBreak c = false := by simpa using h
    obtain ⟨-, rfl⟩ | ⟨hne, htail⟩ := ends.of_cons
    · cases h
    have hfeed : 0 < tail.count '\n' :=
      List.count_pos_iff.mpr (List.mem_of_getLast? (htail.resolve_left hne))
    have hlength := (count_lt_length_segments tail).1
    rw [List.cons_append, segments_of_not_break h, segments_of_not_break h, ih htail,
      consFirst_dropLast_append (by omega)]

/-- A text is rowwise if the parts in front of a row and from there on are. -/
theorem rowwise_append (ends : EndsRow before) (rest : List Char) :
    rowwise (before ++ rest) = true ↔ rowwise before = true ∧ rowwise rest = true := by
  obtain ⟨hbefore, hbefore'⟩ := count_lt_length_segments before
  obtain ⟨hrest, hrest'⟩ := count_lt_length_segments rest
  rw [(count_lt_length_segments (before ++ rest)).2, hbefore', hrest', segments_append ends,
    List.length_append, List.length_dropLast, List.count_append]
  omega

/-- The first segment. -/
theorem head?_segments (cs : List Char) : (segments cs).head? = some (firstLine cs) := by
  induction cs using segments.induct with
  | case1 => rfl
  | case2 rest => rw [segments_pair]; rfl
  | case3 c rest hpair h => rw [segments_of_break hpair h, firstLine, List.takeWhile_cons, h]; rfl
  | case4 c rest hpair h ih =>
    have h : isLineBreak c = false := by simpa using h
    rw [segments_of_not_break h, firstLine, List.takeWhile_cons, h, ← firstLine]
    cases hparts : segments rest with
    | nil => exact absurd hparts (segments_ne_nil rest)
    | cons part parts =>
      rw [hparts] at ih
      obtain rfl := Option.some.inj ih
      rfl

/-- A text of one segment is that segment. -/
theorem segments_eq_singleton {part : List Char} (h : segments cs = [part]) : cs = part := by
  induction cs using segments.induct generalizing part with
  | case1 => simpa using h
  | case2 rest =>
    rw [segments_pair] at h
    exact absurd (List.cons.inj h).2 (segments_ne_nil rest)
  | case3 c rest hpair hbreak =>
    rw [segments_of_break hpair hbreak] at h
    exact absurd (List.cons.inj h).2 (segments_ne_nil rest)
  | case4 c rest hpair hbreak ih =>
    rw [segments_of_not_break (by simpa using hbreak)] at h
    cases hparts : segments rest with
    | nil => exact absurd hparts (segments_ne_nil rest)
    | cons next parts =>
      rw [hparts] at h
      obtain ⟨rfl, rfl⟩ := List.cons.inj h
      exact congrArg (c :: ·) (ih hparts)

/-! ### Pieces without separators -/

theorem breakless_nil : Breakless [] := fun _ h => absurd h List.not_mem_nil

theorem breakless_append {cs ds : List Char} :
    Breakless (cs ++ ds) ↔ Breakless cs ∧ Breakless ds := by
  simp only [Breakless, List.mem_append, or_imp, forall_and]

theorem breakless_replicate (n : Nat) (h : isLineBreak c = false) :
    Breakless (List.replicate n c) := fun d hd => by
  rwa [List.eq_of_mem_replicate hd]

theorem isLineBreak_of_isDigit (h : c.isDigit = true) : isLineBreak c = false := by
  obtain ⟨hlow, hhigh⟩ := Bool.and_eq_true_iff.mp h
  have hlow : 48 ≤ c.toNat := by simpa [UInt32.le_iff_toNat_le] using hlow
  have hhigh : c.toNat ≤ 57 := by simpa [UInt32.le_iff_toNat_le] using hhigh
  simp only [isLineBreak, Bool.or_eq_false_iff, Bool.and_eq_false_iff, decide_eq_false_iff_not,
    beq_eq_false_iff_ne]
  omega

/-- The text of a whole number holds no separator. -/
theorem breakless_repr (n : Int) : Breakless n.repr.toList := by
  have digits (m : Nat) : Breakless m.repr.toList := fun c hc => by
    rw [Nat.toList_repr] at hc
    exact isLineBreak_of_isDigit (Nat.isDigit_of_mem_toDigits (by decide) (by decide) hc)
  cases n with
  | ofNat m => exact digits m
  | negSucc m =>
    rw [Int.repr, String.toList_append]
    exact breakless_append.mpr ⟨by decide, digits (m + 1)⟩

/-- No segment holds a separator. -/
theorem breakless_of_mem_segments (h : row ∈ segments cs) : Breakless row := by
  induction cs using segments.induct generalizing row with
  | case1 =>
    obtain rfl := List.mem_singleton.mp h
    exact breakless_nil
  | case2 rest ih =>
    rw [segments_pair] at h
    obtain rfl | h := List.mem_cons.mp h
    · exact breakless_nil
    · exact ih h
  | case3 c rest hpair hbreak ih =>
    rw [segments_of_break hpair hbreak] at h
    obtain rfl | h := List.mem_cons.mp h
    · exact breakless_nil
    · exact ih h
  | case4 c rest hpair hbreak ih =>
    have hbreak : isLineBreak c = false := by simpa using hbreak
    rw [segments_of_not_break hbreak] at h
    cases hparts : segments rest with
    | nil => exact absurd hparts (segments_ne_nil rest)
    | cons part parts =>
      rw [hparts] at h ih
      obtain rfl | h := List.mem_cons.mp h
      · exact fun d hd => (List.mem_cons.mp hd).elim (· ▸ hbreak) (ih List.mem_cons_self d)
      · exact ih (List.mem_cons_of_mem _ h)

/-- No line holds a separator. -/
theorem breakless_of_mem_lines {s line : String} (h : line ∈ lines s) : Breakless line.toList := by
  obtain ⟨part, hpart, rfl⟩ := List.mem_map.mp h
  have hsegment : part ∈ segments s.toList := by
    split at hpart
    · exact List.dropLast_subset _ hpart
    · exact hpart
  rw [String.toList_ofList]
  exact breakless_of_mem_segments hsegment

/-- A text without separators is one segment, and the first one when a line feed is behind it. -/
theorem segments_of_breakless (h : Breakless row) : segments row = [row] ∧
    ∀ rest, segments (row ++ '\n' :: rest) = row :: segments rest := by
  induction row with
  | nil => exact ⟨rfl, fun rest => segments_of_break (fun _ hc => absurd hc (by decide)) rfl⟩
  | cons c row ih =>
    obtain ⟨hrow, hfeed⟩ := ih fun d hd => h d (List.mem_cons_of_mem _ hd)
    have hc := h c List.mem_cons_self
    refine ⟨?_, fun rest => ?_⟩
    · rw [segments_of_not_break hc, hrow, consFirst]
    · rw [List.cons_append, segments_of_not_break hc, hfeed, consFirst]

/-- Pieces without separators, put together with line feeds, are the segments of the whole. -/
theorem segments_intercalate {rows : List (List Char)} (hne : rows ≠ [])
    (h : ∀ row ∈ rows, Breakless row) : segments (['\n'].intercalate rows) = rows := by
  induction rows with
  | nil => exact absurd rfl hne
  | cons row rest ih =>
    have hrow := segments_of_breakless (h row List.mem_cons_self)
    cases rest with
    | nil => rw [List.intercalate_singleton, hrow.1]
    | cons next rest =>
      rw [List.intercalate_cons_cons, List.append_assoc, List.singleton_append, hrow.2,
        ih (List.cons_ne_nil _ _) fun row' h' => h row' (List.mem_cons_of_mem _ h')]

/-! ### Lines -/

/-- Pieces without separators, put together with line feeds, are the lines of the whole, if the last
one is not empty. -/
theorem lines_intercalate {rows : List String} (hlast : rows.getLast? ≠ some "")
    (h : ∀ row ∈ rows, Breakless row.toList) : lines ("\n".intercalate rows) = rows := by
  rcases eq_or_ne rows [] with rfl | hne
  · rfl
  have hparts : segments ("\n".intercalate rows).toList = rows.map String.toList := by
    rw [String.toList_intercalate]
    exact segments_intercalate (by simpa using hne) (by simpa using h)
  have hlast' : (rows.map String.toList).getLast? ≠ some [] := by
    rw [List.getLast?_map]
    intro hnil
    obtain ⟨row, hrow, hempty⟩ := Option.map_eq_some_iff.mp hnil
    rw [hrow] at hlast
    exact hlast (congrArg some (String.toList_eq_nil_iff.mp hempty))
  rw [lines, hparts, if_neg hlast', List.map_map]
  simp

/-- A text that ends with a line feed has the segments in front of the last for lines. -/
theorem lineList_of_endsRow (ends : EndsRow before) : lineList before = (segments before).dropLast := by
  have h := segments_append ends []
  rw [List.append_nil, segments_nil] at h
  rw [lineList, if_pos]
  rw [h, List.getLast?_concat]

/-- Behind a line feed the lines begin anew. -/
theorem lineList_append (ends : EndsRow before) (rest : List Char) :
    lineList (before ++ rest) = lineList before ++ lineList rest := by
  have hlast : ((segments before).dropLast ++ segments rest).getLast? = (segments rest).getLast? :=
    List.getLast?_append_of_ne_nil _ (segments_ne_nil rest)
  rw [lineList_of_endsRow ends, lineList, segments_append ends, hlast]
  by_cases h : (segments rest).getLast? = some []
  · rw [if_pos h, List.dropLast_append_of_ne_nil (segments_ne_nil rest)]
    rw [lineList, if_pos h]
  · rw [if_neg h, lineList, if_neg h]

theorem head?_lineList (hne : cs ≠ []) : (lineList cs).head? = some (firstLine cs) := by
  have hfirst := head?_segments cs
  rw [lineList]
  split
  · next hlast =>
    match hparts : segments cs with
    | [] => exact absurd hparts (segments_ne_nil cs)
    | [part] =>
      rw [hparts] at hlast
      obtain rfl : part = [] := by simpa using hlast
      exact absurd (segments_eq_singleton hparts) hne
    | part :: next :: parts =>
      rw [hparts] at hfirst
      exact hfirst
  · exact hfirst

theorem firstLine_append (hrow : '\n' ∉ row) (hafter : after = [] ∨ after.head? = some '\n') :
    firstLine (row ++ after) = firstLine row := by
  induction row with
  | nil =>
    rcases after with - | ⟨c, cs⟩
    · rfl
    · obtain rfl : c = '\n' := by simpa using hafter
      rfl
  | cons c row ih =>
    have ih := ih fun h => hrow (List.mem_cons_of_mem _ h)
    rw [List.cons_append, firstLine, firstLine, List.takeWhile_cons, List.takeWhile_cons]
    rw [firstLine, firstLine] at ih
    rw [ih]

/-- In a rowwise text a row has no separator, but for a carriage return at its end. -/
theorem firstLine_of_rowwise (h : rowwise (row ++ after) = true) (hrow : '\n' ∉ row) :
    row = firstLine row ∨ row = firstLine row ++ ['\r'] := by
  induction row with
  | nil => exact .inl rfl
  | cons c row ih =>
    by_cases hpair : c = '\r' ∧ ∃ tail, row ++ after = '\n' :: tail
    · obtain ⟨rfl, tail, htail⟩ := hpair
      cases row with
      | nil => exact .inr rfl
      | cons d row =>
        obtain ⟨rfl, -⟩ := List.cons.inj htail
        exact absurd (List.mem_cons_of_mem _ List.mem_cons_self) hrow
    · rw [List.cons_append, rowwise_of_not_pair fun tail hc htail => hpair ⟨hc, tail, htail⟩,
        Bool.and_eq_true, Bool.or_eq_true, beq_iff_eq] at h
      obtain ⟨hc, h⟩ := h
      have hc : (!isLineBreak c) = true := hc.resolve_left fun hc => hrow (hc ▸ List.mem_cons_self)
      have hfirst : firstLine (c :: row) = c :: firstLine row := by
        rw [firstLine, List.takeWhile_cons, if_pos hc, firstLine]
      rw [hfirst, List.cons_append]
      exact (ih h fun hmem => hrow (List.mem_cons_of_mem _ hmem)).imp (congrArg (c :: ·))
        (congrArg (c :: ·))

/-- The line with the number of a row: the row up to the first separator, when the lines in front
are the rows there, and else a line in front. -/
theorem getElem?_lines (ends : EndsRow before) (hrow : '\n' ∉ row)
    (hafter : after = [] ∨ after.head? = some '\n') :
    (rowwise before = true → row ++ after ≠ [] →
      (lines (String.ofList (before ++ (row ++ after))))[before.count '\n']?
        = some (String.ofList (firstLine row))) ∧
    (rowwise before = true → row ++ after = [] →
      (lines (String.ofList (before ++ (row ++ after))))[before.count '\n']? = none) ∧
    (rowwise before = false → ∃ line, (lines (String.ofList before))[before.count '\n']? = some line ∧
      (lines (String.ofList (before ++ (row ++ after))))[before.count '\n']? = some line) := by
  obtain ⟨hlt, hiff⟩ := count_lt_length_segments before
  have hlength : (lineList before).length = (segments before).length - 1 := by
    rw [lineList_of_endsRow ends, List.length_dropLast]
  simp only [lines_ofList, List.getElem?_map, lineList_append ends]
  refine ⟨fun h hne => ?_, fun h hnil => ?_, fun h => ?_⟩
  · rw [hiff.mp h, Nat.add_sub_cancel] at hlength
    rw [List.getElem?_append_right (Nat.le_of_eq hlength), hlength, Nat.sub_self,
      ← List.head?_eq_getElem?, head?_lineList hne, firstLine_append hrow hafter]
    rfl
  · rw [hnil, List.getElem?_eq_none]
    · rfl
    · rw [List.length_append, hlength, hiff.mp h]
      exact Nat.le_of_eq rfl
  · have hlt' : before.count '\n' < (lineList before).length := by
      have := mt hiff.mpr (by simp [h])
      omega
    rw [List.getElem?_append_left hlt', List.getElem?_eq_getElem hlt']
    exact ⟨_, rfl, rfl⟩

end Stencil.Text
