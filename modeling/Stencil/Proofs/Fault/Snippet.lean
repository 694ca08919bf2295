/-
Stencil/Proofs/Fault/Snippet.lean

What a snippet of a source shows.  The window counts lines from one on and its ends are cut off at
both sides of the source, while the lines are read at indices that count from zero.  Here the two
agree: the indices are all within the source, whatever integers the window is made of (`read?_eq`),
and the lines that are read are those whose numbers are near enough (`mem_ofSource`), each once and
in order.

No line holds a separator, so the rows of the text of a snippet are its margins, its lines and its
caret, one each, and only the line with the faulty number begins with a mark (`marked_rows`).
-/
import Mathlib.Data.List.Basic
import Stencil.Fault.Snippet
import Stencil.Proofs.Text.Rows

namespace Stencil.Snippet

variable {s : Snippet} {source content : String} {all : List String} {first line around n : Int}
  {column : Option Int} {count : Nat}

/-! ### Reading by index -/

/-- The line at an index that counts from zero; there is none in front of the first, or behind the
last. -/
def lineAt? (all : List String) (i : Int) : Option String :=
  if 0 ≤ i then all[i.toNat]? else none

/-- The lines at so many indices from a first one on, read one by one, with their numbers.  Nothing
is read if one of the indices is outside. -/
def read? (all : List String) (first : Int) : Nat → Option (List (Int × String))
  | 0 => some []
  | count + 1 => do
    let line ← lineAt? all first
    let rest ← read? all (first + 1) count
    return (first + 1, line) :: rest

theorem lineAt?_eq_some {i : Int} : lineAt? all i = some content ↔
    (0 ≤ i ∧ i < all.length) ∧ all[i.toNat]? = some content := by
  rw [lineAt?]
  split
  · next h =>
    refine ⟨fun hcontent => ⟨⟨h, ?_⟩, hcontent⟩, And.right⟩
    obtain ⟨hlt, -⟩ := List.getElem?_eq_some_iff.mp hcontent
    omega
  · next h => exact ⟨fun hnone => (nomatch hnone), fun hinside => absurd hinside.1.1 h⟩

theorem lineAt?_eq_none {i : Int} : lineAt? all i = none ↔ ¬ (0 ≤ i ∧ i < all.length) := by
  rw [lineAt?]
  split
  · rw [List.getElem?_eq_none_iff]
    omega
  · next h => exact ⟨fun _ hinside => h hinside.1, fun _ => rfl⟩

/-- Where all indices are within the lines, the lines there are read.  Induction on how many they
are. -/
theorem read?_eq (inside : ∀ i, first ≤ i → i < first + count → 0 ≤ i ∧ i < all.length) :
    read? all first count = some
      (((all.drop first.toNat).take count).zipIdx.map fun (line, i) => (first + i + 1, line)) := by
  induction count generalizing first with
  | zero => simp [read?]
  | succ count ih =>
    obtain ⟨hlow, hhigh⟩ := inside first (Int.le_refl _) (by omega)
    have hlt : first.toNat < all.length := by omega
    have hline : lineAt? all first = some all[first.toNat] :=
      lineAt?_eq_some.mpr ⟨⟨hlow, hhigh⟩, List.getElem?_eq_getElem hlt⟩
    have hrest : read? all (first + 1) count = _ :=
      ih fun i h h' => inside i (by omega) (by omega)
    have hnext : (first + 1).toNat = first.toNat + 1 := by omega
    -- the numbers of the rest count from one more
    have hshift (i : Nat) : first + 1 + (i : Int) + 1 = first + (i + 1 : Nat) + 1 := by omega
    rw [read?, hline, hrest, hnext, List.drop_eq_getElem_cons hlt, List.take_succ_cons,
      List.zipIdx_cons, List.zipIdx_succ]
    simp [hshift]

/-! ### The window -/

@[simp] theorem ofSource_errorLine : (ofSource source line around column).errorLine = line := rfl

/-- A snippet has the lines whose numbers are near enough to the faulty one. -/
theorem mem_ofSource : (n, content) ∈ (ofSource source line around column).lines ↔
    (line - around ≤ n ∧ n ≤ line + around) ∧
      lineAt? (Text.lines source) (n - 1) = some content := by
  simp only [ofSource, List.mem_map, Prod.exists, List.mem_zipIdx_iff_getElem?, List.getElem?_take,
    List.getElem?_drop, Prod.mk.injEq, lineAt?_eq_some]
  generalize hfirst : max 0 (line - 1 - around) = first
  constructor
  · rintro ⟨line', i, hline, rfl, rfl⟩
    split at hline
    · next hi =>
      obtain ⟨hlt, -⟩ := List.getElem?_eq_some_iff.mp hline
      have hindex : (first + (i : Int) + 1 - 1).toNat = first.toNat + i := by omega
      exact ⟨by omega, by omega, hindex ▸ hline⟩
    · cases hline
  · rintro ⟨near, inside, hcontent⟩
    -- places in the window count from its first line
    have hindex : first.toNat + (n - 1 - first).toNat = (n - 1).toNat := by omega
    refine ⟨content, (n - 1 - first).toNat, ?_, by omega, rfl⟩
    rw [if_pos (by omega), hindex]
    exact hcontent

/-- The numbers of the lines of a snippet of a source increase. -/
theorem increasing_ofSource :
    ((ofSource source line around column).lines.map (·.1)).Pairwise (· < ·) := by
  have hnumbers (xs : List String) (first : Int) :
      (xs.zipIdx.map fun (line, i) => (first + i + 1, line)).map (·.1) =
        (List.range' 0 xs.length).map fun i : Nat => first + i + 1 := by
    rw [← List.zipIdx_map_snd 0 xs, List.map_map, List.map_map]
    rfl
  rw [ofSource, hnumbers, List.pairwise_map]
  exact List.Pairwise.imp (fun h => by omega) List.pairwise_lt_range'

/-- Where the numbers of lines increase, there is at most one line of each number. -/
theorem filter_number {lines : List (Int × String)}
    (increasing : (lines.map (·.1)).Pairwise (· < ·)) (h : (n, content) ∈ lines) :
    lines.filter (·.1 = n) = [(n, content)] := by
  induction lines with
  | nil => cases h
  | cons l lines ih =>
    obtain ⟨hl, hlines⟩ := List.pairwise_cons.mp increasing
    have hless : ∀ l' ∈ lines, l.1 < l'.1 := fun l' h' => hl _ (List.mem_map_of_mem h')
    obtain rfl | h := List.mem_cons.mp h
    · -- the numbers behind this line are greater
      have hrest : lines.filter (·.1 = n) = [] :=
        List.filter_eq_nil_iff.mpr fun l' h' => by simpa using Int.ne_of_gt (hless l' h')
      rw [List.filter_cons_of_pos (by simp), hrest]
    · rw [List.filter_cons_of_neg (by simpa using Int.ne_of_lt (hless _ h)), ih hlines h]

/-- The lines of the faulty number are that line of the source, if there is one. -/
theorem filter_ofSource : (ofSource source line around column).lines.filter (·.1 = line) =
    if 0 ≤ around then ((lineAt? (Text.lines source) (line - 1)).map (line, ·)).toList else [] := by
  by_cases h : ∃ content, (line, content) ∈ (ofSource source line around column).lines
  · obtain ⟨content, h⟩ := h
    rw [filter_number increasing_ofSource h]
    obtain ⟨hnear, hline⟩ := mem_ofSource.mp h
    rw [if_pos (by omega), hline]
    rfl
  · have hnone : (ofSource source line around column).lines.filter (·.1 = line) = [] :=
      List.filter_eq_nil_iff.mpr fun l hl heq => h ⟨l.2, of_decide_eq_true heq ▸ hl⟩
    rw [hnone]
    split
    · next haround =>
      cases hline : lineAt? (Text.lines source) (line - 1) with
      | none => rfl
      | some content => exact absurd ⟨content, mem_ofSource.mpr ⟨by omega, hline⟩⟩ h
    · rfl

/-- There is one if the source has it and the window is not inside out, and else none. -/
theorem length_filter_ofSource :
    ((ofSource source line around column).lines.filter (·.1 = line)).length =
      if (1 ≤ line ∧ line ≤ (Text.lines source).length) ∧ 0 ≤ around then 1 else 0 := by
  rw [filter_ofSource]
  by_cases haround : 0 ≤ around
  · rw [if_pos haround]
    cases hline : lineAt? (Text.lines source) (line - 1) with
    | none =>
      have houtside := lineAt?_eq_none.mp hline
      rw [if_neg (by omega)]
      rfl
    | some content =>
      obtain ⟨hinside, -⟩ := lineAt?_eq_some.mp hline
      rw [if_pos (by omega)]
      rfl
  · rw [if_neg haround, if_neg (by omega)]
    rfl

theorem breakless_ofSource {l : Int × String} (h : l ∈ (ofSource source line around column).lines) :
    Text.Breakless l.2.toList := by
  obtain ⟨-, hline⟩ := mem_ofSource.mp h
  exact Text.breakless_of_mem_lines (List.mem_of_getElem? (lineAt?_eq_some.mp hline).2)

/-! ### Rows -/

/-- A row of the text of a snippet that begins with a mark. -/
def IsMarked (row : String) : Prop := row.toList.head? = some '>'

instance : DecidablePred IsMarked := fun row => inferInstanceAs (Decidable (row.toList.head? = _))

/-- The row with the caret, if there is one. -/
def caretRow? (s : Snippet) : Option String := s.column.map ("     | " ++ blanksFor · ++ "^")

theorem textLines_eq (s : Snippet) :
    s.textLines = "   |" :: (s.lines.map s.lineText ++ (s.caretRow?.toList ++ ["   |"])) := by
  rw [textLines, caretRow?]
  cases s.column <;> simp

theorem isMarked_lineText (l : Int × String) : IsMarked (s.lineText l) ↔ l.1 = s.errorLine := by
  rw [IsMarked, lineText]
  split
  · next h => simp [h]
  · next h => simp [h]

theorem not_isMarked_of_caretRow? {row : String} (h : row ∈ s.caretRow?) : ¬ IsMarked row := by
  obtain ⟨c, -, rfl⟩ := Option.map_eq_some_iff.mp h
  simp [IsMarked]

theorem breakless_lineText {l : Int × String} (h : Text.Breakless l.2.toList) :
    Text.Breakless (s.lineText l).toList := by
  have hmark : Text.Breakless (if l.1 = s.errorLine then ">" else " ").toList := by
    split <;> decide
  simp only [lineText, padLeft, String.toList_append, String.toList_ofList, Text.breakless_append]
  exact ⟨⟨⟨hmark, Text.breakless_replicate _ rfl, Text.breakless_repr _⟩, by decide⟩, h⟩

theorem breakless_of_caretRow? {row : String} (h : row ∈ s.caretRow?) :
    Text.Breakless row.toList := by
  obtain ⟨c, -, rfl⟩ := Option.map_eq_some_iff.mp h
  simp only [blanksFor, String.toList_append, String.toList_ofList, Text.breakless_append]
  exact ⟨⟨by decide, Text.breakless_replicate _ rfl⟩, by decide⟩

/-- The rows of the text of a snippet are its margins, its lines and its caret. -/
theorem lines_text (h : ∀ l ∈ s.lines, Text.Breakless l.2.toList) :
    Text.lines s.text = s.textLines := by
  rw [text, textLines_eq]
  refine Text.lines_intercalate ?_ fun row hrow => ?_
  · -- a margin is last, so there is no empty row at the end that would be no line
    rw [← List.append_assoc, ← List.cons_append, List.getLast?_concat]
    decide
  · simp only [List.mem_cons, List.mem_append, List.mem_map, Option.mem_toList, List.not_mem_nil,
      or_false] at hrow
    obtain rfl | ⟨l, hl, rfl⟩ | hcaret | rfl := hrow
    · decide
    · exact breakless_lineText (h l hl)
    · exact breakless_of_caretRow? hcaret
    · decide

/-- Of these the lines with the faulty number are marked. -/
theorem marked_rows (h : ∀ l ∈ s.lines, Text.Breakless l.2.toList) :
    (Text.lines s.text).filter IsMarked = (s.lines.filter (·.1 = s.errorLine)).map s.lineText := by
  have hmargin (rows : List String) : ("   |" :: rows).filter IsMarked = rows.filter IsMarked :=
    List.filter_cons_of_neg (by decide)
  have hcaret : s.caretRow?.toList.filter IsMarked = [] :=
    List.filter_eq_nil_iff.mpr fun row hrow => by
      simpa using not_isMarked_of_caretRow? (Option.mem_toList.mp hrow)
  have hlines : (s.lines.map s.lineText).filter IsMarked =
      (s.lines.filter (·.1 = s.errorLine)).map s.lineText := by
    rw [List.filter_map]
    congr 1
    exact List.filter_congr fun l _ => decide_eq_decide.mpr (isMarked_lineText l)
  rw [lines_text h, textLines_eq, hmargin, List.filter_append, List.filter_append, hlines, hcaret,
    hmargin, List.filter_nil, List.append_nil, List.append_nil]

/-- A snippet of a source shows the lines that the source has within the window.  They are read at
indices of lines only, and they stand in order.  The row of the faulty one is marked, if the source
has it and the window is not inside out, and no other row is. -/
theorem ofSource_window (source : String) (line around : Int) (column : Option Int) :
    let all := Text.lines source
    let s := ofSource source line around column
    let first := max 0 (line - 1 - around)
    let last := min (all.length : Int) (line + around)
    read? all first (last - first).toNat = some s.lines ∧
    (s.lines.map (·.1)).Pairwise (· < ·) ∧
    (∀ n content, (n, content) ∈ s.lines ↔ (1 ≤ n ∧ n ≤ all.length) ∧
      (line - around ≤ n ∧ n ≤ line + around) ∧ all[(n - 1).toNat]? = some content) ∧
    (Text.lines s.text).filter IsMarked = (s.lines.filter (·.1 = line)).map s.lineText ∧
    ((Text.lines s.text).filter IsMarked).length =
      if (1 ≤ line ∧ line ≤ all.length) ∧ 0 ≤ around then 1 else 0 := by
  intro all s first last
  have marked : (Text.lines s.text).filter IsMarked =
      (s.lines.filter (·.1 = line)).map s.lineText := marked_rows fun l => breakless_ofSource
  refine ⟨read?_eq fun i _ _ => ⟨by omega, by omega⟩, increasing_ofSource,
    fun n content => ?_, marked, ?_⟩
  · have hmem : (n, content) ∈ s.lines ↔
        (line - around ≤ n ∧ n ≤ line + around) ∧ lineAt? all (n - 1) = some content := mem_ofSource
    rw [hmem, lineAt?_eq_some]
    constructor
    · rintro ⟨near, inside, hcontent⟩
      exact ⟨by omega, near, hcontent⟩
    · rintro ⟨inside, near, hcontent⟩
      exact ⟨near, by omega, hcontent⟩
  · rw [marked, List.length_map]
    exact length_filter_ofSource

/-- The faulty line is behind the end of the source: its last line is near enough to be shown, but
nothing is marked. -/
example : (ofSource "one\ntwo\nthree" 5 2 (some 1)).text =
    "   |\n   3 | three\n     |  ^\n   |" := by decide

end Stencil.Snippet
