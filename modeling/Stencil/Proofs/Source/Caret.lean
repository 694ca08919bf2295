/-
Stencil/Proofs/Source/Caret.lean

The caret in the message of a source that cannot be read.  The message quotes a row of the source
behind a gutter, the number of the row and a bar, and puts a caret on the row below it.  The gutter
there is narrower: it has no room for more than two digits, where that of the row has room for three
and for more when there are more.  So the caret never stands under the character that is at fault,
but left of it, by one column and by one more for each digit of the number from the fourth on
(`Malformed.caretLeft`).

This is about sources that have no separators but line feeds.  In others what is quoted need not be
the row of the fault at all.
-/
import Stencil.Proofs.Render.Quoted

namespace Stencil

variable {cs row : List Char} {source : String} {p : Position} {quoted : Option String} {line k : Nat}

/-! ### Rows that are quoted -/

namespace Text

/-- No separator but the line feed occurs. -/
def OnlyFeeds (cs : List Char) : Prop := ∀ c ∈ cs, isLineBreak c = true → c = '\n'

instance (cs : List Char) : Decidable (OnlyFeeds cs) :=
  List.decidableBAll (fun c => isLineBreak c = true → c = '\n') cs

theorem OnlyFeeds.rowwise (h : OnlyFeeds cs) : rowwise cs = true := by
  induction cs with
  | nil => rfl
  | cons c rest ih =>
    have hc := h c List.mem_cons_self
    rw [rowwise_of_not_pair fun _ hr _ => absurd (hr ▸ hc (hr ▸ rfl)) (by decide),
      ih fun d hd => h d (List.mem_cons_of_mem _ hd), Bool.and_true, Bool.or_eq_true, beq_iff_eq,
      Bool.not_eq_true', ← Bool.not_eq_true]
    exact (Decidable.em (isLineBreak c = true)).imp hc id

/-- A row without separators is quoted whole. -/
theorem OnlyFeeds.firstLine_eq (h : OnlyFeeds row) (feedless : '\n' ∉ row) : firstLine row = row := by
  refine List.takeWhile_eq_self_iff.mpr fun c hc => ?_
  rw [Bool.not_eq_true', ← Bool.not_eq_true]
  exact fun hbreak => feedless (h c hc hbreak ▸ hc)

end Text

/-- The row of a place is quoted, if it is there. -/
theorem Quotes.row_of_onlyFeeds (feeds : Text.OnlyFeeds source.toList) (h : Quotes source p quoted) :
    ∃ before row after, RowAt source.toList p before row after ∧
      quoted = if row ++ after = [] then none else some (String.ofList row) := by
  cases h with
  | @row before row after located _ there =>
    have hrow : Text.OnlyFeeds row := fun c hc => feeds c (by simp [← located.text, hc])
    exact ⟨before, row, after, located, by rw [if_neg there, hrow.firstLine_eq located.feedless]⟩
  | nothing located _ done => exact ⟨_, _, _, located, (if_pos done).symm⟩
  | earlier located front =>
    have hrowwise := feeds.rowwise
    rw [← located.text, Text.rowwise_append located.front, front] at hrowwise
    cases hrowwise.1

/-! ### Gutters -/

/-- What a message has in front of a row that it quotes. -/
def gutter (line : Int) : List Char := (padLeft 3 (toString line) ++ " | ").toList

/-- What a message has below a row that it quotes. -/
def caretRow (column : Int) : List Char := ("   | " ++ blanksFor column ++ "^").toList

theorem length_gutter (line : Int) : (gutter line).length = max 3 (toString line).length + 3 := by
  simp only [gutter, padLeft, String.toList_append, String.toList_ofList, List.length_append,
    List.length_replicate, String.length_toList]
  have hbar : " | ".length = 3 := by decide
  omega

theorem feedless_gutter (line : Nat) : '\n' ∉ gutter line := by
  have hdigits : '\n' ∉ (line : Int).repr.toList := fun h => by
    cases Text.breakless_repr line '\n' h
  simp [gutter, padLeft, hdigits]

theorem caretRow_eq (k : Nat) : caretRow k = ' ' :: ' ' :: ' ' :: '|' :: ' ' ::
    (List.replicate k ' ' ++ ['^']) := by
  simp [caretRow, blanksFor]

theorem feedless_caretRow (k : Nat) : '\n' ∉ caretRow k := by
  simp [caretRow_eq]

theorem idxOf_caretRow (k : Nat) : (caretRow k).idxOf '^' = k + 5 := by
  have hblanks : '^' ∉ List.replicate k ' ' := by simp
  simp [caretRow_eq, List.idxOf_append, hblanks]

/-! ### Messages -/

namespace Malformed

variable {m : Malformed}

/-- The part of a message that says what is wrong, and where. -/
def heading (m : Malformed) : String :=
  "Syntax Error: " ++ m.reasonText ++ "\n  --> " ++ m.locationText

theorem message_eq (m : Malformed) : m.message = m.heading ++
    (match m.quotedLine? with
      | some (n, line) =>
        "\n   |\n" ++ padLeft 3 (toString n) ++ " | " ++ line ++ caretText m.column
      | none => "") := by
  unfold message heading
  rfl

theorem message_of_nothing (h : m.quotedLine? = none) : m.message = m.heading := by
  rw [message_eq, h]
  exact String.append_empty

theorem message_of_quoted {n c : Int} {quoted : String} (h : m.quotedLine? = some (n, quoted))
    (hc : m.column = some c) : m.message.toList =
      (m.heading ++ "\n   |").toList ++ '\n' :: (gutter n ++ quoted.toList) ++ '\n' :: caretRow c := by
  rw [message_eq, h, hc]
  simp [gutter, caretRow, caretText]

end Malformed

/-- The last two rows of a message are a quoted row of the source and a row with a caret, which is
left of the column that it is for. -/
structure CaretLeft (m : Malformed) (line : Nat) (row : List Char) (k : Nat) : Prop where
  rows : m.message.toList =
    (m.heading ++ "\n   |").toList ++ '\n' :: (gutter line ++ row) ++ '\n' :: caretRow k
  feedless : '\n' ∉ gutter line ++ row ∧ '\n' ∉ caretRow k
  /-- There is one caret, at the end. -/
  caret : (caretRow k).idxOf '^' + 1 = (caretRow k).length
  /-- A column of the source row is that many columns to the right in the row of the message. -/
  width : (gutter line).length = max 3 (toString (line : Int)).length + 3
  /-- The caret misses the column by two less than the digits that there is room for. -/
  offset : (caretRow k).idxOf '^' + (max 3 (toString (line : Int)).length - 2) =
    (gutter line).length + k
  left : (caretRow k).idxOf '^' < (gutter line).length + k

theorem Malformed.caretLeft {m : Malformed}
    (hq : m.quotedLine? = some ((line : Int), String.ofList row))
    (hk : m.column = some (k : Int)) (feedless : '\n' ∉ row) : CaretLeft m line row k where
  rows := by rw [message_of_quoted hq hk, String.toList_ofList]
  feedless := by
    rw [List.mem_append, not_or]
    exact ⟨⟨feedless_gutter line, feedless⟩, feedless_caretRow k⟩
  caret := by
    rw [idxOf_caretRow, caretRow_eq]
    simp
  width := length_gutter line
  offset := by
    rw [idxOf_caretRow, length_gutter]
    omega
  left := by
    rw [idxOf_caretRow, length_gutter]
    omega

/-- A message tells the place of a fault in the source.  The row of the place, if it is there, is
quoted with a caret left of the column; there is no row where the source ends with the one before. -/
def Malformed.PointsLeft (m : Malformed) (source : String) : Prop :=
  ∃ (before row after : List Char) (line k : Nat),
    RowAt source.toList ⟨line, k⟩ before row after ∧ k ≤ row.length ∧
    m.line = some (line : Int) ∧ m.column = some (k : Int) ∧
    (row ++ after = [] → m.message = m.heading) ∧ (row ++ after ≠ [] → CaretLeft m line row k)

/-- In the message of a source that is refused the caret is left of the character at fault. -/
theorem caret_left_of_fault {e : Refusal} {name : Option String} {m : Malformed}
    (feeds : Text.OnlyFeeds source.toList) (refused : Tree.ofSource source = .error e)
    (told : e.toFault name source = .malformed m) : m.PointsLeft source := by
  obtain ⟨p, quoted, -, hline, hcolumn, hquotes, hquoted⟩ := quotes_of_refusal refused told
  obtain ⟨before, row, after, located, rfl⟩ := hquotes.row_of_onlyFeeds feeds
  obtain ⟨k, hk, hcol⟩ := located.column
  obtain rfl : p = ⟨(before.count '\n' + 1 : Nat), k⟩ := by
    rw [← hcol, Nat.cast_succ, ← located.line]
  refine ⟨before, row, after, _, k, located, hk, hline, hcolumn, fun hdone => ?_, fun hthere => ?_⟩
  · rw [if_pos hdone] at hquoted
    exact Malformed.message_of_nothing hquoted
  · rw [if_neg hthere] at hquoted
    exact Malformed.caretLeft hquoted hcolumn located.feedless

/-- An expression is missing in the second row: the caret stands below the blank in front of what is
found in its place. -/
theorem caret_left_of_fault_second_row :
    let source := "a\n\x7b\x7b \x7d\x7d"
    let t : Token := ⟨.variableEnd, "\x7d\x7d", ⟨2, 3⟩⟩
    let e : Refusal := .grammatical (.missingExpression t) t
    let m : Malformed := ⟨"Expected an expression, got '\x7d\x7d'", some 2, none, some source, some 3,
      .invalidExpression, true, none⟩
    Text.OnlyFeeds source.toList ∧ Tree.ofSource source = .error e ∧
      e.toFault none source = .malformed m ∧ m.PointsLeft source ∧
      m.message = "Syntax Error: Expected an expression, got '\x7d\x7d'\n  --> <template>:2:3\n" ++
        "   |\n" ++
        "  2 | \x7b\x7b \x7d\x7d\n" ++
        "   |    ^" := by
  intro source t e m
  have feeds : Text.OnlyFeeds source.toList := by decide
  have refused : Tree.ofSource source = .error e := by
    have h : (match Tree.ofSource source with
      | .error e' => some e'
      | .ok _ => none) = some e := by decide +kernel
    rcases hread : Tree.ofSource source with e' | tree
    · rw [hread] at h
      exact congrArg _ (Option.some.inj h)
    · rw [hread] at h
      cases h
  have told : e.toFault none source = .malformed m := by decide +kernel
  exact ⟨feeds, refused, told, caret_left_of_fault feeds refused told, by decide +kernel⟩

end Stencil
