/-
Stencil/Proofs/Render/Quoted.lean

Which line an error quotes.  Errors are located at places, which count rows, but the line that a
message quotes or a snippet marks is the line of that number.  `Quotes` says which one that is: the
row, as far as the first separator in it, when all separators in front of it are line feeds, alone
or behind a carriage return; else a line in front of the row, with no part of it
(`RowAt.quotes_lines`).  So the row is quoted in a source of rows (`Quotes.row_of_rowwise`).

The reports of a render have the line of a node, and each node stands in the source: a render
visits only what is in its tree (`Arrives.place_mem`), by induction on the way to the node.
-/
import Stencil.Proofs.Fault.Snippet
import Stencil.Proofs.Render.Blame
import Stencil.Proofs.Tree.Refused

namespace Stencil

variable {cs before row after : List Char} {source : String} {p : Position}
  {quoted : Option String}

/-! ### Rows of a source -/

/-- The row of a place in a source, between the text in front of it and the text behind it. -/
structure RowAt (cs : List Char) (p : Position) (before row after : List Char) : Prop where
  text : before ++ (row ++ after) = cs
  front : Text.EndsRow before
  feedless : '\n' ∉ row
  behind : after = [] ∨ after.head? = some '\n'
  line : p.line = before.count '\n' + 1
  column : ∃ k ≤ row.length, p.column = k

/-- The last row of a text.  Induction on the text, from its end. -/
theorem exists_lastRow (cs : List Char) : ∃ before row, before ++ row = cs ∧
    Text.EndsRow before ∧ '\n' ∉ row ∧
    Position.start.after cs = ⟨before.count '\n' + 1, row.length⟩ := by
  induction cs using List.reverseRecOn with
  | nil => exact ⟨[], [], rfl, .inl rfl, List.not_mem_nil, rfl⟩
  | append_singleton cs c ih =>
    obtain ⟨before, row, rfl, ends, feedless, hplace⟩ := ih
    rw [Position.after_concat, hplace, Position.next]
    split
    · next hc =>
      -- behind a line feed the next row begins
      have hcount := List.count_eq_zero_of_not_mem feedless
      exact ⟨before ++ row ++ [c], [], List.append_nil _, .inr (by simp [hc]), List.not_mem_nil,
        by simp [hc, hcount]⟩
    · next hc =>
      have hmem : '\n' ∉ row ++ [c] := by simp [feedless, Ne.symm hc]
      exact ⟨before, row ++ [c], (List.append_assoc ..).symm, ends, hmem, by simp⟩

/-- Each place in a source has a row. -/
theorem exists_rowAt (h : InSource cs p) : ∃ before row after, RowAt cs p before row after := by
  obtain ⟨offset, -, rfl⟩ := h
  obtain ⟨before, front, hcut, ends, feedless, hplace⟩ := exists_lastRow (cs.take offset)
  have hrest := List.takeWhile_append_dropWhile (p := (· != '\n')) (l := cs.drop offset)
  refine ⟨before, front ++ (cs.drop offset).takeWhile (· != '\n'),
    (cs.drop offset).dropWhile (· != '\n'), ?_, ends, fun hmem => ?_, ?_, ?_, ?_⟩
  · rw [List.append_assoc, hrest, ← List.append_assoc, hcut, List.take_append_drop]
  · rcases List.mem_append.mp hmem with hmem | hmem
    · exact feedless hmem
    · simpa using List.mem_takeWhile_imp hmem
  · rcases hbehind : (cs.drop offset).dropWhile (· != '\n') with - | ⟨c, rest⟩
    · exact .inl rfl
    · have hc := List.head?_dropWhile_not (· != '\n') (cs.drop offset)
      rw [hbehind] at hc
      exact .inr (by simpa using hc)
  · rw [hplace]
  · exact ⟨front.length, by simp, by rw [hplace]⟩

/-! ### Quoted lines -/

/-- What is quoted of a source for a place in it, if anything is. -/
inductive Quotes (source : String) (p : Position) : Option String → Prop
  /-- The row, as far as the first separator in it. -/
  | row {before row after : List Char} (located : RowAt source.toList p before row after)
      (front : Text.rowwise before = true) (there : row ++ after ≠ []) :
      Quotes source p (some (String.ofList (Text.firstLine row)))
  /-- Behind the last line feed of a source there is nothing. -/
  | nothing {before row after : List Char} (located : RowAt source.toList p before row after)
      (front : Text.rowwise before = true) (done : row ++ after = []) : Quotes source p none
  /-- A line of the text in front of the row: that of the number of the row. -/
  | earlier {before row after : List Char} {line : String}
      (located : RowAt source.toList p before row after) (front : Text.rowwise before = false)
      (counted : (Text.lines (String.ofList before))[before.count '\n']? = some line) :
      Quotes source p (some line)

/-- The line of the number of a place is what is quoted for it. -/
theorem RowAt.quotes_lines (h : RowAt source.toList p before row after) :
    Quotes source p (Text.lines source)[(p.line - 1).toNat]? := by
  obtain ⟨hrow, hnone, hearlier⟩ := Text.getElem?_lines h.front h.feedless h.behind
  rw [h.text, String.ofList_toList] at hrow hnone hearlier
  rw [show (p.line - 1).toNat = before.count '\n' by rw [h.line]; omega]
  cases hfront : Text.rowwise before with
  | true =>
    by_cases hempty : row ++ after = []
    · rw [hnone hfront hempty]
      exact .nothing h hfront hempty
    · rw [hrow hfront hempty]
      exact .row h hfront hempty
  | false =>
    obtain ⟨line, hline, hquoted⟩ := hearlier hfront
    rw [hquoted]
    exact .earlier h hfront hline

theorem quotes_of_inSource (h : InSource source.toList p) :
    Quotes source p (Text.lines source)[(p.line - 1).toNat]? := by
  obtain ⟨before, row, after, hrow⟩ := exists_rowAt h
  exact hrow.quotes_lines

/-- In a source of rows the row is quoted, a carriage return at its end aside. -/
theorem Quotes.row_of_rowwise (rows : Text.rowwise source.toList = true) (h : Quotes source p quoted) :
    ∃ before row after, RowAt source.toList p before row after ∧
      (row ++ after ≠ [] → ∃ line, quoted = some (String.ofList line) ∧
        (row = line ∨ row = line ++ ['\r'])) := by
  cases h with
  | @row before row after located front there =>
    rw [← located.text, Text.rowwise_append located.front] at rows
    exact ⟨before, row, after, located, fun _ =>
      ⟨_, rfl, Text.firstLine_of_rowwise rows.2 located.feedless⟩⟩
  | nothing located front done => exact ⟨_, _, _, located, fun there => absurd done there⟩
  | earlier located front =>
    rw [← located.text, Text.rowwise_append located.front, front] at rows
    cases rows.1

/-! ### Snippets -/

/-- The lines of a snippet that are marked. -/
def Snippet.marked (s : Snippet) : List String :=
  (s.lines.filter (·.1 = s.errorLine)).map (·.2)

/-- A snippet of a source marks the line that has the number of the faulty one. -/
theorem Snippet.marked_ofSource {line around : Int} (hline : 0 < line) (haround : 0 ≤ around)
    (column : Option Int) : (Snippet.ofSource source line around column).marked =
      (Text.lines source)[(line - 1).toNat]?.toList := by
  have hfilter : (ofSource source line around column).lines.filter (·.1 = line) = _ :=
    filter_ofSource
  rw [if_pos haround, lineAt?, if_pos (by omega)] at hfilter
  rw [marked, ofSource_errorLine, hfilter]
  cases (Text.lines source)[(line - 1).toNat]? <;> rfl

/-! ### Places of nodes -/

section Places

variable {κ μ : Type} {host : Host} {r : Renderer} {w w' : World} {node : Node Value}
  {nodes body picked otherwise : List (Node Value)} {branches : List (Branch Value)}
  {ks : List Rest}

theorem Node.place_mem_places (node : Node κ) : node.place ∈ node.places := by
  cases node <;> simp [Node.place, Node.places]

theorem Picks.places_subset (h : Picks host r otherwise branches w picked w') :
    Node.allPlaces picked ⊆ Branch.allPlaces branches ++ Node.allPlaces otherwise := by
  induction h with
  | last => exact List.subset_append_right _ _
  | take =>
    rw [Branch.allPlaces, List.append_assoc]
    exact List.subset_append_left _ _
  | skip _ _ _ ih =>
    rw [Branch.allPlaces, List.append_assoc]
    exact List.Subset.trans ih (List.subset_append_right _ _)

/-- A body in a node stands where the node says. -/
theorem Enters.places_subset (h : Enters host r node w body ks w') :
    Node.allPlaces body ⊆ node.places := by
  cases h with
  | choice p =>
    refine List.Subset.trans p.places_subset ?_
    rw [Branch.allPlaces, Node.places]
    exact List.subset_cons_self _ _
  | empty =>
    rw [Node.places]
    exact List.Subset.trans (List.subset_append_right _ _) (List.subset_cons_self _ _)
  | round =>
    rw [Node.places]
    exact List.Subset.trans (List.subset_append_left _ _) (List.subset_cons_self _ _)
  | scope =>
    rw [Node.places]
    exact List.subset_cons_self _ _

/-- A render arrives only at what is in its tree.  Induction on the way. -/
theorem Arrives.place_mem (h : Arrives host r nodes w node ks w') :
    node.place ∈ Node.allPlaces nodes := by
  induction h with
  | here node => exact List.mem_append_left _ node.place_mem_places
  | inside e _ ih => exact List.mem_append_left _ (e.places_subset ih)
  | later _ _ ih => exact List.mem_append_right _ ih

theorem Expr.place_map (f : κ → μ) : ∀ e : Expr κ,
    (Id.run (e.mapM fun v => pure (f v))).place = e.place
  | .const _ _ | .name _ _ | .member _ _ _ | .not _ _ | .filter _ _ _ _ | .bare _ => rfl
  | .node n => by
    cases n with
    | expr _ e => exact Expr.place_map f e
    | _ => rfl

mutual

/-- A change of the constants leaves all nodes where they are.  Induction on the tree. -/
theorem Node.places_map (f : κ → μ) : ∀ node : Node κ,
    (Id.run (node.mapM fun v => pure (f v))).places = node.places
  | .data _ _ | .output _ _ | .assign _ _ _ | .call _ _ _ _ _ | .bare _ _ | .tree _ _ _ => rfl
  | .choice p _ body others otherwise => by
    rw [Node.places, ← Node.allPlaces_map f body, ← Branch.allPlaces_map f others,
      ← Node.allPlaces_map f otherwise]
    rfl
  | .loop p _ _ body empty => by
    rw [Node.places, ← Node.allPlaces_map f body, ← Node.allPlaces_map f empty]
    rfl
  | .scope p _ body => by
    rw [Node.places, ← Node.allPlaces_map f body]
    rfl
  | .expr _ e => congrArg (fun p => [p]) (e.place_map f)

theorem Node.allPlaces_map (f : κ → μ) : ∀ nodes : List (Node κ),
    Node.allPlaces (Id.run (Node.mapAllM (fun v => pure (f v)) nodes)) = Node.allPlaces nodes
  | [] => rfl
  | node :: rest => by
    rw [Node.allPlaces, ← Node.places_map f node, ← Node.allPlaces_map f rest]
    rfl

theorem Branch.allPlaces_map (f : κ → μ) : ∀ branches : List (Branch κ),
    Branch.allPlaces (Id.run (Branch.mapAllM (fun v => pure (f v)) branches)) =
      Branch.allPlaces branches
  | [] => rfl
  | .mk _ body :: rest => by
    rw [Branch.allPlaces, ← Node.allPlaces_map f body, ← Branch.allPlaces_map f rest]
    rfl

end

theorem Tree.allPlaces_map (f : κ → μ) (tree : Tree κ) :
    Node.allPlaces (tree.map f).body = Node.allPlaces tree.body := Node.allPlaces_map f tree.body

end Places

/-! ### Reports -/

variable {host : Host} {w w' : World} {o : Origin} {E F X : Failure} {t : Template}
  {environment template slot : Nat} {name : Option String} {node : Node Value} {ks : List Rest}

/-- The template of a source that was read. -/
structure Template.ReadFrom (t : Template) (text : String) : Prop where
  source : t.source = some text
  tree : ∃ tree, Tree.ofSource text = .ok tree ∧ t.tree = tree.map .atom

theorem readFrom_of_readTemplate
    (h : (readTemplate environment source name).exec w = (.ok template, w')) :
    (w'.templateAt template).ReadFrom source := by
  rcases hread : Tree.ofSource source with e | tree
  · rw [readTemplate, hread] at h
    cases h
  · rw [readTemplate, hread] at h
    cases h
    let t : Template := ⟨environment, tree.map .atom, name, source⟩
    have hnew : World.templateAt { w with templates := w.templates.add t } w.templates.size = t := by
      rw [World.templateAt, Table.get?_add_new]
      rfl
    exact ⟨congrArg Template.source hnew, tree, hread, congrArg Template.tree hnew⟩

/-- A report is located at a place of a source: it has its line, and a snippet that marks what is
quoted for it. -/
structure LocatedAt (source : String) (p : Position) (line : Option Int)
    (snippet : Option Snippet) : Prop where
  inside : InSource source.toList p
  line : line = some p.line
  marks : ∃ s quoted, snippet = some s ∧ s.errorLine = p.line ∧ s.marked = quoted.toList ∧
    Quotes source p quoted

theorem InSource.line_pos (h : InSource cs p) : 0 < p.line := by
  obtain ⟨before, row, after, hrow⟩ := exists_rowAt h
  have := hrow.line
  omega

theorem filled?_some (h : source.isEmpty = false) : filled? (some source) = some source := by
  rw [filled?, Option.filter_some, h]
  rfl

theorem nonzero?_some {n : Int} (h : 0 < n) : nonzero? (some n) = some n := by
  rw [nonzero?, Option.filter_some, if_pos (decide_eq_true h.ne')]

/-- What a render knows of its place is what a report needs. -/
theorem LocatedAt.of_rendering {y : Rendering} (inside : InSource source.toList p)
    (there : source.isEmpty = false) (hsource : y.source = some source) (hline : y.line = p.line) :
    LocatedAt source p (some y.line) y.snippet? where
  inside := inside
  line := congrArg some hline
  marks := by
    have hpos := inside.line_pos
    refine ⟨.ofSource source p.line 2 none, _, ?_, rfl, Snippet.marked_ofSource hpos (by decide) _,
      quotes_of_inSource inside⟩
    rw [Rendering.snippet?, hsource, hline, filled?_some there, nonzero?_some hpos]
    rfl

/-- An empty source is read, and it has no nodes. -/
theorem Tree.ofSource_empty (h : source.isEmpty = true) :
    Tree.ofSource source = .ok ⟨.start, []⟩ := by
  rw [String.isEmpty_iff.mp h]
  rfl

/-- A node that a render visits stands in the source. -/
theorem Visits.inSource (v : Visits host template slot w node ks w')
    (readFrom : (w.templateAt template).ReadFrom source) :
    InSource source.toList node.place ∧ source.isEmpty = false := by
  obtain ⟨tree, hread, htree⟩ := readFrom.tree
  have hmem := v.arrives.place_mem
  rw [htree, Tree.allPlaces_map] at hmem
  refine ⟨Tree.inSource_of_ofSource hread hmem, Bool.eq_false_iff.mpr fun hempty => ?_⟩
  rw [Tree.ofSource_empty hempty] at hread
  cases hread
  cases hmem

theorem Visits.locatedAt (orderly : host.Orderly) (v : Visits host template slot w node ks w')
    (readFrom : (w.templateAt template).ReadFrom source) :
    LocatedAt source node.place (w'.rendering?.map (·.line)) (w'.rendering?.bind (·.snippet?)) := by
  obtain ⟨inside, there⟩ := v.inSource readFrom
  obtain ⟨_, _, hy⟩ := v.rendering?_eq orderly
  rw [hy]
  exact .of_rendering inside there readFrom.source rfl

theorem Malformed.quotedLine?_eq {m : Malformed} (inside : InSource source.toList p)
    (there : source.isEmpty = false) (hsource : m.source = some source)
    (hline : m.line = some p.line) :
    m.quotedLine? = ((Text.lines source)[(p.line - 1).toNat]?).map (p.line, ·) := by
  have hpos := inside.line_pos
  rw [quotedLine?, hline, hsource, filled?_some there, nonzero?_some hpos]
  exact if_pos hpos

/-- A refusal that is a fault of the source quotes it for the place of the fault. -/
theorem quotes_of_refusal {e : Refusal} {m : Malformed} (h : Tree.ofSource source = .error e)
    (hm : e.toFault name source = .malformed m) :
    ∃ p quoted, InSource source.toList p ∧ m.line = some p.line ∧ m.column = some p.column ∧
      Quotes source p quoted ∧ m.quotedLine? = quoted.map (p.line, ·) := by
  have there : source.isEmpty = false := Bool.eq_false_iff.mpr fun hempty => by
    rw [Tree.ofSource_empty hempty] at h
    cases h
  cases Tree.refusal_of_ofSource h with
  | @lexical c p inside =>
    cases hm
    exact ⟨p, _, inside, rfl, rfl, quotes_of_inSource inside,
      Malformed.quotedLine?_eq inside there rfl rfl⟩
  | @grammatical c t inside =>
    cases hm
    exact ⟨t.position, _, inside, rfl, rfl, quotes_of_inSource inside,
      Malformed.quotedLine?_eq inside there rfl rfl⟩
  | overlong => cases hm

/-- A refused source is quoted for the place of the fault. -/
theorem quotes_of_refused {m : Malformed}
    (h : (readTemplate environment source name).Fails w X) (hm : X.fault = .malformed m) :
    ∃ p quoted, InSource source.toList p ∧ m.line = some p.line ∧ m.column = some p.column ∧
      Quotes source p quoted ∧ m.quotedLine? = quoted.map (p.line, ·) := by
  rcases hread : Tree.ofSource source with e | tree
  · rw [readTemplate, hread] at h
    obtain rfl := Run.fails_fail.mp h
    exact quotes_of_refusal hread hm
  · rw [readTemplate, hread] at h
    cases h

/-! ### All errors of a source -/

/-- Which lines the errors of a source quote. -/
structure QuotesLines (host : Host) (source : String) : Prop where
  /-- The message of a source that is refused quotes it for the place of the fault. -/
  refused : ∀ {environment : Nat} {name : Option String} {w : World} {X : Failure} {m : Malformed},
    (readTemplate environment source name).Fails w X → X.fault = .malformed m →
    ∃ p quoted, InSource source.toList p ∧ m.line = some p.line ∧ m.column = some p.column ∧
      Quotes source p quoted ∧ m.quotedLine? = quoted.map (p.line, ·)
  /-- A source that is not refused gives a template of it. -/
  reads : ∀ {environment template : Nat} {name : Option String} {w w' : World},
    (readTemplate environment source name).exec w = (.ok template, w') →
    (w'.templateAt template).ReadFrom source
  /-- In a render of it the report of a name without a value is located at the node, and leaves. -/
  missing : ∀ {template slot : Nat} {w w' : World} {node : Node Value} {ks : List Rest}
    {E F : Failure}, (w.templateAt template).ReadFrom source →
    Visits host template slot w node ks w' →
    node.Raises host (w.rendererOf template slot) w' .missing E F →
    ∃ u X, E = .of (.undefinedName u) ∧ LocatedAt source node.place u.line u.snippet ∧
      (renderSlot host template slot).Fails w X ∧ Escapes ks E X
  /-- So is the report of any other failure that is converted. -/
  converted : ∀ {template slot : Nat} {w w' : World} {node : Node Value} {ks : List Rest}
    {o : Origin} {E F : Failure}, (w.templateAt template).ReadFrom source →
    Visits host template slot w node ks w' →
    node.Raises host (w.rendererOf template slot) w' o E F → (∀ name, o ≠ .tag name) →
    E.fault.catchable = true → E.fault.broken = false → E.fault.ofTemplates = false →
    ∃ report X, LocatedAt source node.place report.line report.snippet ∧
      (renderSlot host template slot).Fails w X ∧ Escapes ks (.because (.failed report) E) X
  /-- If all separators of the source end rows, what is quoted is the row of the place. -/
  rows : Text.rowwise source.toList = true → ∀ {p : Position} {quoted : Option String},
    Quotes source p quoted → ∃ before row after, RowAt source.toList p before row after ∧
      (row ++ after ≠ [] → ∃ line, quoted = some (String.ofList line) ∧
        (row = line ∨ row = line ++ ['\r']))

/-- The errors of a source quote the line that has the number of the row they are located in. -/
theorem readTemplate_quotesLines (orderly : host.Orderly) (source : String) :
    QuotesLines host source where
  refused := quotes_of_refused
  reads := readFrom_of_readTemplate
  missing readFrom v raises := by
    obtain ⟨name, available, rfl⟩ := raises.told
    obtain ⟨X, hX, escapes⟩ := v.leaves orderly raises
    rw [Template.leaving_of_ofTemplates rfl] at escapes
    exact ⟨_, X, rfl, v.locatedAt orderly readFrom, hX, escapes⟩
  converted {template _ _ _ node _ o E _} readFrom v raises ho hc hb ht := by
    obtain ⟨inside, there⟩ := v.inSource readFrom
    obtain ⟨X, hX, escapes⟩ := v.leaves orderly raises
    have hleaving : ∀ t : Template, t.leaving node.place.line E o =
        E.converted t (some (t.renderingAt node.place.line)) := fun t => by
      cases o with
      | tag name => exact absurd rfl (ho name)
      | _ => rfl
    rw [hleaving, Failure.converted, if_pos ⟨hc, hb, ht⟩] at escapes
    exact ⟨_, X, .of_rendering (y := Template.renderingAt _ _) inside there readFrom.source rfl,
      hX, escapes⟩
  rows rowwise _ _ h := h.row_of_rowwise rowwise

/-- Where a form feed stands in the first row, the text behind it has the number of the second row,
and the errors there quote it. -/
theorem readTemplate_quotesLines_formFeed :
    let host := scriptHost 0
    let w := World.ofTags [] []
    let refused := "a\x0cb\n\x7b\x7b \x7d\x7d"
    let read := "a\x0cb\n\x7b\x7b x \x7d\x7d"
    let w' := ((readTemplate 0 read none).exec w).2
    QuotesLines host refused ∧ QuotesLines host read ∧
      RowAt refused.toList ⟨2, 3⟩ "a\x0cb\n".toList "\x7b\x7b \x7d\x7d".toList [] ∧
      (∃ m, (readTemplate 0 refused none).Fails w (.of (.malformed m)) ∧ m.line = some 2 ∧
        m.column = some 3 ∧ m.quotedLine? = some (2, "b")) ∧
      ∃ u, (renderSlot host 0 0).Fails w' (.of (.undefinedName u)) ∧ u.line = some 2 ∧
        u.snippet.map Snippet.marked = some ["b"] := by
  intro host w refused read w'
  have orderly := orderly_scriptHost 0
  refine ⟨readTemplate_quotesLines orderly refused, readTemplate_quotesLines orderly read, ?_,
    ⟨⟨"Expected an expression, got '\x7d\x7d'", some 2, none, some refused, some 3,
      .invalidExpression, true, none⟩, ?_, rfl, rfl, by decide⟩,
    ⟨⟨.str "x", none, some 2, [], some (.ofSource read 2 2 none)⟩, ?_, rfl, by decide⟩⟩
  · exact ⟨by decide, .inr (by decide), by decide, .inl rfl, by decide, 3, by decide, rfl⟩
  · rw [Run.Fails]
    decide +kernel
  · rw [Run.Fails]
    decide +kernel

end Stencil
