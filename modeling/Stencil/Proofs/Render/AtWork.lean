/-
Stencil/Proofs/Render/AtWork.lean

A tag at work.  While a tag runs, the render keeps a handle of its own on the
cell that it lent; the tag has handles on the same cell and on no other.
`AtWork` says so, and that the count of the cell is exact, that its lock is
free, and that it holds the context.  `Beside` says what the tag leaves alone:
every slot, every other context and cell, and every handle on another cell.

One step of a call keeps both (a lemma for each way of changing the loans), and
by induction on the conduct so does the whole call, which does nothing to the
lent context but its writes (`Conduct.run_worked`).
-/
import Stencil.Proofs.Render.Conduct

namespace Stencil

variable {β : Type}

/-! ### What a tag leaves alone -/

/-- Nothing differs but the context `c`, the cell `k` and the handles on that cell. -/
structure Beside (k c : Nat) (l m : Loans Value) : Prop where
  slots : m.slots = l.slots
  contexts_size : m.contexts.size = l.contexts.size
  contexts : ∀ d, d ≠ c → m.contexts.get? d = l.contexts.get? d
  cells_size : m.cells.size = l.cells.size
  cells : ∀ j, j ≠ k → m.cells.get? j = l.cells.get? j
  handles_size : l.handles.size ≤ m.handles.size
  handles : ∀ h r, l.handles.get? h = some r →
    ∃ s, m.handles.get? h = some s ∧ s.cell = r.cell ∧ (r.cell ≠ k → s = r)
  made : ∀ h r, m.handles.get? h = some r → l.handles.size ≤ h → r.cell = k

namespace Beside

variable {k c : Nat} {l m n : Loans Value}

theorem refl (k c : Nat) (l : Loans Value) : Beside k c l l where
  slots := rfl
  contexts_size := rfl
  contexts _ _ := rfl
  cells_size := rfl
  cells _ _ := rfl
  handles_size := Nat.le_refl _
  handles _ r e := ⟨r, e, rfl, fun _ => rfl⟩
  made _ _ e hge := absurd (Table.lt_size e) (Nat.not_lt.mpr hge)

theorem changeContext (k c : Nat) (f : Context Value → Context Value) (l : Loans Value) :
    Beside k c l (Loans.changeContext c f l) :=
  { refl k c l with
    contexts_size := Table.size_modify ..
    contexts := fun _ hd => Table.get?_modify_of_ne _ _ hd.symm }

theorem changeCell (k c : Nat) (f : Cell → Cell) (l : Loans Value) :
    Beside k c l (Loans.changeCell k f l) :=
  { refl k c l with
    cells_size := Table.size_modify ..
    cells := fun _ hj => Table.get?_modify_of_ne _ _ hj.symm }

theorem changeHandle {h : Nat} {r : Handle} (c : Nat) (e : l.handles.get? h = some r)
    (hk : r.cell = k) {f : Handle → Handle} (hf : ∀ r, (f r).cell = r.cell) :
    Beside k c l (Loans.changeHandle h f l) :=
  { refl k c l with
    handles_size := by rw [Loans.changeHandle, Table.size_modify]
    handles := fun i s ei => by
      rw [Loans.changeHandle, Table.get?_modify, ei]
      split
      · next same =>
        subst same
        rw [e, Option.some.injEq] at ei
        exact ⟨f s, rfl, hf s, fun hne => absurd (ei ▸ hk) hne⟩
      · exact ⟨s, rfl, rfl, fun _ => rfl⟩
    made := fun i s ei hge => by
      have hlt := Table.lt_size ei
      rw [Loans.changeHandle, Table.size_modify] at hlt
      exact absurd hlt (Nat.not_lt.mpr hge) }

theorem addHandle (k c n : Nat) (l : Loans Value) :
    Beside k c l { l with handles := l.handles.add ⟨k, false, n⟩ } :=
  { refl k c l with
    handles_size := by simp
    handles := fun i s ei =>
      ⟨s, (Table.get?_add_of_lt _ (Table.lt_size ei)).trans ei, rfl, fun _ => rfl⟩
    made := fun i s ei hge => by
      dsimp only at ei
      rw [Table.get?_add] at ei
      split at ei
      · rw [Option.some.injEq] at ei
        rw [← ei]
      · exact absurd (Table.lt_size ei) (Nat.not_lt.mpr hge) }

theorem trans (h₁ : Beside k c l m) (h₂ : Beside k c m n) : Beside k c l n where
  slots := h₂.slots.trans h₁.slots
  contexts_size := h₂.contexts_size.trans h₁.contexts_size
  contexts d hd := (h₂.contexts d hd).trans (h₁.contexts d hd)
  cells_size := h₂.cells_size.trans h₁.cells_size
  cells j hj := (h₂.cells j hj).trans (h₁.cells j hj)
  handles_size := h₁.handles_size.trans h₂.handles_size
  handles h r e := by
    obtain ⟨s, es, hs, hs'⟩ := h₁.handles h r e
    obtain ⟨t, et, ht, ht'⟩ := h₂.handles h s es
    refine ⟨t, et, ht.trans hs, fun hne => ?_⟩
    rw [ht' (hs.trans_ne hne), hs' hne]
  made h r e hge := by
    by_cases hlt : m.handles.size ≤ h
    · exact h₂.made h r e hlt
    · -- made in the first part, and no handle goes to another cell
      obtain ⟨s, es⟩ := Table.exists_get? (Nat.lt_of_not_le hlt)
      obtain ⟨t, et, ht, -⟩ := h₂.handles h s es
      rw [e, Option.some.injEq] at et
      rw [et, ht, h₁.made h s es hge]

theorem withHandle (k c : Nat) (l : Loans Value) : Beside k c l (l.withHandle k) :=
  (addHandle k c 1 l).trans (changeCell k c _ _)

theorem withRelease {h : Nat} {r : Handle} (c : Nat) (e : l.handles.get? h = some r)
    (hk : r.cell = k) : Beside k c l (l.withRelease h) := by
  rw [Loans.withRelease, Loans.handleAt_eq e, hk]
  split
  · exact refl k c l
  · have h₁ : Beside k c l (Loans.changeHandle h ({ · with released := true }) l) :=
      changeHandle c e hk fun _ => rfl
    exact h₁.trans (changeCell k c _ _)

theorem withLetGo {h : Nat} {r : Handle} (c : Nat) (e : l.handles.get? h = some r)
    (hk : r.cell = k) : Beside k c l (l.withLetGo h) := by
  have h₁ : Beside k c l (Loans.changeHandle h (fun r => { r with holders := r.holders - 1 }) l) :=
    changeHandle c e hk fun _ => rfl
  rw [Loans.withLetGo]
  split
  · exact h₁.trans (withRelease c (Table.get?_modify_self _ e) hk)
  · exact h₁

end Beside

/-! ### The state while a tag runs -/

/-- The render has the handle `own` on the cell `k`, which holds the context `c` and whose lock is
free; the tag has handles on that cell only. -/
structure AtWork (own k c : Nat) (mine : List Nat) (l : Loans Value) : Prop where
  own_row : l.handles.get? own = some ⟨k, false, 1⟩
  cell_row : ∃ n, l.cells.get? k = some ⟨some c, n, false, false⟩
  counted : l.Counted k
  context_lt : c < l.contexts.size
  mine_row : ∀ h ∈ mine, h ≠ own ∧ ∃ r, l.handles.get? h = some r ∧ r.cell = k

namespace AtWork

variable {own k c : Nat} {mine : List Nat} {l : Loans Value}

theorem free (a : AtWork own k c mine l) {h : Nat} (hmem : h ∈ mine)
    (hr : (l.handleAt h).released = false) : l.Free h k c := by
  obtain ⟨-, r, e, hk⟩ := a.mine_row h hmem
  obtain ⟨n, e'⟩ := a.cell_row
  exact ⟨hr, by rw [Loans.handleAt_eq e, hk], _, e', rfl, rfl⟩

theorem changeContext (a : AtWork own k c mine l) (f : Context Value → Context Value) :
    AtWork own k c mine (Loans.changeContext c f l) :=
  { a with
    counted := a.counted
    context_lt := by
      rw [Loans.changeContext, Table.size_modify]
      exact a.context_lt }

/-- A further handle of the tag. -/
theorem withHandle (a : AtWork own k c mine l) :
    AtWork own k c (mine ++ [l.handles.size]) (l.withHandle k) where
  own_row := (Table.get?_add_of_lt _ (Table.lt_size a.own_row)).trans a.own_row
  cell_row := by
    obtain ⟨n, e⟩ := a.cell_row
    exact ⟨n + 1, Table.get?_modify_self _ e⟩
  counted := by
    obtain ⟨n, e⟩ := a.cell_row
    exact a.counted.withHandle e
  context_lt := a.context_lt
  mine_row h hmem := by
    rcases List.mem_append.mp hmem with hold | hnew
    · obtain ⟨hne, r, e, hk⟩ := a.mine_row h hold
      exact ⟨hne, r, (Table.get?_add_of_lt _ (Table.lt_size e)).trans e, hk⟩
    · obtain rfl := List.mem_singleton.mp hnew
      exact ⟨(Table.lt_size a.own_row).ne', _, Table.get?_add_new .., rfl⟩

/-- Handles of the tag change hands, or others hold them too. -/
theorem holders (a : AtWork own k c mine l) {h : Nat} (hmem : h ∈ mine) (f : Nat → Nat) :
    AtWork own k c mine (Loans.changeHandle h (fun r => { r with holders := f r.holders }) l) where
  own_row := (Table.get?_modify_of_ne _ _ (a.mine_row h hmem).1).trans a.own_row
  cell_row := a.cell_row
  counted := by
    rw [Loans.Counted, Loans.live_holders]
    exact a.counted
  context_lt := a.context_lt
  mine_row i hi := by
    obtain ⟨hne, r, e, hk⟩ := a.mine_row i hi
    refine ⟨hne, ?_⟩
    rw [Loans.changeHandle, Table.get?_modify, e]
    split
    · exact ⟨_, rfl, hk⟩
    · exact ⟨_, rfl, hk⟩

/-- A handle of the tag is released; that of the render is left, so the cell keeps its context. -/
theorem withRelease (a : AtWork own k c mine l) {h : Nat} (hmem : h ∈ mine) :
    AtWork own k c mine (l.withRelease h) := by
  obtain ⟨hne, r, e, hk⟩ := a.mine_row h hmem
  obtain ⟨n, ek⟩ := a.cell_row
  have hcounted : (l.withRelease h).Counted k := a.counted.withRelease ek
  have hown : own ∈ (l.withRelease h).live k := by
    rw [Loans.live_withRelease, Finset.mem_erase]
    exact ⟨hne.symm, Loans.mem_live.mpr ⟨1, a.own_row⟩⟩
  rw [Loans.withRelease, Loans.handleAt_eq e, hk] at hcounted hown ⊢
  split
  · exact a
  · next hrel =>
    rw [if_neg hrel] at hcounted hown
    have hrow : (Loans.changeCell k Cell.leave
        (Loans.changeHandle h ({ · with released := true }) l)).cells.get? k
          = some (Cell.leave ⟨some c, n, false, false⟩) := Table.get?_modify_self _ ek
    -- the count is still positive, so the context is not dropped
    have hpos : n - 1 ≠ 0 := by
      have hcard := Finset.card_pos.mpr ⟨own, hown⟩
      rw [Loans.Counted, Loans.cellAt_eq hrow, Cell.leave] at hcounted
      dsimp only at hcounted
      omega
    refine ⟨?_, ⟨n - 1, ?_⟩, hcounted, a.context_lt, fun i hi => ?_⟩
    · exact (Table.get?_modify_of_ne _ _ hne).trans a.own_row
    · rw [hrow, Cell.leave]
      simp only [hpos, if_false]
    · obtain ⟨hne', s, es, hs⟩ := a.mine_row i hi
      refine ⟨hne', ?_⟩
      change ∃ r, (l.handles.modify h _).get? i = some r ∧ r.cell = k
      rw [Table.get?_modify, es]
      split
      · exact ⟨_, rfl, hs⟩
      · exact ⟨_, rfl, hs⟩

/-- One who holds a handle of the tag lets go of it. -/
theorem withLetGo (a : AtWork own k c mine l) {h : Nat} (hmem : h ∈ mine) :
    AtWork own k c mine (l.withLetGo h) := by
  have h₁ := a.holders hmem (· - 1)
  rw [Loans.withLetGo]
  split
  · exact h₁.withRelease hmem
  · exact h₁

theorem mono (a : AtWork own k c mine l) {fewer : List Nat} (h : ∀ x ∈ fewer, x ∈ mine) :
    AtWork own k c fewer l := { a with mine_row := fun x hx => a.mine_row x (h x hx) }

end AtWork

/-! ### Steps of a call -/

namespace Conduct

variable {own k c : Nat} {mine : List Nat} {w : World}

theorem afterwards_ok {act : Run World β} {w' : World} {b : β} (h : act.exec w = (.ok b, w'))
    (rest : β → World → List Write) : afterwards act rest w = rest b w' := by
  rw [afterwards, h]

theorem afterwards_error {act : Run World β} {w' : World} {e : Stop}
    (h : act.exec w = (.error e, w')) (rest : β → World → List Write) :
    afterwards act rest w = [] := by
  rw [afterwards, h]

/-- An accessor is a block of one question. -/
theorem reach_access (mine : List Nat) (place : Nat) (q : Query) :
    reach mine place q.access =
      reach mine place fun h => Loans.locking h (Block.single q).inside := by
  rw [reach, reach]
  rcases mine[place]? with - | h
  · rfl
  · have hsingle : q.inside = (Block.single q).inside :=
      funext fun c => Run.ext_exec fun l => (Block.exec_single q c l).symm
    dsimp only
    rw [Run.ext_exec fun l => Query.exec_access q h l, hsingle]

/-- A block through one of the tag's handles writes to the lent context, or is refused. -/
theorem exec_reach_block (a : AtWork own k c mine w.loans) (place : Nat) (b : Block) :
    ∃ r, (Run.attempt (reach mine place fun h => Loans.locking h b.inside)).exec w =
      (.ok r, { w with loans :=
        Loans.changeContext c (·.writeAll (written w.loans mine place b)) w.loans }) := by
  have hsame : Loans.changeContext c (·.writeAll []) w.loans = w.loans :=
    Loans.changeContext_eq_self fun _ => rfl
  rw [Run.exec_attempt, reach, written]
  rcases e : mine[place]? with - | h
  · dsimp only
    rw [Run.exec_fail, hsame]
    exact ⟨_, rfl⟩
  · have hmem : h ∈ mine := List.mem_of_getElem? e
    dsimp only
    rcases hr : (w.loans.handleAt h).released with - | -
    · have hfree := a.free hmem hr
      obtain ⟨q, eq, -, hq⟩ := hfree.row
      have hcell : (w.loans.cellOf h).context = some c := by
        rw [Loans.cellOf, hfree.cell, Loans.cellAt_eq eq, hq]
      have hlock : (Loans.locking h b.inside).exec w.loans = _ :=
        Loans.exec_locking hfree (fun x => (b.play x).1.mapError .failed)
          (fun x y => y.writeAll (b.play x).2) fun m hm => b.exec_inside c m (hm ▸ a.context_lt)
      rw [onLoans, Run.exec_within, hlock, hcell, if_neg Bool.false_ne_true]
      rcases (b.play (w.loans.contextAt c)).1 with f | v
      · exact ⟨_, rfl⟩
      · exact ⟨_, rfl⟩
    · rw [onLoans, Run.exec_within, Loans.exec_locking_released hr, if_pos rfl, hsame]
      exact ⟨_, rfl⟩

/-- A further handle through one of the tag's, or a refusal. -/
theorem exec_reach_duplicate (a : AtWork own k c mine w.loans) (place : Nat) :
    (Run.attempt (reach mine place Loans.duplicate)).exec w
        = (.ok (.ok w.loans.handles.size), { w with loans := w.loans.withHandle k }) ∨
      ∃ e, (Run.attempt (reach mine place Loans.duplicate)).exec w = (.ok (.error e), w) := by
  rw [Run.exec_attempt, reach]
  rcases e : mine[place]? with - | h
  · exact .inr ⟨_, rfl⟩
  · dsimp only
    rcases hr : (w.loans.handleAt h).released with - | -
    · have hcell : (w.loans.handleAt h).cell = k := (a.free (List.mem_of_getElem? e) hr).cell
      left
      rw [onLoans, Run.exec_within, Loans.duplicate,
        Run.exec_bind_ok (Loans.exec_requireLive hr), Run.exec_get_bind, hcell,
        Loans.exec_addHandle]
    · right
      rw [onLoans, Run.exec_within, Loans.duplicate,
        Run.exec_bind_error (Loans.exec_requireLive_released hr)]
      exact ⟨_, rfl⟩

/-- A step on the handle at a place that does what a function says, and is not refused. -/
theorem exec_reach_quiet {act : Nat → Run (Loans Value) Unit}
    {f : Nat → Loans Value → Loans Value} (hact : ∀ h l, (act h).exec l = (.ok (), f h l))
    (mine : List Nat) (place : Nat) (w : World) :
    (∃ e, (Run.attempt (reach mine place act)).exec w = (.ok (.error e), w)) ∨
      ∃ h ∈ mine, (Run.attempt (reach mine place act)).exec w
        = (.ok (.ok ()), { w with loans := f h w.loans }) := by
  rw [Run.exec_attempt, reach]
  rcases e : mine[place]? with - | h
  · exact .inl ⟨_, rfl⟩
  · refine .inr ⟨h, List.mem_of_getElem? e, ?_⟩
    dsimp only
    rw [onLoans, Run.exec_within, hact]

end Conduct

/-! ### A whole call -/

/-- What a part of a call does that writes `ws`: nothing beside the lent context, its cell and the
handles on it, and to the context those writes. -/
structure Worked (own k c : Nat) (mine : List Nat) (ws : List Write) (w w' : World) : Prop where
  atWork : AtWork own k c mine w'.loans
  beside : Beside k c w.loans w'.loans
  context : w'.loans.contextAt c = (w.loans.contextAt c).writeAll ws
  rest : w' = { w with heap := w'.heap, loans := w'.loans }

namespace Worked

variable {own k c : Nat} {mine mine' : List Nat} {ws vs : List Write} {w w' w'' : World}

theorem refl (a : AtWork own k c mine w.loans) : Worked own k c mine [] w w :=
  ⟨a, .refl k c w.loans, rfl, rfl⟩

theorem trans (h₁ : Worked own k c mine ws w w') (h₂ : Worked own k c mine' vs w' w'')
    (h : ∀ x ∈ mine, x ∈ mine') : Worked own k c mine (ws ++ vs) w w'' where
  atWork := h₂.atWork.mono h
  beside := h₁.beside.trans h₂.beside
  context := by rw [h₂.context, h₁.context, Context.writeAll_append]
  rest := by rw [h₂.rest, h₁.rest]

/-- Work on values. -/
theorem heap (a : AtWork own k c mine w.loans) (h : Heap) :
    Worked own k c mine [] w { w with heap := h } :=
  ⟨a, .refl k c w.loans, rfl, rfl⟩

/-- Writes to the lent context. -/
theorem write (a : AtWork own k c mine w.loans) (ws : List Write) :
    Worked own k c mine ws w
      { w with loans := Loans.changeContext c (·.writeAll ws) w.loans } :=
  ⟨a.changeContext _, .changeContext k c _ w.loans,
    Loans.contextAt_changeContext a.context_lt _, rfl⟩

/-- A change of handles and cells only. -/
theorem quiet {l : Loans Value} (a : AtWork own k c mine l) (h : Beside k c w.loans l)
    (hc : l.contexts = w.loans.contexts) : Worked own k c mine [] w { w with loans := l } where
  atWork := a
  beside := h
  context := by rw [Context.writeAll_nil, Loans.contextAt, Loans.contextAt, hc]
  rest := rfl

end Worked

theorem Loans.contexts_withRelease (l : Loans Value) (h : Nat) :
    (l.withRelease h).contexts = l.contexts := by
  rw [withRelease]
  split <;> rfl

theorem Loans.contexts_withLetGo (l : Loans Value) (h : Nat) :
    (l.withLetGo h).contexts = l.contexts := by
  rw [withLetGo]
  split
  · exact contexts_withRelease _ h
  · rfl

namespace Conduct

variable {own k c : Nat} {mine : List Nat} {w : World}

/-- A step on one of the tag's handles that leaves contexts alone, and the rest of the call. -/
theorem worked_quiet {act : Nat → Run (Loans Value) Unit} {f : Nat → Loans Value → Loans Value}
    (hact : ∀ h l, (act h).exec l = (.ok (), f h l)) (a : AtWork own k c mine w.loans)
    (hf : ∀ h ∈ mine, AtWork own k c mine (f h w.loans) ∧ Beside k c w.loans (f h w.loans) ∧
      (f h w.loans).contexts = w.loans.contexts)
    (place : Nat) (next : Conduct)
    (ih : ∀ w', AtWork own k c mine w'.loans →
      Worked own k c mine (next.writes mine w') w' ((next.run mine).exec w').2) :
    Worked own k c mine
      (afterwards (Run.attempt (reach mine place act)) (fun _ w => next.writes mine w) w) w
      (Run.exec (do let _ ← Run.attempt (reach mine place act); next.run mine) w).2 := by
  rcases exec_reach_quiet hact mine place w with ⟨e, he⟩ | ⟨h, hmem, he⟩
  · rw [afterwards_ok he, Run.exec_bind_ok he]
    exact ih w a
  · obtain ⟨a', hb, hc⟩ := hf h hmem
    rw [afterwards_ok he, Run.exec_bind_ok he]
    exact (Worked.quiet a' hb hc).trans (ih _ a') fun x hx => hx

/-- Induction on the call: each step is one on the lent context, its cell or a handle on it. -/
theorem run_worked (d : Conduct) (a : AtWork own k c mine w.loans) :
    Worked own k c mine (d.writes mine w) w ((d.run mine).exec w).2 := by
  induction d generalizing mine w with
  | finish r => exact Worked.refl a
  | access place q next ih =>
    obtain ⟨r, e⟩ := exec_reach_block a place (.single q)
    rw [← reach_access] at e
    rw [run, writes, afterwards_ok e, Run.exec_bind_ok e]
    have h₁ := Worked.write a (written w.loans mine place (.single q))
    exact h₁.trans (ih r h₁.atWork) fun x hx => hx
  | lock place b next ih =>
    obtain ⟨r, e⟩ := exec_reach_block a place b
    rw [run, writes, afterwards_ok e, Run.exec_bind_ok e]
    have h₁ := Worked.write a (written w.loans mine place b)
    exact h₁.trans (ih r h₁.atWork) fun x hx => hx
  | duplicate place next ih =>
    rw [run, writes]
    rcases exec_reach_duplicate a place with e | ⟨f, e⟩
    · rw [afterwards_ok e, Run.exec_bind_ok e]
      have h₁ : Worked own k c mine [] w { w with loans := w.loans.withHandle k } :=
        .quiet (a.withHandle.mono fun x hx => List.mem_append_left _ hx) (.withHandle k c _) rfl
      exact h₁.trans (ih _ a.withHandle) fun x hx => List.mem_append_left _ hx
    · rw [afterwards_ok e, Run.exec_bind_ok e]
      exact ih _ a
  | release place next ih =>
    refine worked_quiet Loans.exec_release a (fun h hmem => ?_) place next fun w' a' => ih a'
    obtain ⟨-, r, e, hk⟩ := a.mine_row h hmem
    exact ⟨a.withRelease hmem, .withRelease c e hk, Loans.contexts_withRelease _ h⟩
  | hold place next ih =>
    refine worked_quiet (fun h l => rfl) a (fun h hmem => ?_) place next fun w' a' => ih a'
    obtain ⟨-, r, e, hk⟩ := a.mine_row h hmem
    exact ⟨a.holders hmem (· + 1), .changeHandle c e hk fun _ => rfl, rfl⟩
  | letGo place next ih =>
    refine worked_quiet Loans.exec_letGo a (fun h hmem => ?_) place next fun w' a' => ih a'
    obtain ⟨-, r, e, hk⟩ := a.mine_row h hmem
    exact ⟨a.withLetGo hmem, .withLetGo c e hk, Loans.contexts_withLetGo _ h⟩
  | look next ih =>
    rw [run, writes, Run.exec_get_bind]
    exact ih w.heap a
  | work act next ih =>
    rw [run, writes]
    have e : (Run.attempt (onHeap act)).exec w = _ := Run.exec_attempt (onHeap act) w
    rw [onHeap, Run.exec_within] at e
    rw [onHeap]
    rcases e' : act.exec w.heap with ⟨(f | -) | v, h⟩ <;> rw [e'] at e
    · rw [afterwards_ok e, Run.exec_bind_ok e]
      exact (Worked.heap a h).trans (ih _ a) fun x hx => hx
    · rw [afterwards_error e, Run.exec_bind_error e]
      exact Worked.heap a h
    · rw [afterwards_ok e, Run.exec_bind_ok e]
      exact (Worked.heap a h).trans (ih _ a) fun x hx => hx

end Conduct

end Stencil
