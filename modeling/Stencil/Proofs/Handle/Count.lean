/-
Stencil/Proofs/Handle/Count.lean

The count of a cell, whatever is done with its handles.  The loans are
*balanced* when every count is the number of live handles, and a cell has a
context just as long as its count is positive and it is not consumed.  Nothing
is lent at first, so this holds; and each thing that a deed can do keeps it
(`Deed.Effect.balanced`), hence so does every sequence of deeds.

How the count changes is said by the step: a deed leaves it, or a new handle
joins, or one handle leaves (`Deed.Effect.turn`).  A handle that has left is released,
and stays so (`Deed.Effect.lasts`); that is why no handle is taken off twice.
-/
import Stencil.Proofs.Handle.Deed

namespace Stencil

variable {l l' l'' : Loans Value}

/-! ### Rows after a change -/

namespace Loans

theorem live_withHandle_of_ne {j k : Nat} (h : k ≠ j) (l : Loans Value) :
    (l.withHandle k).live j = l.live j := by
  ext i
  rw [mem_live, mem_live]
  show (∃ n, (l.handles.add ⟨k, false, 1⟩).get? i = some ⟨j, false, n⟩) ↔ _
  rw [Table.get?_add]
  split
  · next e =>
    subst e
    rw [Table.get?_eq_none (Nat.le_refl _)]
    simp [h]
  · exact Iff.rfl

/-- A release changes the cell of a live handle only. -/
theorem cells_withRelease {h : Nat} {r : Handle} (e : l.handles.get? h = some r) :
    (l.withRelease h).cells =
      if r.released then l.cells else l.cells.modify r.cell Cell.leave := by
  rw [withRelease, handleAt_eq e]
  split <;> rfl

theorem withRelease_of_none {h : Nat} (e : l.handles.get? h = none) : l.withRelease h = l := by
  rw [withRelease, handleAt, e]
  rfl

/-- A released handle is not released again. -/
theorem withRelease_eq_self {h : Nat} {r : Handle} (e : l.handles.get? h = some r)
    (hr : r.released = true) : l.withRelease h = l := by
  rw [withRelease, handleAt_eq e, hr, if_pos rfl]

theorem handles_withRelease (l : Loans Value) (h i : Nat) :
    (l.withRelease h).handles.get? i =
      if h = i then (l.handles.get? i).map ({ · with released := true }) else l.handles.get? i := by
  rcases e : l.handles.get? h with - | r
  · rw [withRelease_of_none e]
    split
    · next same => rw [← same, e, Option.map_none]
    · rfl
  · rw [withRelease, handleAt_eq e]
    split
    · next hr =>
      split
      · next same =>
        obtain ⟨cell, released, n⟩ := r
        obtain rfl : released = true := hr
        rw [← same, e]
        rfl
      · rfl
    · exact Table.get?_modify ..

end Loans

/-! ### Balance -/

/-- Counts are exact, and cells have their contexts as long as they should. -/
structure Loans.Balanced (l : Loans Value) : Prop where
  placed : l.Placed
  /-- The count of a cell is the number of its live handles, so it is never negative. -/
  counted : ∀ k q, l.cells.get? k = some q → q.references = (l.live k).card
  holds : ∀ k q, l.cells.get? k = some q →
    (q.context.isSome = true ↔ 0 < q.references ∧ q.consumed = false)

namespace Loans.Balanced

/-- A live handle counts, and its cell is there. -/
theorem pos (b : l.Balanced) {h : Nat} {r : Handle} (e : l.handles.get? h = some r)
    (live : r.released = false) : ∃ q, l.cells.get? r.cell = some q ∧ 0 < q.references := by
  obtain ⟨q, eq⟩ := b.placed h r e
  obtain ⟨cell, released, n⟩ := r
  obtain rfl : released = false := live
  have hmem : h ∈ l.live cell := Loans.mem_live.mpr ⟨n, e⟩
  have hcard := Finset.card_pos.mpr ⟨h, hmem⟩
  have hcount := b.counted cell q eq
  exact ⟨q, eq, by omega⟩

theorem live_eq_empty (b : l.Balanced) {k : Nat} (e : l.cells.get? k = none) : l.live k = ∅ := by
  refine Finset.eq_empty_of_forall_notMem fun h hmem => ?_
  obtain ⟨n, eh⟩ := Loans.mem_live.mp hmem
  obtain ⟨q, eq⟩ := b.placed h _ eh
  cases e.symm.trans eq

theorem quiet (b : l.Balanced) (q : Quiet l l') : l'.Balanced where
  placed h r e := by
    obtain ⟨n, e'⟩ := q.symm.handle_row e
    obtain ⟨p, ep⟩ := b.placed h _ e'
    obtain ⟨x, ex⟩ := q.cell_row ep
    exact ⟨_, ex⟩
  counted k p e := by
    obtain ⟨x, e'⟩ := q.symm.cell_row e
    have hcount := b.counted k _ e'
    rw [q.live]
    exact hcount
  holds k p e := by
    obtain ⟨x, e'⟩ := q.symm.cell_row e
    have hold := b.holds k _ e'
    exact hold

/-- The handle that a context is wrapped with is the first of its cell. -/
theorem wrapped (b : l.Balanced) (c : Nat) : (l.wrapped c).Balanced := by
  let m : Loans Value := { l with cells := l.cells.add ⟨some c, 0, false, false⟩ }
  have hrow : ∀ k q, (l.wrapped c).cells.get? k = some q →
      k = l.cells.size ∧ q = ⟨some c, 1, false, false⟩ ∨
        k ≠ l.cells.size ∧ l.cells.get? k = some q := by
    intro k q e
    have e' : (m.cells.modify l.cells.size _).get? k = some q := e
    rw [Table.get?_modify, Table.get?_add] at e'
    split at e'
    · next same =>
      rw [if_pos same.symm] at e'
      exact .inl ⟨same.symm, (Option.some.inj e').symm⟩
    · next hne =>
      rw [if_neg (Ne.symm hne)] at e'
      exact .inr ⟨Ne.symm hne, e'⟩
  refine ⟨fun h r e => ?_, fun k q e => ?_, fun k q e => ?_⟩
  · have e' : (l.handles.add ⟨l.cells.size, false, 1⟩).get? h = some r := e
    have hsize : (l.wrapped c).cells.size = l.cells.size + 1 := by
      show (m.cells.modify _ _).size = _
      rw [Table.size_modify, Table.size_add]
    refine Table.exists_get? ?_
    rw [hsize]
    rw [Table.get?_add] at e'
    split at e'
    · obtain rfl := Option.some.inj e'
      exact Nat.lt_succ_self _
    · obtain ⟨q, eq⟩ := b.placed h r e'
      exact Nat.lt_succ_of_lt (Table.lt_size eq)
  · rcases hrow k q e with ⟨rfl, rfl⟩ | ⟨hne, e'⟩
    · have hnone : m.live l.cells.size = ∅ :=
        (Loans.live_congr rfl _).trans (b.live_eq_empty (Table.get?_eq_none (Nat.le_refl _)))
      have hone : (l.wrapped c).live l.cells.size = insert l.handles.size ∅ := by
        rw [← hnone]
        exact Loans.live_withHandle m _
      rw [hone]
      rfl
    · have hsame : (l.wrapped c).live k = l.live k :=
        (Loans.live_withHandle_of_ne (Ne.symm hne) m).trans (Loans.live_congr rfl k)
      rw [hsame]
      exact b.counted k q e'
  · rcases hrow k q e with ⟨rfl, rfl⟩ | ⟨-, e'⟩
    · simp
    · exact b.holds k q e'

/-- A further handle beside a live one. -/
theorem withHandle (b : l.Balanced) {h : Nat} {r : Handle} (e : l.handles.get? h = some r)
    (live : r.released = false) : (l.withHandle r.cell).Balanced := by
  obtain ⟨p, ep, hpos⟩ := b.pos e live
  have hrow : ∀ k q, (l.withHandle r.cell).cells.get? k = some q →
      k = r.cell ∧ q = { p with references := p.references + 1 } ∨
        k ≠ r.cell ∧ l.cells.get? k = some q := by
    intro k q eq
    have e' : (l.cells.modify r.cell _).get? k = some q := eq
    rw [Table.get?_modify] at e'
    split at e'
    · next same =>
      rw [← same, ep] at e'
      exact .inl ⟨same.symm, (Option.some.inj e').symm⟩
    · next hne => exact .inr ⟨Ne.symm hne, e'⟩
  refine ⟨fun i s es => ?_, fun k q eq => ?_, fun k q eq => ?_⟩
  · have es' : (l.handles.add ⟨r.cell, false, 1⟩).get? i = some s := es
    refine Table.exists_get? ?_
    show s.cell < (l.cells.modify _ _).size
    rw [Table.size_modify]
    rw [Table.get?_add] at es'
    split at es'
    · obtain rfl := Option.some.inj es'
      exact Table.lt_size ep
    · obtain ⟨q, eq⟩ := b.placed i s es'
      exact Table.lt_size eq
  · rcases hrow k q eq with ⟨rfl, rfl⟩ | ⟨hne, e'⟩
    · rw [Loans.live_withHandle, Finset.card_insert_of_notMem (Loans.size_notMem_live l _)]
      have hcount := b.counted _ p ep
      dsimp only
      omega
    · rw [Loans.live_withHandle_of_ne (Ne.symm hne)]
      exact b.counted k q e'
  · rcases hrow k q eq with ⟨rfl, rfl⟩ | ⟨-, e'⟩
    · have hold := b.holds _ p ep
      dsimp only
      rw [hold]
      exact ⟨fun h => ⟨by omega, h.2⟩, fun h => ⟨hpos, h.2⟩⟩
    · exact b.holds k q e'

/-- With the last handle the context goes. -/
theorem withRelease (b : l.Balanced) (h : Nat) : (l.withRelease h).Balanced := by
  rcases e : l.handles.get? h with - | r
  · rwa [Loans.withRelease_of_none e]
  rcases hr : r.released with - | -
  · obtain ⟨p, ep, hpos⟩ := b.pos e hr
    have hcells : (l.withRelease h).cells = l.cells.modify r.cell Cell.leave := by
      rw [Loans.cells_withRelease e, hr]
      rfl
    refine ⟨fun i s es => ?_, fun k q eq => ?_, fun k q eq => ?_⟩
    · rw [Loans.handles_withRelease] at es
      obtain ⟨t, et, hst⟩ : ∃ t, l.handles.get? i = some t ∧ s.cell = t.cell := by
        split at es
        · obtain ⟨t, et, rfl⟩ := Option.map_eq_some_iff.mp es
          exact ⟨t, et, rfl⟩
        · exact ⟨s, es, rfl⟩
      obtain ⟨q, eq⟩ := b.placed i t et
      refine Table.exists_get? ?_
      rw [hcells, Table.size_modify, hst]
      exact Table.lt_size eq
    · have hcount : l.Counted k → (l.withRelease h).Counted k := fun hc => by
        rcases ek : l.cells.get? k with - | q₀
        · rw [hcells, Table.get?_modify, ek] at eq
          split at eq <;> cases eq
        · exact hc.withRelease ek
      rcases ek : l.cells.get? k with - | q₀
      · rw [hcells, Table.get?_modify, ek] at eq
        split at eq <;> cases eq
      · have hc : l.Counted k := by
          rw [Loans.Counted, Loans.cellAt_eq ek]
          exact b.counted k q₀ ek
        have hc' := hcount hc
        rwa [Loans.Counted, Loans.cellAt_eq eq] at hc'
    · rw [hcells, Table.get?_modify] at eq
      split at eq
      · next same =>
        rw [← same, ep] at eq
        obtain rfl := Option.some.inj eq
        have hold := b.holds _ p ep
        rw [Cell.leave]
        dsimp only
        split
        · next hzero =>
          simp [hzero]
        · next hne =>
          rw [hold]
          exact ⟨fun h => ⟨by omega, h.2⟩, fun h => ⟨hpos, h.2⟩⟩
      · exact b.holds k q eq
  · rwa [Loans.withRelease_eq_self e hr]

theorem detached (b : l.Balanced) (k : Nat) : (l.detached k).Balanced := by
  have hrow : ∀ j q, (l.cells.modify k fun r => { r with context := none, consumed := true }).get? j
      = some q → ∃ q₀, l.cells.get? j = some q₀ ∧ q.references = q₀.references ∧
        (q = q₀ ∨ q.context = none ∧ q.consumed = true) := by
    intro j q e
    rw [Table.get?_modify] at e
    split at e
    · obtain ⟨q₀, e₀, rfl⟩ := Option.map_eq_some_iff.mp e
      exact ⟨q₀, e₀, rfl, .inr ⟨rfl, rfl⟩⟩
    · exact ⟨q, e, rfl, .inl rfl⟩
  refine ⟨fun h r e => ?_, fun j q e => ?_, fun j q e => ?_⟩
  · obtain ⟨q, eq⟩ := b.placed h r e
    refine Table.exists_get? ?_
    show _ < (l.cells.modify _ _).size
    rw [Table.size_modify]
    exact Table.lt_size eq
  · obtain ⟨q₀, e₀, hq, -⟩ := hrow j q e
    rw [hq]
    exact b.counted j q₀ e₀
  · obtain ⟨q₀, e₀, -, rfl | ⟨hnone, hgone⟩⟩ := hrow j q e
    · exact b.holds j q e₀
    · simp [hnone, hgone]

end Loans.Balanced

theorem Deed.Effect.balanced {d : Deed} (e : Deed.Effect l d l') (b : l.Balanced) :
    l'.Balanced := by
  cases e with
  | rests q => exact b.quiet q
  | wraps c => exact b.wrapped c
  | joins e live => exact b.withHandle e live
  | leaves q h => exact (b.quiet q).withRelease h
  | detaches e ek holds => exact b.detached _
  | takes clone e ek one free holds => exact (b.detached _).withRelease _

/-! ### Turns -/

/-- The count of a cell that is there, or nothing. -/
theorem Loans.Balanced.references_eq (b : l.Balanced) (k : Nat) :
    (l.cellAt k).references = (l.live k).card := by
  rcases e : l.cells.get? k with - | q
  · rw [b.live_eq_empty e, Loans.cellAt, e]
    rfl
  · rw [Loans.cellAt_eq e, b.counted k q e]

/-- What one deed does to the live handles of a cell, and to its count. -/
inductive Turn (k : Nat) (l l' : Loans Value) : Prop
  | same (live : l'.live k = l.live k)
      (count : (l'.cellAt k).references = (l.cellAt k).references)
  | joins (h : Nat) (new : l.handles.get? h = none) (live : l'.live k = insert h (l.live k))
      (count : (l'.cellAt k).references = (l.cellAt k).references + 1)
  | leaves (h : Nat) (mem : h ∈ l.live k) (live : l'.live k = (l.live k).erase h)
      (count : (l'.cellAt k).references = (l.cellAt k).references - 1)

namespace Turn

variable {m : Loans Value}

theorem of_live {k : Nat} (b : l.Balanced) (b' : l'.Balanced) (live : l'.live k = l.live k) :
    Turn k l l' :=
  .same live (by rw [b.references_eq, b'.references_eq, live])

theorem of_release {k : Nat} (h : Nat) (b : l.Balanced) (b' : (m.withRelease h).Balanced)
    (hm : m.live k = l.live k) : Turn k l (m.withRelease h) := by
  have herase : (m.withRelease h).live k = (l.live k).erase h := by
    rw [Loans.live_withRelease, hm]
  by_cases hmem : h ∈ l.live k
  · refine .leaves h hmem herase ?_
    have hpos := Finset.card_pos.mpr ⟨h, hmem⟩
    rw [b.references_eq, b'.references_eq, herase, Finset.card_erase_of_mem hmem]
    omega
  · rw [Finset.erase_eq_of_notMem hmem] at herase
    exact .of_live b b' herase

theorem of_withHandle (k j : Nat) (b : l.Balanced) (b' : (m.withHandle j).Balanced)
    (hm : m.handles = l.handles) : Turn k l (m.withHandle j) := by
  have hlive : m.live k = l.live k := Loans.live_congr hm k
  by_cases hj : j = k
  · subst hj
    have hnew : l.handles.get? l.handles.size = none := Table.get?_eq_none (Nat.le_refl _)
    have hinsert : (m.withHandle j).live j = insert l.handles.size (l.live j) := by
      rw [Loans.live_withHandle, hlive, hm]
    refine .joins l.handles.size hnew hinsert ?_
    rw [b.references_eq, b'.references_eq, hinsert,
      Finset.card_insert_of_notMem (Loans.size_notMem_live l j)]
    rfl
  · exact .of_live b b' ((Loans.live_withHandle_of_ne hj m).trans hlive)

end Turn

theorem Deed.Effect.turn {d : Deed} (e : Deed.Effect l d l') (b : l.Balanced) (k : Nat) :
    Turn k l l' := by
  have b' := e.balanced b
  cases e with
  | rests q => exact .of_live b b' (q.live k)
  | wraps c => exact .of_withHandle k _ b b' rfl
  | joins e live => exact .of_withHandle k _ b b' rfl
  | leaves q h => exact .of_release h b b' (q.live k)
  | detaches e ek holds => exact .of_live b b' (Loans.live_congr rfl k)
  | takes clone e ek one free holds => exact .of_release _ b b' (Loans.live_congr rfl k)

/-! ### What lasts -/

/-- What is there stays there: a consumed cell stays consumed and a released handle released, no
cell gets another context, and no handle another cell. -/
structure Lasts (l l' : Loans Value) : Prop where
  cells : ∀ k q, l.cells.get? k = some q → ∃ q', l'.cells.get? k = some q' ∧
    (q.consumed = true → q'.consumed = true) ∧ (q'.context = q.context ∨ q'.context = none)
  handles : ∀ h r, l.handles.get? h = some r → ∃ r', l'.handles.get? h = some r' ∧
    r'.cell = r.cell ∧ (r.released = true → r'.released = true)

namespace Lasts

theorem trans (h : Lasts l l') (h' : Lasts l' l'') : Lasts l l'' where
  cells k q e := by
    obtain ⟨q', e', hq, hc⟩ := h.cells k q e
    obtain ⟨q'', e'', hq', hc'⟩ := h'.cells k q' e'
    refine ⟨q'', e'', fun hx => hq' (hq hx), ?_⟩
    rcases hc' with hc' | hc'
    · rwa [hc']
    · exact .inr hc'
  handles i r e := by
    obtain ⟨r', e', hr, hx⟩ := h.handles i r e
    obtain ⟨r'', e'', hr', hx'⟩ := h'.handles i r' e'
    exact ⟨r'', e'', hr'.trans hr, fun hy => hx' (hx hy)⟩

theorem of_quiet (q : Quiet l l') : Lasts l l' where
  cells k p e := by
    obtain ⟨b, e'⟩ := q.cell_row e
    exact ⟨_, e', id, .inl rfl⟩
  handles h r e := by
    obtain ⟨n, e'⟩ := q.handle_row e
    exact ⟨_, e', rfl, id⟩

theorem refl (l : Loans Value) : Lasts l l := of_quiet (.refl l)

/-- A cell changes in a way that lasts. -/
theorem changeCell (k : Nat) {f : Cell → Cell} (hf : ∀ q, (q.consumed = true →
    (f q).consumed = true) ∧ ((f q).context = q.context ∨ (f q).context = none)) :
    Lasts l (Loans.changeCell k f l) where
  cells j q e := by
    rw [Loans.changeCell, Table.get?_modify, e]
    split
    · exact ⟨f q, rfl, hf q⟩
    · exact ⟨q, rfl, id, .inl rfl⟩
  handles h r e := ⟨r, e, rfl, id⟩

theorem withHandle (k : Nat) : Lasts l (l.withHandle k) := by
  have hadd : Lasts l { l with handles := l.handles.add ⟨k, false, 1⟩ } :=
    { refl l with
      handles := fun h r e => ⟨r, (Table.get?_add_of_lt _ (Table.lt_size e)).trans e, rfl, id⟩ }
  exact hadd.trans (changeCell k fun q => ⟨id, .inl rfl⟩)

theorem wrapped (c : Nat) : Lasts l (l.wrapped c) := by
  have hadd : Lasts l { l with cells := l.cells.add ⟨some c, 0, false, false⟩ } :=
    { refl l with
      cells := fun k q e =>
        ⟨q, (Table.get?_add_of_lt _ (Table.lt_size e)).trans e, id, .inl rfl⟩ }
  exact hadd.trans (withHandle _)

theorem withRelease (h : Nat) : Lasts l (l.withRelease h) := by
  rw [Loans.withRelease]
  split
  · exact refl l
  · have hmark : Lasts l (Loans.changeHandle h ({ · with released := true }) l) :=
      { refl l with
        handles := fun i r e => by
          rw [Loans.changeHandle, Table.get?_modify, e]
          split
          · exact ⟨_, rfl, rfl, fun _ => rfl⟩
          · exact ⟨r, rfl, rfl, id⟩ }
    refine hmark.trans (changeCell _ fun q => ⟨id, ?_⟩)
    rw [Cell.leave]
    dsimp only
    split
    · exact .inr rfl
    · exact .inl rfl

theorem detached (k : Nat) : Lasts l (l.detached k) :=
  changeCell k fun _ => ⟨fun _ => rfl, .inr rfl⟩

end Lasts

theorem Deed.Effect.lasts {d : Deed} (e : Deed.Effect l d l') : Lasts l l' := by
  cases e with
  | rests q => exact .of_quiet q
  | wraps c => exact .wrapped c
  | joins e live => exact .withHandle _
  | leaves q h => exact (Lasts.of_quiet q).trans (.withRelease h)
  | detaches e ek holds => exact .detached _
  | takes clone e ek one free holds => exact (Lasts.detached _).trans (.withRelease _)

/-! ### Sequences of deeds -/

namespace Deed

variable {w : World}

theorem balanced_after (d : Deed) (b : w.loans.Balanced) : (d.after w).loans.Balanced :=
  (d.effect b.placed).balanced b

/-- Induction on the deeds. -/
theorem balanced_afterAll (ds : List Deed) (b : w.loans.Balanced) :
    (afterAll ds w).loans.Balanced := by
  induction ds generalizing w with
  | nil => exact b
  | cons d ds ih => exact ih (d.balanced_after b)

/-- How often a handle is taken off the count of a cell. -/
def departures (h k : Nat) : List Deed → World → Nat
  | [], _ => 0
  | d :: rest, w =>
    (if h ∈ w.loans.live k ∧ h ∉ (d.after w).loans.live k then 1 else 0) +
      departures h k rest (d.after w)

/-- A handle that does not count never will. -/
theorem departures_eq_zero {h k : Nat} (ds : List Deed) (b : w.loans.Balanced)
    (there : ∃ r, w.loans.handles.get? h = some r) (gone : h ∉ w.loans.live k) :
    departures h k ds w = 0 := by
  induction ds generalizing w with
  | nil => rfl
  | cons d ds ih =>
    obtain ⟨r, e⟩ := there
    obtain ⟨r', e', hcell, hreleased⟩ := (d.effect b.placed).lasts.handles h r e
    have hgone : h ∉ (d.after w).loans.live k := by
      intro hmem
      obtain ⟨n, en⟩ := Loans.mem_live.mp hmem
      obtain rfl := Option.some.inj (e'.symm.trans en)
      -- it belonged to this cell, so it was released before
      obtain ⟨cell, released, m⟩ := r
      obtain rfl : k = cell := hcell
      rcases released with - | -
      · exact gone (Loans.mem_live.mpr ⟨m, e⟩)
      · cases hreleased rfl
    rw [departures, if_neg fun h => gone h.1, ih (d.balanced_after b) ⟨r', e'⟩ hgone]

/-- Once a handle is taken off, it does not count any more. -/
theorem departures_le_one (h k : Nat) (ds : List Deed) (b : w.loans.Balanced) :
    departures h k ds w ≤ 1 := by
  induction ds generalizing w with
  | nil => exact Nat.zero_le 1
  | cons d ds ih =>
    rw [departures]
    split
    · next hleft =>
      obtain ⟨n, e⟩ := Loans.mem_live.mp hleft.1
      obtain ⟨r', e', -⟩ := (d.effect b.placed).lasts.handles h _ e
      rw [departures_eq_zero ds (d.balanced_after b) ⟨r', e'⟩ hleft.2]
    · rw [Nat.zero_add]
      exact ih (d.balanced_after b)

end Deed

/-- The world with nothing lent: there are no cells and no handles. -/
def World.unlent (w : World) : World :=
  { w with loans := { w.loans with cells := .empty, handles := .empty } }

theorem World.balanced_unlent (w : World) : w.unlent.loans.Balanced where
  placed _ _ e := nomatch e
  counted _ _ e := nomatch e
  holds _ _ e := nomatch e

/-- Whatever is done with handles, in whatever order, the loans are balanced.  The next deed leaves
the count of a cell, or one new handle joins and is counted, or one live handle leaves and is taken
off; what is consumed or released stays so; and no handle is ever taken off the count of a cell
twice. -/
theorem Deed.count_exact (ds : List Deed) (w : World) :
    let w' := afterAll ds w.unlent
    w'.loans.Balanced ∧
      (∀ d : Deed, (∀ k, Turn k w'.loans (d.after w').loans) ∧ Lasts w'.loans (d.after w').loans) ∧
      ∀ h k, departures h k ds w.unlent ≤ 1 := by
  intro w'
  have b : w'.loans.Balanced := balanced_afterAll ds w.balanced_unlent
  refine ⟨b, fun d => ?_, fun h k => departures_le_one h k ds w.balanced_unlent⟩
  have he := d.effect b.placed
  exact ⟨he.turn b, he.lasts⟩

end Stencil
