/-
Stencil/Proofs/Loan/Counting.lean

The count of a cell.  A cell is to hold as its count how many handles on it are
live, that is, not released (`Loans.Counted`).  Here is what making a handle and
releasing one do to the set of live handles, and that both keep the count
exact.  The way a context is got back hangs on this: it is taken out of its
cell only when the count says that nobody else is left.
-/
import Mathlib.Data.Finset.Card
import Mathlib.Data.Finset.Range
import Stencil.Loan.Handle
import Stencil.Proofs.Run

namespace Stencil

namespace Loans

variable {α : Type}

/-! ### Rows -/

theorem handleAt_eq {l : Loans α} {h : Nat} {r : Handle} (e : l.handles.get? h = some r) :
    l.handleAt h = r := by
  rw [handleAt, e, Option.getD_some]

theorem cellAt_eq {l : Loans α} {k : Nat} {r : Cell} (e : l.cells.get? k = some r) :
    l.cellAt k = r := by
  rw [cellAt, e, Option.getD_some]

theorem contextAt_eq {l : Loans α} {c : Nat} {r : Context α} (e : l.contexts.get? c = some r) :
    l.contextAt c = r := by
  rw [contextAt, e, Option.getD_some]

theorem slotAt_eq {l : Loans α} {s : Nat} {r : Slot} (e : l.slots.get? s = some r) :
    l.slotAt s = r := by
  rw [slotAt, e, Option.getD_some]

theorem cellOf_eq {l : Loans α} {h k : Nat} {r : Handle} {q : Cell}
    (e : l.handles.get? h = some r) (hk : r.cell = k) (e' : l.cells.get? k = some q) :
    l.cellOf h = q := by
  rw [cellOf, handleAt_eq e, hk, cellAt_eq e']

/-! ### Live handles -/

/-- The handles on a cell that are not released. -/
def live (l : Loans α) (k : Nat) : Finset Nat :=
  (Finset.range l.handles.size).filter fun h =>
    (l.handleAt h).cell = k ∧ (l.handleAt h).released = false

theorem mem_live {l : Loans α} {k h : Nat} :
    h ∈ l.live k ↔ ∃ n, l.handles.get? h = some ⟨k, false, n⟩ := by
  rw [live, Finset.mem_filter, Finset.mem_range]
  constructor
  · rintro ⟨hlt, hcell, hrel⟩
    obtain ⟨⟨cell, released, n⟩, e⟩ := Table.exists_get? hlt
    rw [handleAt_eq e] at hcell hrel
    obtain rfl : cell = k := hcell
    obtain rfl : released = false := hrel
    exact ⟨n, e⟩
  · rintro ⟨n, e⟩
    rw [handleAt_eq e]
    exact ⟨Table.lt_size e, rfl, rfl⟩

/-- Live handles depend on the table of handles only. -/
theorem live_congr {l m : Loans α} (h : l.handles = m.handles) (k : Nat) : l.live k = m.live k := by
  ext i
  rw [mem_live, mem_live, h]

/-- A new handle on the cell. -/
theorem live_add (l : Loans α) (k n : Nat) :
    Loans.live { l with handles := l.handles.add ⟨k, false, n⟩ } k
      = insert l.handles.size (l.live k) := by
  ext i
  rw [mem_live, Finset.mem_insert, mem_live]
  dsimp only
  rw [Table.get?_add]
  split
  · next e => simp [e]
  · next e => simp [e]

/-- A handle that is not there yet is not live. -/
theorem size_notMem_live (l : Loans α) (k : Nat) : l.handles.size ∉ l.live k := by
  intro h
  obtain ⟨n, e⟩ := mem_live.mp h
  exact Nat.lt_irrefl _ (Table.lt_size e)

/-- Who holds handles does not matter to which are live. -/
theorem live_holders (l : Loans α) (h k : Nat) (f : Nat → Nat) :
    (changeHandle h (fun r => { r with holders := f r.holders }) l).live k = l.live k := by
  ext i
  rw [mem_live, mem_live, changeHandle]
  dsimp only
  rw [Table.get?_modify]
  split
  · rcases e : l.handles.get? i with - | ⟨cell, released, n⟩ <;> simp
  · rfl

/-- A released handle is live no more. -/
theorem live_erase (l : Loans α) (h k : Nat) :
    (changeHandle h ({ · with released := true }) l).live k = (l.live k).erase h := by
  ext i
  rw [mem_live, Finset.mem_erase, mem_live, changeHandle]
  dsimp only
  rw [Table.get?_modify]
  split
  · next e => subst e; simp
  · next e => simp [Ne.symm e]

/-! ### The count -/

/-- The count of a cell is the number of its live handles. -/
def Counted (l : Loans α) (k : Nat) : Prop := (l.cellAt k).references = (l.live k).card

/-- The loans with one handle more on a cell. -/
def withHandle (k : Nat) (l : Loans α) : Loans α :=
  changeCell k (fun c => { c with references := c.references + 1 })
    { l with handles := l.handles.add ⟨k, false, 1⟩ }

@[simp] theorem exec_addHandle (k : Nat) (l : Loans α) :
    (addHandle k).exec l = (.ok l.handles.size, l.withHandle k) := rfl

/-- The loans after a handle is released. -/
def withRelease (h : Nat) (l : Loans α) : Loans α :=
  if (l.handleAt h).released then l
  else changeCell (l.handleAt h).cell Cell.leave (changeHandle h ({ · with released := true }) l)

@[simp] theorem exec_release (h : Nat) (l : Loans α) :
    (release h).exec l = (.ok ⟨⟩, l.withRelease h) := rfl

/-- The loans after one who holds a handle lets go of it. -/
def withLetGo (h : Nat) (l : Loans α) : Loans α :=
  let m := changeHandle h (fun r => { r with holders := r.holders - 1 }) l
  if (m.handleAt h).holders = 0 then m.withRelease h else m

@[simp] theorem exec_letGo (h : Nat) (l : Loans α) :
    (letGo h).exec l = (.ok (), l.withLetGo h) := by
  rw [letGo, Run.exec_modify_bind, Run.exec_get_bind, withLetGo]
  split <;> rfl

theorem live_withHandle (l : Loans α) (k : Nat) :
    (l.withHandle k).live k = insert l.handles.size (l.live k) := by
  rw [← live_add l k 1]
  exact live_congr rfl k

theorem Counted.withHandle {l : Loans α} {k : Nat} {r : Cell} (h : l.Counted k)
    (e : l.cells.get? k = some r) : (l.withHandle k).Counted k := by
  have hnew : (l.withHandle k).cells.get? k = some { r with references := r.references + 1 } :=
    Table.get?_modify_self _ e
  rw [Counted, cellAt_eq e] at h
  rw [Counted, live_withHandle, Finset.card_insert_of_notMem (size_notMem_live l k),
    cellAt_eq hnew, h]
  rfl

/-- What a release leaves of the handles of the cell. -/
theorem live_withRelease (l : Loans α) (h k : Nat) :
    (l.withRelease h).live k = (l.live k).erase h := by
  rw [withRelease]
  split
  · next e =>
    refine (Finset.erase_eq_of_notMem fun hmem => ?_).symm
    obtain ⟨n, e'⟩ := mem_live.mp hmem
    rw [handleAt_eq e'] at e
    exact Bool.false_ne_true e
  · rw [← live_erase l h k]
    exact live_congr rfl k

theorem Counted.withRelease {l : Loans α} {h k : Nat} {r : Cell} (hc : l.Counted k)
    (e : l.cells.get? k = some r) : (l.withRelease h).Counted k := by
  rw [Counted, cellAt_eq e] at hc
  rw [Counted, live_withRelease]
  by_cases hmem : h ∈ l.live k
  · -- the handle counts, and its cell is the one at hand
    obtain ⟨n, e'⟩ := mem_live.mp hmem
    have hcell : (l.withRelease h).cells.get? k = some r.leave := by
      rw [Loans.withRelease, handleAt_eq e', if_neg Bool.false_ne_true]
      exact Table.get?_modify_self _ e
    have hpos : 0 < (l.live k).card := Finset.card_pos.mpr ⟨h, hmem⟩
    rw [cellAt_eq hcell, Finset.card_erase_of_mem hmem, Cell.leave]
    dsimp only
    omega
  · -- a handle of another cell, or one that is released already
    have hcell : (l.withRelease h).cellAt k = r := by
      rw [Loans.withRelease]
      split
      · exact cellAt_eq e
      · next hrel =>
        refine cellAt_eq ((Table.get?_modify_of_ne _ _ fun hk => hmem ?_).trans e)
        rcases e' : l.handles.get? h with - | ⟨cell, released, n⟩
        · simp [handleAt, e'] at hrel
        · rw [handleAt_eq e'] at hrel hk
          obtain rfl : cell = k := hk
          obtain rfl : released = false := Bool.eq_false_of_not_eq_true hrel
          exact mem_live.mpr ⟨n, e'⟩
    rw [hcell, Finset.erase_eq_of_notMem hmem, hc]

end Loans

end Stencil
