/-
Stencil/Proofs/Handle/Retrieval.lean

Getting a context back is all or nothing.  By a live handle that is the only one
of its cell the very context comes back, nothing is cloned, and the cell is
consumed (`World.TakenBack`).  When there are others, a copy comes back, the
handle is released, and the others are answered as before (`World.CopiedBack`).
Otherwise nothing comes back, and nothing on loan has changed, nor any count of
hand-overs (`World.NotBack`).

Whether a copy can be made is up to the clone function.  It is, if each clone
ends with a value or with a failure that can be caught, as those of all cloning
rules do, and the names of the context are texts.
-/
import Stencil.Proofs.Handle.Count
import Stencil.Proofs.Render.Handover
import Stencil.Proofs.Scope.Calls

namespace Stencil

variable {v v' w : World} {h c n : Nat} {r : Handle} {q : Cell} {clone : Clone}

/-! ### The three endings -/

/-- A copy of the context `c`, the context `n`, came back: the handle is off the count of its cell,
whose lock is free, and the others are answered as before. -/
structure World.CopiedBack (v v' : World) (h : Nat) (r : Handle) (q : Cell) (c n : Nat) : Prop where
  new : n ≠ c
  copy : ∃ x, v'.loans.contexts.get? n = some x
  kept : v'.loans.contexts.get? c = v.loans.contexts.get? c
  cell : v'.loans.cells.get? r.cell = some ⟨some c, q.references - 1, q.consumed, false⟩
  handle : v'.loans.handles.get? h = some { r with released := true }
  others : ∀ i ∈ v.loans.live r.cell, i ≠ h → i ∈ v'.loans.live r.cell ∧
    ∀ x : Query, ((x.access i).exec v'.loans).1 = ((x.access i).exec v.loans).1

/-- One handle of several: what comes back is a copy, and the handle is off the count. -/
theorem copiedBack {x : Context Value} {path : ReclaimPath}
    (e : v.loans.handles.get? h = some r) (live : r.released = false)
    (ek : v.loans.cells.get? r.cell = some q) (more : 1 < q.references) (free : q.locked = false)
    (holds : q.context = some c) (ec : v.loans.contexts.get? c = some x)
    (eu : (reclaim h clone).exec v = (.ok (n, path), v')) :
    path = .deepCopy ∧ v.CopiedBack v' h r q c n := by
  have hq : v.loans.cellOf h = q := Loans.cellOf_eq e rfl ek
  have ends := reclaims v h clone
  rw [eu] at ends
  cases path with
  | unique =>
    cases ends with
    | taken one =>
      rw [hq] at one
      omega
  | deepCopy =>
    obtain ⟨rfl, copy, s, rfl⟩ := ends.copy_of_deepCopy
    let added : Loans Value := { v.loans with contexts := v.loans.contexts.add copy }
    have hloans : ((v.copied h copy s).changeTally (·.record .deepCopy)).loans
        = added.withRelease h := World.loans_changeTally ..
    have hrow : added.handles.get? h = some r := e
    have hlt : c < v.loans.contexts.size := Table.lt_size ec
    have hcontext : (added.withRelease h).contexts.get? c = v.loans.contexts.get? c := by
      rw [Loans.contexts_withRelease]
      exact Table.get?_add_of_lt _ hlt
    have hcell : (added.withRelease h).cells.get? r.cell
        = some ⟨some c, q.references - 1, q.consumed, false⟩ := by
      rw [Loans.cells_withRelease hrow, live, if_neg Bool.false_ne_true,
        Table.get?_modify_self _ ek, Cell.leave, if_neg (by omega), holds, free]
    have hlive : ∀ i ∈ v.loans.live r.cell, i ≠ h → i ∈ (added.withRelease h).live r.cell := by
      intro i hi hne
      have hadded : added.live r.cell = v.loans.live r.cell := Loans.live_congr rfl _
      rw [Loans.live_withRelease, hadded]
      exact Finset.mem_erase.mpr ⟨hne, hi⟩
    refine ⟨rfl, ?_⟩
    exact
      { new := Nat.ne_of_gt hlt
        copy := by
          rw [hloans, Loans.contexts_withRelease]
          exact ⟨copy, Table.get?_add_new ..⟩
        kept := by rw [hloans, hcontext]
        cell := by rw [hloans, hcell]
        handle := by rw [hloans, Loans.handles_withRelease, if_pos rfl, hrow]; rfl
        others := fun i hi hne => by
          have hbefore := (Loans.free_of_mem_live hi ek free holds).opens
          have hafter := (Loans.free_of_mem_live (hlive i hi hne) hcell rfl rfl).opens
          rw [hloans]
          refine ⟨hlive i hi hne, Query.access_congr (hafter.trans hbefore.symm) fun d hd => ?_⟩
          obtain rfl := Except.ok.inj (hbefore.symm.trans hd)
          rw [Loans.contextAt, Loans.contextAt, hcontext] }

end Stencil
