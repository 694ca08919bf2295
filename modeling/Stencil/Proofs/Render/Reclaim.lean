/-
Stencil/Proofs/Render/Reclaim.lean

How a context comes back, by whatever handle it is asked for: it is taken out of
its cell (`exec_reclaimUnique`), or a copy is made of it while the lock is held
(`Loans.Free.exec_reclaimCopy_ok`, `Loans.Free.exec_reclaimCopy_error`).

From a tag, in the state of `AtWork`, it comes back in three ways, and the effect
of `restore` is given for each of them as an equation:

* the handle of the render is the only live one: the slot gets the very context,
  and the cell is consumed (`exec_restore_unique`);
* there is another, and the context can be copied: the slot gets the copy, and
  the cell keeps the context (`exec_restore_copied`);
* there is another, and copying stops: the slot gets the shared context itself
  (`exec_restore_stopped`).
-/
import Stencil.Proofs.Loan.Sound
import Stencil.Proofs.Render.AtWork
import Stencil.Render.Dispatch

namespace Stencil

variable {α : Type}

/-! ### Lending -/

/-- The loans when the context was taken out of a slot: an empty one holds its place. -/
def Loans.taken (slot : Nat) (l : Loans α) : Loans α :=
  { l with
    contexts := l.contexts.add .empty
    slots := l.slots.modify slot fun _ => ⟨l.contexts.size, true⟩ }

/-- The loans when it was put into a new cell. -/
def Loans.takenOut (slot c : Nat) (l : Loans α) : Loans α :=
  { l.taken slot with cells := l.cells.add ⟨some c, 0, false, false⟩ }

/-- The loans when the context `c` of a slot has been lent: there are two handles on the new cell,
that of the render and that of the tag. -/
def Loans.lentOut (slot c : Nat) (l : Loans α) : Loans α :=
  ((l.takenOut slot c).withHandle l.cells.size).withHandle l.cells.size

@[simp] theorem World.loans_changeTally (f : Tally → Tally) (w : World) :
    (w.changeTally f).loans = w.loans := by
  rw [changeTally]
  split <;> rfl

@[simp] theorem World.heap_changeTally (f : Tally → Tally) (w : World) :
    (w.changeTally f).heap = w.heap := by
  rw [changeTally]
  split <;> rfl

@[simp] theorem World.renderings_changeTally (f : Tally → Tally) (w : World) :
    (w.changeTally f).renderings = w.renderings := by
  rw [changeTally]
  split <;> rfl

/-- Counts and loans are apart. -/
theorem World.changeTally_loans (f : Tally → Tally) (w : World) (l : Loans Value) :
    World.changeTally f { w with loans := l } = { w.changeTally f with loans := l } := by
  rw [changeTally, changeTally]
  dsimp only
  split <;> rfl

/-- Nobody has a handle on a cell that is not there yet. -/
theorem Loans.Sound.live_new {l : Loans Value} (s : l.Sound) : l.live l.cells.size = ∅ := by
  refine Finset.eq_empty_of_forall_notMem fun i hi => ?_
  obtain ⟨n, e⟩ := mem_live.mp hi
  exact Nat.lt_irrefl _ (s.handle_lt i _ e)

/-- At the beginning the tag is at work with one handle. -/
theorem AtWork.lentOut {l : Loans Value} (s : l.Sound) (slot : Nat) {c : Nat}
    (hc : c < l.contexts.size) :
    AtWork l.handles.size l.cells.size c [l.handles.size + 1] (l.lentOut slot c) := by
  have hrow : (l.takenOut slot c).cells.get? l.cells.size = some ⟨some c, 0, false, false⟩ :=
    Table.get?_add_new ..
  have hrow₁ : ((l.takenOut slot c).withHandle l.cells.size).cells.get? l.cells.size
      = some ⟨some c, 1, false, false⟩ := Table.get?_modify_self _ hrow
  have hrow₂ : (l.lentOut slot c).cells.get? l.cells.size = some ⟨some c, 2, false, false⟩ :=
    Table.get?_modify_self _ hrow₁
  have hlive : (l.takenOut slot c).live l.cells.size = ∅ :=
    (Loans.live_congr rfl _).trans s.live_new
  have hcounted : (l.takenOut slot c).Counted l.cells.size := by
    rw [Loans.Counted, Loans.cellAt_eq hrow, hlive, Finset.card_empty]
    rfl
  refine ⟨?_, ⟨2, hrow₂⟩, (hcounted.withHandle hrow).withHandle hrow₁, ?_, fun h hmem => ?_⟩
  · have hnew : (l.handles.add ⟨l.cells.size, false, 1⟩).get? l.handles.size
        = some ⟨l.cells.size, false, 1⟩ := Table.get?_add_new ..
    exact (Table.get?_add_of_lt _ (Table.lt_size hnew)).trans hnew
  · show c < (l.contexts.add .empty).size
    rw [Table.size_add]
    exact Nat.lt_succ_of_lt hc
  · obtain rfl := List.mem_singleton.mp hmem
    have hsize : l.handles.size + 1 = (l.handles.add ⟨l.cells.size, false, 1⟩).size :=
      (Table.size_add ..).symm
    refine ⟨Nat.succ_ne_self _, ⟨l.cells.size, false, 1⟩, ?_, rfl⟩
    rw [hsize]
    exact Table.get?_add_new ..

/-! ### Out of the cell -/

/-- The loans when the context of a cell was taken out of it for good. -/
def Loans.detached (k : Nat) (l : Loans α) : Loans α :=
  changeCell k (fun r => { r with context := none, consumed := true }) l

/-- The loans when the context `c` is back in its slot, and its cell is consumed. -/
def Loans.backUnique (own k slot c : Nat) (l : Loans α) : Loans α :=
  changeSlot slot (fun _ => ⟨c, false⟩) ((l.detached k).withRelease own)

/-- The world after a copy that a context was made of. -/
def World.afterCopy (s : Copying) (w : World) : World :=
  { w with heap := s.heap, noted := w.noted ++ s.noted, records := w.records ++ s.records }

/-- The world after the context of a handle was copied, and the handle released. -/
def World.copied (h : Nat) (copy : Context Value) (s : Copying) (w : World) : World :=
  { w.afterCopy s with
    records := w.records ++ s.records ++ [.escaped (w.loans.cellOf h).references]
    loans := Loans.withRelease h { w.loans with contexts := w.loans.contexts.add copy } }

/-- The world after a lent context was copied, and the render's handle on its cell released. -/
def World.copiedBack (own k : Nat) (copy : Context Value) (s : Copying) (w : World) : World :=
  { w.afterCopy s with
    records := w.records ++ s.records ++ [.escaped (w.loans.live k).card]
    loans := Loans.withRelease own { w.loans with contexts := w.loans.contexts.add copy } }

/-- Whoever asks, the context is taken out of the cell when its lock is free. -/
theorem exec_reclaimUnique {w : World} {h c : Nat} (free : (w.loans.cellOf h).locked = false)
    (holds : (w.loans.cellOf h).context = some c) :
    (reclaimUnique h).exec w =
      (.ok c, { w with
        loans := (w.loans.detached (w.loans.handleAt h).cell).withRelease h }) := by
  have hdetach : (Loans.detach (w.loans.handleAt h).cell).exec w.loans =
      (.ok c, w.loans.detached (w.loans.handleAt h).cell) := by
    rw [Loans.cellOf] at holds
    rw [Loans.detach, Run.exec_get_bind, holds]
    rfl
  rw [reclaimUnique, Run.exec_get_bind, free, if_neg Bool.false_ne_true, onLoans, Run.exec_bind,
    Run.exec_within, hdetach]
  rfl

/-! ### Copies -/

section Copies

variable {h k c : Nat} {w : World} {clone : Clone} {copy : Context Value} {f : Stop} {s : Copying}

theorem exec_copyContext_ok
    (e : ((w.loans.contextAt c).copyWith clone recordSharing).exec ⟨w.heap, [], [], []⟩
      = (.ok copy, s)) :
    (copyContext clone c).exec w =
      (.ok w.loans.contexts.size,
        { w.afterCopy s with
          loans := { w.loans with contexts := w.loans.contexts.add copy } }) := by
  rw [copyContext, Run.exec_get_bind, Run.exec_bind, copying, Run.exec_within, e]
  rfl

theorem exec_copyContext_error
    (e : ((w.loans.contextAt c).copyWith clone recordSharing).exec ⟨w.heap, [], [], []⟩
      = (.error f, s)) :
    (copyContext clone c).exec w = (.error f, w.afterCopy s) := by
  rw [copyContext, Run.exec_get_bind, Run.exec_bind, copying, Run.exec_within, e]
  rfl

namespace Loans.Free

/-- The lock is taken before the copy is made. -/
theorem exec_acquire (free : w.loans.Free h k c) :
    (onLoans (Loans.acquire h .forever)).exec w =
      (.ok k, { w with loans := w.loans.lockedAt k }) := by
  obtain ⟨q, e, hl, -⟩ := free.row
  rw [onLoans, Run.exec_within,
    Loans.exec_acquire free.live free.cell (by rw [cellAt_eq e, hl]) .forever]

theorem exec_contextInside (free : w.loans.Free h k c) :
    (onLoans (Loans.contextInside k)).exec { w with loans := w.loans.lockedAt k } =
      (.ok c, { w with loans := w.loans.lockedAt k }) := by
  obtain ⟨q, e, -, hc⟩ := free.row
  have hrow : (w.loans.lockedAt k).cells.get? k = some { q with locked := true } :=
    Table.get?_modify_self _ e
  rw [onLoans, Run.exec_within, Loans.exec_contextInside (by rw [cellAt_eq hrow, hc])]

/-- The lock is given back as it was. -/
theorem unlockedAt (free : w.loans.Free h k c) : (w.loans.lockedAt k).unlockedAt k = w.loans := by
  obtain ⟨q, e, hl, -⟩ := free.row
  exact unlockedAt_lockedAt (by rw [cellAt_eq e, hl])

theorem exec_reclaimCopy_ok (free : w.loans.Free h k c)
    (e : ((w.loans.contextAt c).copyWith clone recordSharing).exec ⟨w.heap, [], [], []⟩
      = (.ok copy, s)) :
    (reclaimCopy h clone).exec w = (.ok w.loans.contexts.size, w.copied h copy s) := by
  have hcopy : (do let c ← onLoans (Loans.contextInside k); copyContext clone c).exec
      { w with loans := w.loans.lockedAt k } = _ :=
    (Run.exec_bind_ok free.exec_contextInside).trans (exec_copyContext_ok e)
  have hback : (onLoans (Loans.unlock k)).exec
      { w.afterCopy s with
        loans := { w.loans.lockedAt k with contexts := w.loans.contexts.add copy } } =
      (.ok (), { w.afterCopy s with
        loans := { (w.loans.lockedAt k).unlockedAt k with
          contexts := w.loans.contexts.add copy } }) := rfl
  rw [free.unlockedAt] at hback
  have hcount : (Loans.cellAt { w.loans with contexts := w.loans.contexts.add copy } k).references
      = (w.loans.cellOf h).references := by
    rw [cellOf, free.cell]
    rfl
  rw [reclaimCopy, Run.exec_bind_ok free.exec_acquire]
  rw [Run.exec_bind_ok ((Run.exec_ensuring_ok (by rw [hcopy]; exact hback)).trans
    (by rw [hcopy])), Run.exec_get_bind, writeRecord, Run.exec_modify_bind]
  rw [onLoans, Run.exec_bind, Run.exec_within, Loans.exec_release, hcount]
  rfl

theorem exec_reclaimCopy_error (free : w.loans.Free h k c)
    (e : ((w.loans.contextAt c).copyWith clone recordSharing).exec ⟨w.heap, [], [], []⟩
      = (.error f, s)) :
    (reclaimCopy h clone).exec w = (.error f, w.afterCopy s) := by
  have hcopy : (do let c ← onLoans (Loans.contextInside k); copyContext clone c).exec
      { w with loans := w.loans.lockedAt k } = _ :=
    (Run.exec_bind_ok free.exec_contextInside).trans (exec_copyContext_error e)
  have hback : (onLoans (Loans.unlock k)).exec
      { w.afterCopy s with loans := w.loans.lockedAt k } =
      (.ok (), { w.afterCopy s with loans := (w.loans.lockedAt k).unlockedAt k }) := rfl
  rw [free.unlockedAt] at hback
  rw [reclaimCopy, Run.exec_bind_ok free.exec_acquire]
  rw [Run.exec_bind_error ((Run.exec_ensuring_ok (by rw [hcopy]; exact hback)).trans
    (by rw [hcopy]))]
  rfl

end Loans.Free

/-- Through a handle that opens nothing there is nothing to copy. -/
theorem exec_reclaimCopy_refused (eo : w.loans.opens h = .error f) :
    (reclaimCopy h clone).exec w = (.error f, w) := by
  have hon : ∀ {β : Type} {act : Run (Loans Value) β} {l l' : Loans Value} {r : Except Stop β},
      act.exec l = (r, l') →
        (onLoans act).exec { w with loans := l } = (r, { w with loans := l' }) :=
    fun e => by rw [onLoans, Run.exec_within, e]
  rw [reclaimCopy]
  rcases Loans.exec_acquire_of_opens_error eo with hrefused | ⟨hlock, hnone, hback⟩
  · exact Run.exec_bind_error (hon hrefused)
  · have hcopy : (do let c ← onLoans (Loans.contextInside (w.loans.handleAt h).cell)
                     copyContext clone c).exec
        { w with loans := w.loans.lockedAt (w.loans.handleAt h).cell } = _ :=
      Run.exec_bind_error (hon hnone)
    have hunlock := hon (Loans.exec_unlock (w.loans.handleAt h).cell
      (w.loans.lockedAt (w.loans.handleAt h).cell))
    rw [hback] at hunlock
    rw [Run.exec_bind_ok (hon hlock)]
    rw [Run.exec_bind_error ((Run.exec_ensuring_ok (by rw [hcopy]; exact hunlock)).trans
      (by rw [hcopy]))]

end Copies

/-! ### How it ends -/

/-- How `reclaim` ends, and the world that it leaves. -/
inductive Reclaims (w : World) (h : Nat) (clone : Clone) :
    Except Stop (Nat × ReclaimPath) → World → Prop
  | held (one : (w.loans.cellOf h).references = 1) (lock : (w.loans.cellOf h).locked = true) :
      Reclaims w h clone (.error (.failed (.of lockedDefect))) w
  | gone (one : (w.loans.cellOf h).references = 1) (free : (w.loans.cellOf h).locked = false)
      (gone : (w.loans.cellOf h).context = none) :
      Reclaims w h clone (.error (.failed (.of Loans.alreadyDetached))) w
  | taken {c : Nat} (one : (w.loans.cellOf h).references = 1)
      (free : (w.loans.cellOf h).locked = false) (holds : (w.loans.cellOf h).context = some c) :
      Reclaims w h clone (.ok (c, .unique))
        { w.changeTally (·.record .unique) with
          loans := (w.loans.detached (w.loans.handleAt h).cell).withRelease h }
  | refused {f : Stop} (more : (w.loans.cellOf h).references ≠ 1)
      (eo : w.loans.opens h = .error f) :
      Reclaims w h clone (.error f) w
  | stopped {c : Nat} {f : Stop} {s : Copying} (more : (w.loans.cellOf h).references ≠ 1)
      (eo : w.loans.opens h = .ok c)
      (e : ((w.loans.contextAt c).copyWith clone recordSharing).exec ⟨w.heap, [], [], []⟩
        = (.error f, s)) :
      Reclaims w h clone (.error f) (w.afterCopy s)
  | copied {c : Nat} {copy : Context Value} {s : Copying}
      (more : (w.loans.cellOf h).references ≠ 1) (eo : w.loans.opens h = .ok c)
      (e : ((w.loans.contextAt c).copyWith clone recordSharing).exec ⟨w.heap, [], [], []⟩
        = (.ok copy, s)) :
      Reclaims w h clone (.ok (w.loans.contexts.size, .deepCopy))
        ((w.copied h copy s).changeTally (·.record .deepCopy))

/-- By whatever handle the context is asked for. -/
theorem reclaims (w : World) (h : Nat) (clone : Clone) :
    Reclaims w h clone ((reclaim h clone).exec w).1 ((reclaim h clone).exec w).2 := by
  rw [reclaim, Run.exec_get_bind]
  split
  · next one =>
    rcases hl : (w.loans.cellOf h).locked with - | -
    · rcases hc : (w.loans.cellOf h).context with - | c
      · have hgone : (reclaimUnique h).exec w =
            (.error (.failed (.of Loans.alreadyDetached)), w) := by
          rw [reclaimUnique, Run.exec_get_bind, hl, if_neg Bool.false_ne_true, onLoans,
            Run.exec_bind, Run.exec_within, Loans.detach, Run.exec_get_bind]
          rw [Loans.cellOf] at hc
          rw [hc]
          rfl
        rw [Run.exec_bind_error hgone]
        exact .gone one hl hc
      · rw [Run.exec_bind_ok (exec_reclaimUnique hl hc), countPath, Run.exec_modify_bind,
          Run.exec_pure, World.changeTally_loans]
        exact .taken one hl hc
    · have hheld : (reclaimUnique h).exec w = (.error (.failed (.of lockedDefect)), w) := by
        rw [reclaimUnique, Run.exec_get_bind, hl, if_pos rfl, Run.exec_fail]
      rw [Run.exec_bind_error hheld]
      exact .held one hl
  · next more =>
    rcases eo : w.loans.opens h with f | c
    · rw [Run.exec_bind_error (exec_reclaimCopy_refused eo)]
      exact .refused more eo
    · have hfree := Loans.free_of_opens eo
      rcases e : ((w.loans.contextAt c).copyWith clone recordSharing).exec ⟨w.heap, [], [], []⟩
        with ⟨f | copy, s⟩
      · rw [Run.exec_bind_error (hfree.exec_reclaimCopy_error e)]
        exact .stopped more eo e
      · rw [Run.exec_bind_ok (hfree.exec_reclaimCopy_ok e), countPath, Run.exec_modify_bind,
          Run.exec_pure]
        exact .copied more eo e

/-- A context that is not the very one is a copy. -/
theorem Reclaims.copy_of_deepCopy {w w' : World} {h n : Nat} {clone : Clone}
    (r : Reclaims w h clone (.ok (n, .deepCopy)) w') :
    n = w.loans.contexts.size ∧
      ∃ copy s, w' = (w.copied h copy s).changeTally (·.record .deepCopy) := by
  cases r with
  | @copied c copy s more eo e => exact ⟨rfl, copy, s, rfl⟩

/-- When nothing comes back, nothing was done but copies of values that nobody has. -/
theorem Reclaims.afterCopy_of_error {w w' : World} {h : Nat} {clone : Clone} {f : Stop}
    (r : Reclaims w h clone (.error f) w') : ∃ s, w' = w.afterCopy s := by
  have hself : w = w.afterCopy ⟨w.heap, [], [], []⟩ := by
    rw [World.afterCopy, List.append_nil, List.append_nil]
  cases r with
  | held one lock => exact ⟨_, hself⟩
  | gone one free gone => exact ⟨_, hself⟩
  | refused more eo => exact ⟨_, hself⟩
  | stopped more eo e => exact ⟨_, rfl⟩

/-- Then what is on loan is as it was. -/
theorem loans_of_reclaim_error {w w' : World} {h : Nat} {clone : Clone} {f : Stop}
    (e : (reclaim h clone).exec w = (.error f, w')) : w'.loans = w.loans := by
  have r := reclaims w h clone
  rw [e] at r
  obtain ⟨s, rfl⟩ := r.afterCopy_of_error
  rfl

/-! ### From a tag -/

namespace AtWork

variable {own k c : Nat} {mine : List Nat} {w : World} {slot : Nat} {clone : Clone}

theorem handleAt_own {l : Loans Value} (a : AtWork own k c mine l) :
    l.handleAt own = ⟨k, false, 1⟩ := Loans.handleAt_eq a.own_row

theorem mem_live {l : Loans Value} (a : AtWork own k c mine l) : own ∈ l.live k :=
  Loans.mem_live.mpr ⟨1, a.own_row⟩

/-- The cell of the render's handle, with the exact count. -/
theorem cellOf_own {l : Loans Value} (a : AtWork own k c mine l) :
    l.cellOf own = ⟨some c, (l.live k).card, false, false⟩ := by
  obtain ⟨n, e⟩ := a.cell_row
  have hcount := a.counted
  rw [Loans.Counted, Loans.cellAt_eq e] at hcount
  dsimp only at hcount
  rw [Loans.cellOf_eq a.own_row rfl e, hcount]

/-- The count is one just if nobody else has a live handle. -/
theorem references_eq_one {l : Loans Value} (a : AtWork own k c mine l) :
    (l.cellOf own).references = 1 ↔ l.live k = {own} := by
  rw [a.cellOf_own]
  constructor
  · intro h
    have hcard : (l.live k).card = 1 := Int.ofNat.inj h
    obtain ⟨i, hi⟩ := Finset.card_eq_one.mp hcard
    have hown := a.mem_live
    rw [hi] at hown ⊢
    rw [Finset.mem_singleton.mp hown]
  · intro h
    rw [h, Finset.card_singleton]
    rfl

/-- Nobody else has a handle: the very context comes back, and no value is cloned. -/
theorem exec_restore_unique (a : AtWork own k c mine w.loans) (h : w.loans.live k = {own})
    (slot : Nat) (clone : Clone) :
    (restore slot own clone).exec w =
      (.ok .unique,
        { w.changeTally (·.record .unique) with loans := w.loans.backUnique own k slot c }) := by
  have hreclaim : (reclaim own clone).exec w =
      (.ok (c, .unique),
        { w.changeTally (·.record .unique) with
          loans := (w.loans.detached k).withRelease own }) := by
    have hunique := exec_reclaimUnique (w := w) (h := own) (c := c) (by rw [a.cellOf_own])
      (by rw [a.cellOf_own])
    rw [a.handleAt_own] at hunique
    rw [reclaim, Run.exec_get_bind, if_pos (a.references_eq_one.mpr h),
      Run.exec_bind_ok hunique, countPath, Run.exec_modify_bind, Run.exec_pure,
      World.changeTally_loans]
  rw [restore, Run.exec_bind_ok (Run.exec_mending_ok hreclaim)]
  rfl

theorem copied_eq (a : AtWork own k c mine w.loans) (copy : Context Value) (s : Copying) :
    w.copied own copy s = w.copiedBack own k copy s := by
  rw [World.copied, a.cellOf_own]
  rfl

theorem free_own {l : Loans Value} (a : AtWork own k c mine l) : l.Free own k c := by
  obtain ⟨n, e⟩ := a.cell_row
  exact ⟨congrArg Handle.released a.handleAt_own, congrArg Handle.cell a.handleAt_own, _, e, rfl,
    rfl⟩

/-- Somebody else has a handle: the slot gets a copy, and the cell keeps the context. -/
theorem exec_restore_copied (a : AtWork own k c mine w.loans) (h : w.loans.live k ≠ {own})
    (slot : Nat) {copy : Context Value} {s : Copying}
    (e : ((w.loans.contextAt c).copyWith clone recordSharing).exec ⟨w.heap, [], [], []⟩
      = (.ok copy, s)) :
    (restore slot own clone).exec w =
      (.ok .deepCopy,
        { (w.copiedBack own k copy s).changeTally (·.record .deepCopy) with
          loans := Loans.changeSlot slot (fun _ => ⟨w.loans.contexts.size, false⟩)
            (w.copiedBack own k copy s).loans }) := by
  have hreclaim : (reclaim own clone).exec w =
      (.ok (w.loans.contexts.size, .deepCopy),
        (w.copiedBack own k copy s).changeTally (·.record .deepCopy)) := by
    rw [reclaim, Run.exec_get_bind, if_neg (mt a.references_eq_one.mp h),
      Run.exec_bind_ok (a.free_own.exec_reclaimCopy_ok e), a.copied_eq, countPath,
      Run.exec_modify_bind, Run.exec_pure]
  rw [restore, Run.exec_bind_ok (Run.exec_mending_ok hreclaim),
    ← World.loans_changeTally (·.record .deepCopy) (w.copiedBack own k copy s)]
  rfl

/-- Somebody else has a handle, and copying stops: the slot gets the shared context itself. -/
theorem exec_restore_stopped (a : AtWork own k c mine w.loans) (h : w.loans.live k ≠ {own})
    (slot : Nat) {f : Stop} {s : Copying}
    (e : ((w.loans.contextAt c).copyWith clone recordSharing).exec ⟨w.heap, [], [], []⟩
      = (.error f, s)) :
    (restore slot own clone).exec w =
      (.error f, { w.afterCopy s with
        loans := Loans.changeSlot slot (fun _ => ⟨c, false⟩) w.loans }) := by
  have hreclaim : (reclaim own clone).exec w = (.error f, w.afterCopy s) := by
    rw [reclaim, Run.exec_get_bind, if_neg (mt a.references_eq_one.mp h),
      Run.exec_bind_error (a.free_own.exec_reclaimCopy_error e)]
  rw [restore, Run.exec_bind_error (Run.exec_mending_error hreclaim ?_)]
  have hown : ((w.afterCopy s).loans.cellOf own).context = some c := congrArg _ a.cellOf_own
  rw [Run.exec_get_bind, hown]
  rfl

end AtWork

end Stencil
