/-
Stencil/Proofs/Loan/Locking.lean

Work under the lock of a cell.  Taking a free lock and giving it back leaves the
cell as it was, so work that touches nothing but the context does under the
lock what it does by itself.  A released handle is refused and changes nothing.
-/
import Stencil.Proofs.Loan.Counting
import Stencil.Proofs.Run

namespace Stencil

namespace Loans

variable {α β : Type}

/-! ### Changes -/

@[simp] theorem contextAt_changeCell (k c : Nat) (f : Cell → Cell) (l : Loans α) :
    (changeCell k f l).contextAt c = l.contextAt c := rfl

/-- A change of a context that is as good as none. -/
theorem changeContext_eq_self {c : Nat} {f : Context α → Context α} {l : Loans α}
    (h : ∀ x, f x = x) : changeContext c f l = l := by
  rw [changeContext, Table.modify_eq_self fun x _ => h x]

theorem changeContext_changeContext (c : Nat) (f g : Context α → Context α) (l : Loans α) :
    changeContext c g (changeContext c f l) = changeContext c (fun x => g (f x)) l := by
  simp only [changeContext, Table.modify_modify]

theorem contextAt_changeContext {c : Nat} {l : Loans α} (h : c < l.contexts.size)
    (f : Context α → Context α) : (changeContext c f l).contextAt c = f (l.contextAt c) := by
  obtain ⟨x, e⟩ := Table.exists_get? h
  rw [contextAt_eq e]
  exact contextAt_eq (Table.get?_modify_self f e)

/-! ### The lock -/

/-- The loans while the lock of a cell is held. -/
abbrev lockedAt (k : Nat) (l : Loans α) : Loans α := changeCell k ({ · with locked := true }) l

/-- The loans after the lock of a cell is given back. -/
abbrev unlockedAt (k : Nat) (l : Loans α) : Loans α := changeCell k ({ · with locked := false }) l

/-- Taking a lock leaves the context in the cell, or its absence. -/
theorem context_lockedAt (k : Nat) (l : Loans α) :
    ((l.lockedAt k).cellAt k).context = (l.cellAt k).context := by
  rcases e : l.cells.get? k with - | q
  · have hnone : (l.lockedAt k).cells.get? k = none := by
      rw [lockedAt, changeCell, Table.get?_modify, e, Option.map_none, ite_self]
    rw [cellAt, cellAt, hnone, e]
  · rw [cellAt_eq e, cellAt_eq (Table.get?_modify_self _ e)]

theorem exec_requireLive {l : Loans α} {h : Nat} (hr : (l.handleAt h).released = false) :
    (requireLive h).exec l = (.ok (), l) := by
  simp [requireLive, hr]

theorem exec_requireLive_released {l : Loans α} {h : Nat} (hr : (l.handleAt h).released = true) :
    (requireLive h).exec l = (.error (.failed (.of handleReleased)), l) := by
  simp [requireLive, hr]

theorem exec_acquire {l : Loans α} {h k : Nat} (hr : (l.handleAt h).released = false)
    (hk : (l.handleAt h).cell = k) (hfree : (l.cellAt k).locked = false) (patience : Patience) :
    (acquire h patience).exec l = (.ok k, l.lockedAt k) := by
  unfold acquire
  rw [Run.exec_bind_ok (exec_requireLive hr), Run.exec_get_bind]
  dsimp only
  rw [hk, hfree, if_neg Bool.false_ne_true, Run.exec_set_bind, Run.exec_pure]

/-- Waiting for a lock ends with the lock, or without anything done. -/
theorem exec_acquire_cases (h : Nat) (l : Loans α) :
    ((l.handleAt h).released = false ∧ (acquire h .forever).exec l =
        (.ok (l.handleAt h).cell, l.lockedAt (l.handleAt h).cell)) ∨
      ∃ e, (acquire h .forever).exec l = (.error e, l) := by
  rcases hr : (l.handleAt h).released with - | -
  · rcases hl : (l.cellAt (l.handleAt h).cell).locked with - | -
    · exact .inl ⟨rfl, exec_acquire hr rfl hl .forever⟩
    · refine .inr ⟨.unfinished, ?_⟩
      rw [acquire, Run.exec_bind_ok (exec_requireLive hr), Run.exec_get_bind]
      dsimp only
      rw [hl]
      rfl
  · refine .inr ⟨.failed (.of handleReleased), ?_⟩
    rw [acquire, Run.exec_bind_error (exec_requireLive_released hr)]

/-- In a cell there is a context or none. -/
theorem exec_contextInside_cases (k : Nat) (l : Loans α) :
    (∃ c, (l.cellAt k).context = some c ∧ (contextInside k).exec l = (.ok c, l)) ∨
      ∃ e, (contextInside k).exec l = (.error e, l) := by
  rcases e : (l.cellAt k).context with - | c
  · refine .inr ⟨.failed (.of cellConsumed), ?_⟩
    rw [contextInside, Run.exec_get_bind, e]
    rfl
  · refine .inl ⟨c, rfl, ?_⟩
    rw [contextInside, Run.exec_get_bind, e]
    rfl

theorem exec_contextInside {l : Loans α} {k c : Nat} (hc : (l.cellAt k).context = some c) :
    (contextInside k).exec l = (.ok c, l) := by
  simp [contextInside, hc]

theorem exec_unlock (k : Nat) (l : Loans α) : (unlock k).exec l = (.ok ⟨⟩, l.unlockedAt k) := rfl

/-- Taking a free lock and giving it back changes nothing. -/
theorem unlockedAt_lockedAt {l : Loans α} {k : Nat} (hfree : (l.cellAt k).locked = false) :
    (l.lockedAt k).unlockedAt k = l := by
  have hsame : ∀ q, l.cells.get? k = some q → ({ q with locked := false } : Cell) = q := by
    intro q e
    rw [cellAt_eq e] at hfree
    obtain ⟨_, _, _, _⟩ := q
    cases hfree
    rfl
  show Loans.mk l.contexts l.slots ((l.cells.modify k _).modify k _) l.handles = l
  rw [Table.modify_modify, Table.modify_eq_self hsame]

/-- The cell of a live handle is there, holds a context, and its lock is free. -/
structure Free (l : Loans α) (h k c : Nat) : Prop where
  live : (l.handleAt h).released = false
  cell : (l.handleAt h).cell = k
  row : ∃ q, l.cells.get? k = some q ∧ q.locked = false ∧ q.context = some c

theorem free_of_mem_live {l : Loans α} {h k c : Nat} {q : Cell} (live : h ∈ l.live k)
    (e : l.cells.get? k = some q) (free : q.locked = false) (holds : q.context = some c) :
    l.Free h k c := by
  obtain ⟨n, eh⟩ := mem_live.mp live
  exact ⟨by rw [handleAt_eq eh], by rw [handleAt_eq eh], q, e, free, holds⟩

/-- Work that touches nothing but the context does the same under the lock. -/
theorem exec_locking {l : Loans α} {h k c : Nat} (hf : l.Free h k c) {work : Nat → Run (Loans α) β}
    (r : Context α → Except Stop β) (f : Context α → Context α → Context α)
    (hwork : ∀ m : Loans α, m.contexts = l.contexts →
      (work c).exec m = (r (m.contextAt c), changeContext c (f (m.contextAt c)) m)) :
    (locking h work).exec l = (r (l.contextAt c), changeContext c (f (l.contextAt c)) l) := by
  obtain ⟨q, e, hfree, hc⟩ := hf.row
  have hlocked : (l.lockedAt k).cellAt k = { q with locked := true } :=
    cellAt_eq (Table.get?_modify_self _ e)
  have hinside : ((do let c ← contextInside k; work c) : Run (Loans α) β).exec (l.lockedAt k)
      = (r (l.contextAt c), changeContext c (f (l.contextAt c)) (l.lockedAt k)) := by
    rw [Run.exec_bind_ok (exec_contextInside (by rw [hlocked]; exact hc)), hwork (l.lockedAt k) rfl]
    rfl
  have hcell : (l.lockedAt k).unlockedAt k = l :=
    unlockedAt_lockedAt (by rw [cellAt_eq e]; exact hfree)
  have hback : (changeContext c (f (l.contextAt c)) (l.lockedAt k)).unlockedAt k
      = changeContext c (f (l.contextAt c)) l :=
    calc (changeContext c (f (l.contextAt c)) (l.lockedAt k)).unlockedAt k
        = changeContext c (f (l.contextAt c)) ((l.lockedAt k).unlockedAt k) := rfl
      _ = changeContext c (f (l.contextAt c)) l := by rw [hcell]
  rw [locking, Run.exec_bind_ok
    (exec_acquire hf.live hf.cell (by rw [cellAt_eq e]; exact hfree) .forever)]
  rw [Run.exec_ensuring_ok (exec_unlock k _), hinside]
  exact congrArg (Prod.mk _) hback

/-- What is made of the result of work may be made under the lock. -/
theorem exec_locking_bind {γ : Type} (h : Nat) (work : Nat → Run (Loans α) β) (f : β → γ)
    (l : Loans α) :
    (locking h work >>= fun b => pure (f b)).exec l =
      (locking h fun c => work c >>= fun b => pure (f b)).exec l := by
  rw [locking, locking, bind_assoc, Run.exec_bind, Run.exec_bind]
  rcases (acquire h .forever).exec l with ⟨e | k, m⟩
  · rfl
  · dsimp only
    rw [Run.exec_bind, Run.exec_ensuring, Run.exec_ensuring, exec_unlock, exec_unlock,
      Run.exec_bind (contextInside k), Run.exec_bind (contextInside k)]
    rcases (contextInside k).exec m with ⟨e | c, m'⟩
    · rfl
    · dsimp only
      rw [Run.exec_bind (work c)]
      rcases (work c).exec m' with ⟨e | b, m''⟩ <;> rfl

/-- A released handle is refused. -/
theorem exec_locking_released {l : Loans α} {h : Nat} (hr : (l.handleAt h).released = true)
    (work : Nat → Run (Loans α) β) :
    (locking h work).exec l = (.error (.failed (.of handleReleased)), l) := by
  have hrefused : (acquire h .forever).exec l = (.error (.failed (.of handleReleased)), l) := by
    unfold acquire
    rw [Run.exec_bind_error (exec_requireLive_released hr)]
  rw [locking, Run.exec_bind_error hrefused]

/-- The context that an access through a handle works on, or why there is none. -/
def opens (l : Loans α) (h : Nat) : Except Stop Nat :=
  if (l.handleAt h).released then .error (.failed (.of handleReleased))
  else if (l.cellOf h).locked then .error .unfinished
  else
    match (l.cellOf h).context with
    | none => .error (.failed (.of cellConsumed))
    | some c => .ok c

theorem opens_eq_ok_iff {l : Loans α} {h c : Nat} :
    l.opens h = .ok c ↔
      (l.handleAt h).released = false ∧ (l.cellOf h).locked = false ∧
        (l.cellOf h).context = some c := by
  rw [opens]
  rcases (l.handleAt h).released <;> rcases (l.cellOf h).locked <;>
    rcases (l.cellOf h).context with - | d <;> simp

theorem opens_of_released {l : Loans α} {h : Nat} (hr : (l.handleAt h).released = true) :
    l.opens h = .error (.failed (.of handleReleased)) := by
  rw [opens, if_pos hr]

theorem opens_of_gone {l : Loans α} {h : Nat} (live : (l.handleAt h).released = false)
    (free : (l.cellOf h).locked = false) (gone : (l.cellOf h).context = none) :
    l.opens h = .error (.failed (.of cellConsumed)) := by
  rw [opens, live, free, gone]
  rfl

/-- What holds a context is there. -/
theorem free_of_opens {l : Loans α} {h c : Nat} (e : l.opens h = .ok c) :
    l.Free h (l.handleAt h).cell c := by
  obtain ⟨hr, hl, hc⟩ := opens_eq_ok_iff.mp e
  rcases eq : l.cells.get? (l.handleAt h).cell with - | q
  · rw [cellOf, cellAt, eq] at hc
    cases hc
  · rw [cellOf, cellAt_eq eq] at hl hc
    exact ⟨hr, rfl, q, eq, hl, hc⟩

theorem Free.opens {l : Loans α} {h k c : Nat} (f : l.Free h k c) : l.opens h = .ok c := by
  obtain ⟨q, e, hl, hc⟩ := f.row
  have hq : l.cellOf h = q := by rw [cellOf, f.cell, cellAt_eq e]
  exact opens_eq_ok_iff.mpr ⟨f.live, by rw [hq, hl], by rw [hq, hc]⟩

/-- A handle that opens nothing does not get the lock, or finds no context while it has it. -/
theorem exec_acquire_of_opens_error {l : Loans α} {h : Nat} {e : Stop} (eo : l.opens h = .error e) :
    (acquire h .forever).exec l = (.error e, l) ∨
      (acquire h .forever).exec l = (.ok (l.handleAt h).cell, l.lockedAt (l.handleAt h).cell) ∧
      (contextInside (l.handleAt h).cell).exec (l.lockedAt (l.handleAt h).cell) =
        (.error e, l.lockedAt (l.handleAt h).cell) ∧
      (l.lockedAt (l.handleAt h).cell).unlockedAt (l.handleAt h).cell = l := by
  rw [opens] at eo
  split at eo
  · next hr =>
    obtain rfl := Except.error.inj eo
    rw [acquire, Run.exec_bind_error (exec_requireLive_released hr)]
    exact .inl rfl
  next hr =>
  have hlive : (l.handleAt h).released = false := Bool.eq_false_of_not_eq_true hr
  split at eo
  · next hl =>
    obtain rfl := Except.error.inj eo
    rw [cellOf] at hl
    rw [acquire, Run.exec_bind_ok (exec_requireLive hlive), Run.exec_get_bind]
    dsimp only
    rw [if_pos hl]
    exact .inl rfl
  next hl =>
  have hfree : (l.cellOf h).locked = false := Bool.eq_false_of_not_eq_true hl
  split at eo
  · next hc =>
    obtain rfl := Except.error.inj eo
    refine .inr ⟨exec_acquire hlive rfl hfree .forever, ?_, unlockedAt_lockedAt hfree⟩
    rw [cellOf] at hc
    rw [contextInside, Run.exec_get_bind, context_lockedAt, hc]
    rfl
  · cases eo

/-- Work that touches nothing but the context does the same under the lock, or is refused and does
nothing. -/
theorem exec_locking_opens {l : Loans α} (h : Nat) {work : Nat → Run (Loans α) β}
    (r : Context α → Except Stop β) (f : Context α → Context α → Context α)
    (hwork : ∀ c, l.opens h = .ok c → ∀ m : Loans α, m.contexts = l.contexts →
      (work c).exec m = (r (m.contextAt c), changeContext c (f (m.contextAt c)) m)) :
    (locking h work).exec l =
      match l.opens h with
      | .error e => (.error e, l)
      | .ok c => (r (l.contextAt c), changeContext c (f (l.contextAt c)) l) := by
  rcases eo : l.opens h with e | c
  · rw [locking]
    rcases exec_acquire_of_opens_error eo with hrefused | ⟨hlock, hnone, hback⟩
    · exact Run.exec_bind_error hrefused
    · rw [Run.exec_bind_ok hlock, Run.exec_ensuring_ok (exec_unlock _ _),
        Run.exec_bind_error hnone, hback]
  · exact exec_locking (free_of_opens eo) r f (hwork c eo)

/-- How work under the lock of a handle ends. -/
theorem exec_locking_result {l : Loans α} {h : Nat} {q : Handle} {p : Cell}
    (e : l.handles.get? h = some q) (ek : l.cells.get? q.cell = some p)
    (work : Nat → Run (Loans α) β) :
    ((locking h work).exec l).1 =
      if q.released then .error (.failed (.of handleReleased))
      else if p.locked then .error .unfinished
      else
        match p.context with
        | none => .error (.failed (.of cellConsumed))
        | some c => ((work c).exec (l.lockedAt q.cell)).1 := by
  have hq : l.handleAt h = q := handleAt_eq e
  have hp : l.cellAt q.cell = p := cellAt_eq ek
  rcases hr : q.released with - | -
  · have hlive : (l.handleAt h).released = false := hq.symm ▸ hr
    rcases hl : p.locked with - | -
    · have hfree : (l.cellAt q.cell).locked = false := hp.symm ▸ hl
      have hlocked : (l.lockedAt q.cell).cellAt q.cell = { p with locked := true } :=
        cellAt_eq (Table.get?_modify_self _ ek)
      rw [locking, Run.exec_bind_ok (exec_acquire hlive (congrArg Handle.cell hq) hfree .forever),
        Run.exec_ensuring_ok (exec_unlock q.cell _), contextInside, Run.exec_bind,
        Run.exec_get_bind, hlocked]
      cases p.context <;> rfl
    · have hheld : (l.cellAt q.cell).locked = true := hp.symm ▸ hl
      rw [locking, acquire, bind_assoc, Run.exec_bind_ok (exec_requireLive hlive), bind_assoc,
        Run.exec_get_bind, hq]
      dsimp only
      rw [hheld]
      rfl
  · have hgone : (l.handleAt h).released = true := hq.symm ▸ hr
    rw [exec_locking_released hgone]
    rfl

end Loans

end Stencil
