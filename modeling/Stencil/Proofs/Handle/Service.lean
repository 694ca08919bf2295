/-
Stencil/Proofs/Handle/Service.lean

Live handles and their contexts.  A handle is *served* when its cell still has
the context, so that its accessors are answered by it and are never refused
because the handle is released or the cell consumed.

As long as no cell is detached by hand, there is one way only for a live handle
to lose its context: a handle that is already released is given to `reclaim`
while the count of its cell is one.  The count is then that of the other handle,
but `reclaim` looks at the count and not at whose it is (`Deed.Stray`).  So all
live handles are served throughout just if this never happens.
-/
import Stencil.Proofs.Handle.Count
import Stencil.Proofs.Render.Handover

namespace Stencil

variable {l l' : Loans Value} {w : World}

/-! ### Service -/

/-- The cell of a handle is not consumed, and has a context that answers each of its accessors; an
accessor can only have to wait for the lock. -/
def Loans.Serves (l : Loans Value) (h : Nat) : Prop :=
  ∃ r q c, l.handles.get? h = some r ∧ l.cells.get? r.cell = some q ∧ q.consumed = false ∧
    q.context = some c ∧
    ∀ x : Query, ((x.access h).exec l).1 =
      if q.locked then .error .unfinished else (x.answer (l.contextAt c)).mapError .failed

/-- Every handle that was never released is served. -/
def Loans.Served (l : Loans Value) : Prop :=
  ∀ h r, l.handles.get? h = some r → r.released = false → l.Serves h

/-- A cell that is consumed has no live handles. -/
def Loans.Spent (l : Loans Value) : Prop :=
  ∀ k q, l.cells.get? k = some q → q.consumed = true → l.live k = ∅

theorem Loans.Balanced.served_iff (b : l.Balanced) : l.Served ↔ l.Spent := by
  constructor
  · intro s k q e hq
    refine Finset.eq_empty_of_forall_notMem fun h hmem => ?_
    obtain ⟨n, eh⟩ := Loans.mem_live.mp hmem
    obtain ⟨r, p, c, er, ep, hp, -⟩ := s h _ eh rfl
    obtain rfl := Option.some.inj (eh.symm.trans er)
    obtain rfl := Option.some.inj (e.symm.trans ep)
    cases hq.symm.trans hp
  · intro s h r e hr
    obtain ⟨q, eq, hpos⟩ := b.pos e hr
    have hmem : h ∈ l.live r.cell := by
      obtain ⟨cell, released, n⟩ := r
      obtain rfl : released = false := hr
      exact Loans.mem_live.mpr ⟨n, e⟩
    have hq : q.consumed = false := by
      rcases hq : q.consumed with - | -
      · rfl
      · rw [s r.cell q eq hq] at hmem
        cases hmem
    obtain ⟨c, hc⟩ := Option.isSome_iff_exists.mp ((b.holds r.cell q eq).mpr ⟨hpos, hq⟩)
    refine ⟨r, q, c, e, eq, hq, hc, fun x => ?_⟩
    have hlive : ¬ r.released = true := by
      rw [hr]
      exact Bool.false_ne_true
    rw [Query.exec_access, Loans.exec_locking_result e eq, if_neg hlive, hc]
    dsimp only
    rw [Query.exec_inside]
    rfl

/-! ### Stray requests -/

/-- A released handle is given to `reclaim` while its cell counts one handle, which must be another,
and the lock is free. -/
def Deed.Stray (w : World) (d : Deed) : Prop :=
  ∃ h clone r q, d = .reclaim h clone ∧ w.loans.handles.get? h = some r ∧ r.released = true ∧
    w.loans.cells.get? r.cell = some q ∧ q.references = 1 ∧ q.locked = false

/-- All but detaching a cell by hand. -/
def Deed.Public : Deed → Prop
  | detach _ => False
  | _ => True

/-- The context of the only handle that counts is taken from it. -/
theorem exec_reclaim_unique {h c : Nat} {r : Handle} {q : Cell} (clone : Clone)
    (e : w.loans.handles.get? h = some r) (ek : w.loans.cells.get? r.cell = some q)
    (one : q.references = 1) (free : q.locked = false) (holds : q.context = some c) :
    ((reclaim h clone).exec w).1 = .ok (c, .unique) ∧
      ((reclaim h clone).exec w).2.loans = (w.loans.detached r.cell).withRelease h := by
  have hq : w.loans.cellOf h = q := Loans.cellOf_eq e rfl ek
  have hunique := exec_reclaimUnique (by rw [hq, free]) (by rw [hq, holds])
  rw [Loans.handleAt_eq e] at hunique
  rw [reclaim, Run.exec_get_bind, hq, if_pos one, Run.exec_bind_ok hunique, countPath,
    Run.exec_modify_bind]
  exact ⟨rfl, World.loans_changeTally ..⟩

/-- The context itself comes back only when the count is one. -/
theorem references_of_unique {h c : Nat} {r : Handle} {q : Cell} {clone : Clone} {w' : World}
    (e : w.loans.handles.get? h = some r) (ek : w.loans.cells.get? r.cell = some q)
    (eu : (reclaim h clone).exec w = (.ok (c, .unique), w')) : q.references = 1 := by
  have r := reclaims w h clone
  rw [eu] at r
  cases r with
  | taken one free holds =>
    rw [Loans.cellOf_eq e rfl ek] at one
    exact one

namespace Deed

variable {d : Deed}

/-- What a deed does that is not stray leaves consumed cells without live handles. -/
theorem Effect.spent (e : Effect w.loans d l') (b : w.loans.Balanced) (pub : d.Public)
    (s : w.loans.Spent) (stray : ¬ d.Stray w) : l'.Spent := by
  -- a handle that is released leaves an empty set empty
  have hleaves : ∀ {m : Loans Value}, m.Spent → ∀ h, (m.withRelease h).Spent := by
    intro m hm h k q eq hq
    rw [Loans.live_withRelease]
    rcases er : m.handles.get? h with - | r
    · rw [Loans.withRelease_of_none er] at eq
      rw [hm k q eq hq, Finset.erase_empty]
    · rw [Loans.cells_withRelease er] at eq
      split at eq
      · rw [hm k q eq hq, Finset.erase_empty]
      · rw [Table.get?_modify] at eq
        split at eq
        · obtain ⟨q₀, e₀, rfl⟩ := Option.map_eq_some_iff.mp eq
          rw [hm k q₀ e₀ hq, Finset.erase_empty]
        · rw [hm k q eq hq, Finset.erase_empty]
  have hquiet : ∀ {m : Loans Value}, Quiet w.loans m → m.Spent := by
    intro m q k p ep hp
    obtain ⟨x, e'⟩ := q.symm.cell_row ep
    rw [q.live, s k _ e' hp]
  cases e with
  | rests q => exact hquiet q
  | wraps c =>
    intro k q eq hq
    have eq' : ((w.loans.cells.add _).modify w.loans.cells.size _).get? k = some q := eq
    rw [Table.get?_modify, Table.get?_add] at eq'
    split at eq'
    · next same =>
      rw [if_pos same.symm] at eq'
      obtain rfl := Option.some.inj eq'
      cases hq
    · next hne =>
      rw [if_neg (Ne.symm hne)] at eq'
      rw [Loans.wrapped, Loans.live_withHandle_of_ne hne]
      exact s k q eq' hq
  | @joins h r eh live =>
    intro k q eq hq
    have eq' : (w.loans.cells.modify r.cell _).get? k = some q := eq
    rw [Table.get?_modify] at eq'
    split at eq'
    · next same =>
      -- the handle that is duplicated is live itself
      obtain ⟨q₀, e₀, rfl⟩ := Option.map_eq_some_iff.mp eq'
      have hempty := s k q₀ e₀ hq
      have hmem : h ∈ w.loans.live k := by
        obtain ⟨cell, released, n⟩ := r
        obtain rfl : released = false := live
        exact Loans.mem_live.mpr ⟨n, same ▸ eh⟩
      rw [hempty] at hmem
      cases hmem
    · next hne =>
      rw [Loans.live_withHandle_of_ne hne]
      exact s k q eq' hq
  | leaves q h => exact hleaves (hquiet q) h
  | detaches => exact pub.elim
  | @takes h c r q clone eh ek one free holds =>
    rcases hr : r.released with - | -
    · -- the handle itself is the one that counts, and it goes
      intro k p ep hp
      have hlive : (w.loans.detached r.cell).live k = w.loans.live k := Loans.live_congr rfl k
      have hdetached : (w.loans.detached r.cell).handles.get? h = some r := eh
      rw [Loans.live_withRelease, hlive]
      by_cases hk : r.cell = k
      · subst hk
        have hmem : h ∈ w.loans.live r.cell := by
          obtain ⟨cell, released, n⟩ := r
          obtain rfl : released = false := hr
          exact Loans.mem_live.mpr ⟨n, eh⟩
        have hcard : (w.loans.live r.cell).card = 1 := by
          have hcount := b.counted _ q ek
          omega
        obtain ⟨i, hi⟩ := Finset.card_eq_one.mp hcard
        rw [hi, Finset.mem_singleton] at hmem
        rw [hi, ← hmem, Finset.erase_singleton]
      · rw [Loans.cells_withRelease hdetached, hr, if_neg Bool.false_ne_true,
          Table.get?_modify_of_ne _ _ hk] at ep
        have ep' : w.loans.cells.get? k = some p := (Table.get?_modify_of_ne _ _ hk).symm.trans ep
        rw [s k p ep' hp, Finset.erase_empty]
    · exact absurd ⟨h, clone, r, q, rfl, eh, hr, ek, one, free⟩ stray

/-- A stray request consumes the cell of a live handle. -/
theorem Stray.not_spent (b : w.loans.Balanced) (s : w.loans.Spent) (stray : d.Stray w) :
    ¬ (d.after w).loans.Spent := by
  obtain ⟨h, clone, r, q, rfl, e, hr, ek, one, free⟩ := stray
  have hcount := b.counted _ q ek
  have hcard : (w.loans.live r.cell).card = 1 := by omega
  obtain ⟨i, hi⟩ := Finset.card_eq_one.mp hcard
  have hq : q.consumed = false := by
    rcases hq : q.consumed with - | -
    · rfl
    · rw [s _ q ek hq, Finset.card_empty] at hcard
      cases hcard
  obtain ⟨c, hc⟩ := Option.isSome_iff_exists.mp
    ((b.holds _ q ek).mpr ⟨by omega, hq⟩)
  obtain ⟨-, hloans⟩ := exec_reclaim_unique clone e ek one free hc
  intro hspent
  have hafter : ((Deed.reclaim h clone).after w).loans = w.loans.detached r.cell := by
    have hdetached : (w.loans.detached r.cell).handles.get? h = some r := e
    rw [after, World.using_of_row e, hloans, Loans.withRelease_eq_self hdetached hr]
  rw [hafter] at hspent
  have hrow : (w.loans.detached r.cell).cells.get? r.cell
      = some { q with context := none, consumed := true } := Table.get?_modify_self _ ek
  have hempty := hspent r.cell _ hrow rfl
  have hlive : (w.loans.detached r.cell).live r.cell = w.loans.live r.cell := Loans.live_congr rfl _
  rw [hlive, hi] at hempty
  exact Finset.singleton_ne_empty i hempty

theorem spent_after_iff (b : w.loans.Balanced) (pub : d.Public) (s : w.loans.Spent) :
    (d.after w).loans.Spent ↔ ¬ d.Stray w :=
  ⟨fun h stray => stray.not_spent b s h, fun h => (d.effect b.placed).spent b pub s h⟩

/-- Induction on the deeds. -/
theorem spent_afterAll {ds : List Deed} (pub : ∀ d ∈ ds, d.Public) (b : w.loans.Balanced)
    (s : w.loans.Spent)
    (stray : ∀ before d rest, ds = before ++ d :: rest → ¬ d.Stray (afterAll before w)) :
    (afterAll ds w).loans.Spent := by
  induction ds generalizing w with
  | nil => exact s
  | cons d ds ih =>
    have hd : (d.after w).loans.Spent :=
      (spent_after_iff b (pub d List.mem_cons_self) s).mpr (stray [] d ds rfl)
    refine ih (fun x hx => pub x (List.mem_cons_of_mem d hx)) (d.balanced_after b) hd ?_
    intro before x rest e
    exact stray (d :: before) x rest (congrArg (d :: ·) e)

/-- In a sequence of public deeds every live handle is served throughout just if no stray request is
among them.  Where the context itself comes back, the handle passed in holds the single reference
that remains just if it is not released. -/
theorem served_iff_no_stray {ds : List Deed} (pub : ∀ d ∈ ds, d.Public) (w : World) :
    ((∀ before rest, ds = before ++ rest → (afterAll before w.unlent).loans.Served) ↔
      ∀ before d rest, ds = before ++ d :: rest → ¬ d.Stray (afterAll before w.unlent)) ∧
    ∀ h r clone c w', let v := afterAll ds w.unlent
      v.loans.handles.get? h = some r →
      (Stencil.reclaim h clone).exec v = (.ok (c, .unique), w') →
        (v.loans.live r.cell = {h} ↔ r.released = false) := by
  have b : ∀ es, (afterAll es w.unlent).loans.Balanced := fun es =>
    balanced_afterAll es w.balanced_unlent
  refine ⟨⟨fun served before d rest e stray => ?_, fun stray before rest e => ?_⟩, ?_⟩
  · have hbefore := (b before).served_iff.mp (served before (d :: rest) e)
    have hafter := (b (before ++ [d])).served_iff.mp (served (before ++ [d]) rest (by simp [e]))
    rw [afterAll_append] at hafter
    exact stray.not_spent (b before) hbefore hafter
  · refine (b before).served_iff.mpr (spent_afterAll (fun d hd => pub d ?_) w.balanced_unlent ?_ ?_)
    · rw [e]
      exact List.mem_append_left rest hd
    · intro k q eq
      cases eq
    · intro before' d rest' e'
      exact stray before' d (rest' ++ rest) (by rw [e, e']; simp)
  · intro h r clone c w' v e eu
    obtain ⟨q, ek⟩ := (b ds).placed h r e
    have one := references_of_unique e ek eu
    have hcount : q.references = (v.loans.live r.cell).card := (b ds).counted _ q ek
    have hcard : (v.loans.live r.cell).card = 1 := by omega
    obtain ⟨i, hi⟩ := Finset.card_eq_one.mp hcard
    obtain ⟨cell, released, n⟩ := r
    constructor
    · intro hlive
      have hmem : h ∈ v.loans.live cell := by
        rw [hlive]
        exact Finset.mem_singleton_self h
      obtain ⟨m, em⟩ := Loans.mem_live.mp hmem
      obtain hrow := Option.some.inj (e.symm.trans em)
      exact congrArg Handle.released hrow
    · rintro rfl
      have hmem : h ∈ v.loans.live cell := Loans.mem_live.mpr ⟨n, e⟩
      rw [hi, Finset.mem_singleton] at hmem
      rw [hi, hmem]

/-- A released handle is given to `reclaim` while one other is live: the context is taken from that
one, which was never released. -/
theorem served_iff_no_stray_taken_away :
    let ds : List Deed := [.wrap 0, .duplicate 0, .release 0, .reclaim 0 Copying.deepCopy]
    let w := World.ofContext (.ofBase (.ofNamed [("x", .int 1)]))
    (∀ d ∈ ds, d.Public) ∧
      (¬ ∀ before rest, ds = before ++ rest → (afterAll before w.unlent).loans.Served) ∧
      (afterAll ds w.unlent).loans.handles.get? 1 = some ⟨0, false, 1⟩ ∧
      ((Loans.lookup 1 "x").exec (afterAll ds w.unlent).loans).1
        = .error (.failed (.of Loans.cellConsumed)) := by
  intro ds w
  have pub : ∀ d ∈ ds, d.Public := by
    simp [ds, Deed.Public]
  have hreleased : (afterAll [.wrap 0, .duplicate 0, .release 0] w.unlent).loans.handles.get? 0
      = some ⟨0, true, 1⟩ := by decide +kernel
  have hcell : (afterAll [.wrap 0, .duplicate 0, .release 0] w.unlent).loans.cells.get? 0
      = some ⟨some 0, 1, false, false⟩ := by decide +kernel
  have hstray : (Deed.reclaim 0 Copying.deepCopy).Stray
      (afterAll [.wrap 0, .duplicate 0, .release 0] w.unlent) :=
    ⟨0, _, _, _, rfl, hreleased, rfl, hcell, rfl, rfl⟩
  have hlive : (afterAll ds w.unlent).loans.handles.get? 1 = some ⟨0, false, 1⟩ := by
    decide +kernel
  have hcalled : ((Loans.lookup 1 "x").exec (afterAll ds w.unlent).loans).1
      = .error (.failed (.of Loans.cellConsumed)) := by decide +kernel
  have h := served_iff_no_stray pub w
  refine ⟨pub, fun served => ?_, hlive, hcalled⟩
  exact h.1.mp served [.wrap 0, .duplicate 0, .release 0] _ [] rfl hstray

end Deed

end Stencil
