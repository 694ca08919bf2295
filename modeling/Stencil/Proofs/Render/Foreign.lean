/-
Stencil/Proofs/Render/Foreign.lean

What is asked of foreign code.  Tags and filters may do much, but a *civil* one
leaves slots alone, moves no handle to another cell, puts no other context into
a cell, and gives no loop another list.  A tag stands *aside* from a kept context
when it does nothing to it, to its cell and the handles on it, and changes no
value in place.

Every tag that works by its own handles only is civil, and aside from every
context that it has no handle on (`Conduct.run_civil`, `Conduct.run_aside`).
-/
import Stencil.Proofs.Render.Conduct
import Stencil.Proofs.Value.Drift
import Stencil.Render.Expression

namespace Stencil

/-! ### Foreign code -/

/-- Slots stay as they are, no handle goes to another cell, and no cell gets another context. -/
structure Loans.Civil (l l' : Loans Value) : Prop where
  slots : ∀ s q, l.slots.get? s = some q → l'.slots.get? s = some q
  contexts : l.contexts.size ≤ l'.contexts.size
  cells : ∀ j q, l.cells.get? j = some q →
    ∃ q', l'.cells.get? j = some q' ∧ (q'.context = q.context ∨ q'.context = none)
  handles : ∀ h q, l.handles.get? h = some q → ∃ q', l'.handles.get? h = some q' ∧ q'.cell = q.cell

/-- Loops go on over their lists. -/
def Heap.KeepsLoops (h h' : Heap) : Prop :=
  ∀ i items p, h.get? i = some (.loop (some ⟨items, p⟩)) →
    ∃ q, h'.get? i = some (.loop (some ⟨items, q⟩))

theorem Heap.Drift.keepsLoops {h h' : Heap} (d : h.Drift h') : h.KeepsLoops h' :=
  fun _ _ _ e => d.loop e

theorem Heap.KeepsLoops.trans {h h' h'' : Heap} (k : h.KeepsLoops h') (k' : h'.KeepsLoops h'') :
    h.KeepsLoops h'' := by
  intro i items p e
  obtain ⟨q, e'⟩ := k i items p e
  exact k' i items q e'

instance : IsPreorder Heap Heap.KeepsLoops where
  refl h := (Heap.Drift.refl h).keepsLoops
  trans _ _ _ := Heap.KeepsLoops.trans

/-- Tags are civil and leave the lists of loops alone; filters change no value in place. -/
structure Host.Civil (host : Host) : Prop where
  calls : ∀ body lent vs ns (w : World), w.loans.Civil ((host.call body lent vs ns).exec w).2.loans
  loops : ∀ body lent vs ns (w : World),
    w.heap.KeepsLoops ((host.call body lent vs ns).exec w).2.heap
  filters : ∀ f vs (h : Heap), h.Drift ((host.filter f vs).exec h).2

/-- Nothing happens to the context `c`, to the cell `k` and to the handles on it, and no value is
changed in place. -/
structure Undisturbed (k c : Nat) (w w' : World) : Prop where
  cell : w'.loans.cells.get? k = w.loans.cells.get? k
  context : w'.loans.contexts.get? c = w.loans.contexts.get? c
  handles : ∀ h q, w.loans.handles.get? h = some q → q.cell = k → w'.loans.handles.get? h = some q
  heap : w.heap.Drift w'.heap

theorem Undisturbed.refl (k c : Nat) (w : World) : Undisturbed k c w w :=
  ⟨rfl, rfl, fun _ _ e _ => e, .refl _⟩

theorem Undisturbed.trans {k c : Nat} {w w' w'' : World} (u : Undisturbed k c w w')
    (u' : Undisturbed k c w' w'') : Undisturbed k c w w'' where
  cell := u'.cell.trans u.cell
  context := u'.context.trans u.context
  handles h q e hq := u'.handles h q (u.handles h q e hq) hq
  heap := u.heap.trans u'.heap

/-- The cell `k` holds the context `c`. -/
def World.Shares (k c : Nat) (w : World) : Prop :=
  ∃ q, w.loans.cells.get? k = some q ∧ q.context = some c

/-- A tag that is called while the cell `k` holds the context `c`, and is lent another, leaves them
alone. -/
def Host.Aside (host : Host) (k c : Nat) : Prop :=
  ∀ body lent vs ns (w : World), w.Shares k c →
    (∀ h ∈ lent, (w.loans.handleAt h).cell ≠ k ∧ (w.loans.cellOf h).context ≠ some c) →
    Undisturbed k c w ((host.call body lent vs ns).exec w).2

/-! ### Tags with handles -/

/-- Nothing is touched but cells of a kind, handles on them, and contexts of a kind. -/
structure Loans.Touches (K C : Nat → Prop) (l l' : Loans Value) : Prop where
  slots : l'.slots = l.slots
  contexts_size : l'.contexts.size = l.contexts.size
  contexts : ∀ d, ¬ C d → l'.contexts.get? d = l.contexts.get? d
  cells : ∀ j, ¬ K j → l'.cells.get? j = l.cells.get? j
  filled : ∀ j q, l.cells.get? j = some q →
    ∃ q', l'.cells.get? j = some q' ∧ (q'.context = q.context ∨ q'.context = none)
  absent : ∀ j, l.cells.get? j = none → l'.cells.get? j = none
  handles : ∀ h q, l.handles.get? h = some q →
    ∃ q', l'.handles.get? h = some q' ∧ q'.cell = q.cell ∧ (¬ K q.cell → q' = q)
  made : ∀ h q, l.handles.get? h = none → l'.handles.get? h = some q → K q.cell

namespace Loans.Touches

variable {K C : Nat → Prop} {l l' l'' : Loans Value}

theorem refl (K C : Nat → Prop) (l : Loans Value) : Touches K C l l where
  slots := rfl
  contexts_size := rfl
  contexts _ _ := rfl
  cells _ _ := rfl
  filled _ q e := ⟨q, e, .inl rfl⟩
  absent _ e := e
  handles _ q e := ⟨q, e, rfl, fun _ => rfl⟩
  made _ _ e e' := nomatch e.symm.trans e'

theorem trans (t : Touches K C l l') (t' : Touches K C l' l'') : Touches K C l l'' where
  slots := t'.slots.trans t.slots
  contexts_size := t'.contexts_size.trans t.contexts_size
  contexts d hd := (t'.contexts d hd).trans (t.contexts d hd)
  cells j hj := (t'.cells j hj).trans (t.cells j hj)
  filled j q e := by
    obtain ⟨q', e', hq⟩ := t.filled j q e
    obtain ⟨q'', e'', hq' | hq'⟩ := t'.filled j q' e'
    · exact ⟨q'', e'', hq'.symm ▸ hq⟩
    · exact ⟨q'', e'', .inr hq'⟩
  absent j e := t'.absent j (t.absent j e)
  handles h q e := by
    obtain ⟨q', e', hc, hq⟩ := t.handles h q e
    obtain ⟨q'', e'', hc', hq'⟩ := t'.handles h q' e'
    exact ⟨q'', e'', hc'.trans hc, fun hn => (hq' (hc.symm ▸ hn)).trans (hq hn)⟩
  made h q e e'' := by
    rcases e' : l'.handles.get? h with - | q'
    · exact t'.made h q e' e''
    · obtain ⟨x, ex, hc, -⟩ := t'.handles h q' e'
      obtain rfl := Option.some.inj (ex.symm.trans e'')
      exact hc ▸ t.made h q' e e'

instance (K C : Nat → Prop) : IsPreorder (Loans Value) (Touches K C) where
  refl := refl K C
  trans _ _ _ := trans

theorem changeContext {d : Nat} (hd : C d) (f : Context Value → Context Value) :
    Touches K C l (Loans.changeContext d f l) :=
  { refl K C l with
    contexts_size := Table.size_modify ..
    contexts := fun _ hx => Table.get?_modify_of_ne _ _ fun e => hx (e ▸ hd) }

/-- A cell keeps its context or loses it. -/
theorem changeCell {j : Nat} (hj : K j) {f : Cell → Cell}
    (hf : ∀ q, (f q).context = q.context ∨ (f q).context = none) :
    Touches K C l (Loans.changeCell j f l) :=
  { refl K C l with
    cells := fun _ hx => Table.get?_modify_of_ne _ _ fun e => hx (e ▸ hj)
    filled := fun x q e => by
      rw [Loans.changeCell, Table.get?_modify, e]
      split
      · exact ⟨f q, rfl, hf q⟩
      · exact ⟨q, rfl, .inl rfl⟩
    absent := fun x e => by
      rw [Loans.changeCell, Table.get?_modify, e]
      split <;> rfl }

theorem changeHandle {h : Nat} {q : Handle} (e : l.handles.get? h = some q) (hq : K q.cell)
    {f : Handle → Handle} (hf : ∀ q, (f q).cell = q.cell) :
    Touches K C l (Loans.changeHandle h f l) :=
  { refl K C l with
    handles := fun x p ep => by
      rw [Loans.changeHandle, Table.get?_modify, ep]
      split
      · next same =>
        subst same
        obtain rfl := Option.some.inj (e.symm.trans ep)
        exact ⟨f q, rfl, hf q, fun hn => absurd hq hn⟩
      · exact ⟨p, rfl, rfl, fun _ => rfl⟩
    made := fun x p ep ep' => by
      rw [Loans.changeHandle, Table.get?_modify, ep] at ep'
      split at ep' <;> cases ep' }

theorem withHandle {j : Nat} (hj : K j) : Touches K C l (l.withHandle j) := by
  have hadd : Touches K C l { l with handles := l.handles.add ⟨j, false, 1⟩ } :=
    { refl K C l with
      handles := fun x p ep =>
        ⟨p, (Table.get?_add_of_lt _ (Table.lt_size ep)).trans ep, rfl, fun _ => rfl⟩
      made := fun x p ep ep' => by
        dsimp only at ep'
        rw [Table.get?_add] at ep'
        split at ep'
        · obtain rfl := Option.some.inj ep'
          exact hj
        · cases ep.symm.trans ep' }
  exact hadd.trans (changeCell hj fun _ => .inl rfl)

theorem withRelease {h : Nat} {q : Handle} (e : l.handles.get? h = some q) (hq : K q.cell) :
    Touches K C l (l.withRelease h) := by
  rw [Loans.withRelease, Loans.handleAt_eq e]
  split
  · exact refl K C l
  · have hreleased : Touches K C l (Loans.changeHandle h ({ · with released := true }) l) :=
      changeHandle e hq fun _ => rfl
    refine hreleased.trans (changeCell hq fun p => ?_)
    rw [Cell.leave]
    dsimp only
    split
    · exact .inr rfl
    · exact .inl rfl

theorem withLetGo {h : Nat} {q : Handle} (e : l.handles.get? h = some q) (hq : K q.cell) :
    Touches K C l (l.withLetGo h) := by
  have hholders : Touches K C l
      (Loans.changeHandle h (fun r => { r with holders := r.holders - 1 }) l) :=
    changeHandle e hq fun _ => rfl
  rw [Loans.withLetGo]
  split
  · exact hholders.trans (withRelease (Table.get?_modify_self _ e) hq)
  · exact hholders

end Loans.Touches

/-- Handles on cells of the kind, which hold contexts of the kind. -/
structure Loans.Owned (K C : Nat → Prop) (mine : List Nat) (l : Loans Value) : Prop where
  cells : ∀ h ∈ mine, ∀ q, l.handles.get? h = some q → K q.cell
  contexts : ∀ j q d, K j → l.cells.get? j = some q → q.context = some d → C d

namespace Loans.Owned

variable {K C : Nat → Prop} {mine : List Nat} {l l' : Loans Value}

theorem touches (o : Owned K C mine l) (t : Touches K C l l') : Owned K C mine l' where
  cells h hh q e := by
    rcases e₀ : l.handles.get? h with - | q₀
    · exact t.made h q e₀ e
    · obtain ⟨x, ex, hc, -⟩ := t.handles h q₀ e₀
      obtain rfl := Option.some.inj (ex.symm.trans e)
      exact hc ▸ o.cells h hh q₀ e₀
  contexts j q d hj e hd := by
    rcases e₀ : l.cells.get? j with - | q₀
    · cases (t.absent j e₀).symm.trans e
    · obtain ⟨x, ex, hx | hx⟩ := t.filled j q₀ e₀
      · obtain rfl := Option.some.inj (ex.symm.trans e)
        exact o.contexts j q₀ d hj e₀ (hx.symm.trans hd)
      · obtain rfl := Option.some.inj (ex.symm.trans e)
        cases hx.symm.trans hd

/-- The row of a handle that is not released. -/
theorem row {h : Nat} (o : Owned K C mine l) (hh : h ∈ mine)
    (hr : (l.handleAt h).released = false) :
    ∃ q, l.handles.get? h = some q ∧ l.handleAt h = q ∧ K q.cell := by
  rcases e : l.handles.get? h with - | q
  · rw [Loans.handleAt, e] at hr
    cases hr
  · exact ⟨q, rfl, Loans.handleAt_eq e, o.cells h hh q e⟩

end Loans.Owned

theorem Run.Leads.attempt {σ α : Type} {R : σ → σ → Prop} {s : σ} {act : Run σ α}
    {good : σ → α → Prop} (h : act.Leads R s good) :
    act.attempt.Leads R s fun s' r => ∀ a, r = .ok a → good s' a where
  state := by
    have hs := h.state
    rw [Run.exec_attempt]
    rcases e : act.exec s with ⟨(f | -) | a, s'⟩ <;> rw [e] at hs <;> exact hs
  result r s' e a ea := by
    subst ea
    rw [Run.exec_attempt] at e
    rcases ex : act.exec s with ⟨(f | -) | b, s''⟩ <;> rw [ex] at e
    · cases e
    · cases e
    · obtain ⟨hb, rfl⟩ := Prod.mk.inj e
      obtain rfl := Except.ok.inj (Except.ok.inj hb)
      exact h.result b s'' ex

section Steps

variable {K C : Nat → Prop} {mine : List Nat} {l : Loans Value}

/-- A question is asked of the context, and writes to it. -/
theorem Query.keeps_inside {c : Nat} (hc : C c) (q : Query) (l : Loans Value) :
    (q.inside c).Keeps (Loans.Touches K C) l := by
  have hstep : Loans.Touches K C l (Loans.changeContext c (·.writeAll q.writes) l) :=
    .changeContext hc _
  exact .of_exec (q.exec_inside c l) hstep fun _ _ => trivial

/-- Induction on the block. -/
theorem Block.keeps_inside {c : Nat} (hc : C c) (b : Block) (l : Loans Value) :
    (b.inside c).Keeps (Loans.Touches K C) l := by
  induction b generalizing l with
  | leave r => exact .of_same rfl
  | ask q next ih => exact .bind (q.keeps_inside hc l).attempt fun r l' _ _ => ih r l'

/-- Work under the lock of a handle is work on a context of the kind. -/
theorem keeps_locking {β : Type} (o : l.Owned K C mine) {h : Nat} (hh : h ∈ mine)
    {work : Nat → Run (Loans Value) β}
    (hwork : ∀ c l, C c → (work c).Keeps (Loans.Touches K C) l) :
    (Loans.locking h work).Keeps (Loans.Touches K C) l := by
  rw [Loans.locking]
  rcases Loans.exec_acquire_cases h l with ⟨hr, e⟩ | ⟨f, e⟩
  · obtain ⟨q, eq, hq, hk⟩ := o.row hh hr
    rw [hq] at e
    have hlock : Loans.Touches K C l (l.lockedAt q.cell) := .changeCell hk fun _ => .inl rfl
    have ho := o.touches hlock
    refine .of_step (Run.exec_bind_ok e) hlock (.keeps_ensuring ?_ fun l' _ => ?_)
    · rcases Loans.exec_contextInside_cases q.cell (l.lockedAt q.cell) with ⟨c, hc, e'⟩ | ⟨f, e'⟩
      · have hC : C c := by
          rcases ek : (l.lockedAt q.cell).cells.get? q.cell with - | p
          · rw [Loans.cellAt, ek] at hc
            cases hc
          · rw [Loans.cellAt_eq ek] at hc
            exact ho.contexts q.cell p c hk ek hc
        exact .of_step (Run.exec_bind_ok e') (.refl K C _) (hwork c _ hC)
      · exact .of_error (Run.exec_bind_error e') (.refl K C _)
    · exact .of_exec (Loans.exec_unlock _ l') (.changeCell hk fun _ => .inl rfl) fun _ _ => trivial
  · exact .of_error (Run.exec_bind_error e) (.refl K C l)

theorem leads_duplicate (o : l.Owned K C mine) {h : Nat} (hh : h ∈ mine) :
    (Loans.duplicate h).Leads (Loans.Touches K C) l fun l' i =>
      ∀ q, l'.handles.get? i = some q → K q.cell := by
  rw [Loans.duplicate]
  rcases hr : (l.handleAt h).released with - | -
  · obtain ⟨q, -, hq, hk⟩ := o.row hh hr
    have e : (do Loans.requireLive h
                 let l ← get
                 Loans.addHandle (l.handleAt h).cell : Run (Loans Value) Nat).exec l
        = (.ok l.handles.size, l.withHandle q.cell) := by
      rw [Run.exec_bind_ok (Loans.exec_requireLive hr), Run.exec_get_bind, hq,
        Loans.exec_addHandle]
    refine .of_ok e (.withHandle hk) fun p ep => ?_
    have hnew : (l.withHandle q.cell).handles.get? l.handles.size = some ⟨q.cell, false, 1⟩ :=
      Table.get?_add_new ..
    obtain rfl := Option.some.inj (hnew.symm.trans ep)
    exact hk
  · exact .of_error (Run.exec_bind_error (Loans.exec_requireLive_released hr)) (.refl K C l)

/-- The row of a handle, or there is none. -/
theorem Loans.Owned.row? (o : l.Owned K C mine) {h : Nat} (hh : h ∈ mine) :
    (∃ q, l.handles.get? h = some q ∧ K q.cell) ∨ l.handles.get? h = none := by
  rcases e : l.handles.get? h with - | q
  · exact .inr rfl
  · exact .inl ⟨q, rfl, o.cells h hh q e⟩

/-- Where there is no handle nothing is changed. -/
theorem Loans.changeHandle_of_none {h : Nat} (e : l.handles.get? h = none) (f : Handle → Handle) :
    Loans.changeHandle h f l = l := by
  have hsame : l.handles.modify h f = l.handles := Table.modify_eq_self fun q eq => by
    cases e.symm.trans eq
  rw [Loans.changeHandle, hsame]

theorem keeps_release (o : l.Owned K C mine) {h : Nat} (hh : h ∈ mine) :
    (Loans.release h).Keeps (Loans.Touches K C) l := by
  refine .of_exec (Loans.exec_release h l) ?_ fun _ _ => trivial
  rcases o.row? hh with ⟨q, e, hq⟩ | e
  · exact .withRelease e hq
  · rw [Loans.withRelease, Loans.handleAt, e]
    exact .refl K C l

theorem keeps_hold (o : l.Owned K C mine) {h : Nat} (hh : h ∈ mine) :
    (Loans.hold h).Keeps (Loans.Touches K C) l := by
  refine .of_exec (Run.exec_modify ..) ?_ fun _ _ => trivial
  rcases o.row? hh with ⟨q, e, hq⟩ | e
  · exact .changeHandle e hq fun _ => rfl
  · rw [Loans.changeHandle_of_none e]
    exact .refl K C l

theorem keeps_letGo (o : l.Owned K C mine) {h : Nat} (hh : h ∈ mine) :
    (Loans.letGo h).Keeps (Loans.Touches K C) l := by
  refine .of_exec (Loans.exec_letGo h l) ?_ fun _ _ => trivial
  rcases o.row? hh with ⟨q, e, hq⟩ | e
  · exact .withLetGo e hq
  · have hsame : l.withLetGo h = l := by
      rw [Loans.withLetGo, Loans.changeHandle_of_none e, Loans.withRelease, Loans.handleAt, e]
      rfl
    rw [hsame]
    exact .refl K C l

end Steps

/-! ### A call with handles -/

/-- What a tag touches, and what it does to values. -/
def Meddles (K C : Nat → Prop) (H : Heap → Heap → Prop) (w w' : World) : Prop :=
  w.loans.Touches K C w'.loans ∧ H w.heap w'.heap

instance (K C : Nat → Prop) (H : Heap → Heap → Prop) [IsPreorder Heap H] :
    IsPreorder World (Meddles K C H) where
  refl w := ⟨.refl K C w.loans, refl_of H w.heap⟩
  trans _ _ _ m m' := ⟨m.1.trans m'.1, trans_of H m.2 m'.2⟩

namespace Conduct

/-- All that the tag does with values is of a kind. -/
def Gentle (H : Heap → Heap → Prop) : Conduct → Prop
  | finish _ => True
  | access _ _ next => ∀ r, (next r).Gentle H
  | lock _ _ next => ∀ r, (next r).Gentle H
  | duplicate _ next => ∀ r, (next r).Gentle H
  | release _ next | hold _ next | letGo _ next => next.Gentle H
  | look next => ∀ h, (next h).Gentle H
  | work act next => (∀ h, act.Keeps H h) ∧ ∀ r, (next r).Gentle H

variable {K C : Nat → Prop} {H : Heap → Heap → Prop} [IsPreorder Heap H] {β : Type}
  {mine : List Nat} {w : World}

/-- What is done with a handle that the tag has. -/
theorem leads_reach (H : Heap → Heap → Prop) [IsPreorder Heap H] (place : Nat)
    {act : Nat → Run (Loans Value) β} {good : Loans Value → β → Prop}
    (h : ∀ i ∈ mine, (act i).Leads (Loans.Touches K C) w.loans good) :
    (reach mine place act).Leads (Meddles K C H) w fun w' b => good w'.loans b := by
  rw [reach]
  rcases e : mine[place]? with - | i
  · exact .fail _
  · have hi := h i (List.mem_of_getElem? e)
    refine ⟨⟨hi.state, refl_of H w.heap⟩, fun b w' eb => ?_⟩
    obtain ⟨hb, rfl⟩ := Prod.mk.inj eb
    exact hi.result b _ (Prod.ext hb rfl)

/-- A step of a call, and the rest of it. -/
theorem keeps_step (o : w.loans.Owned K C mine) (place : Nat) {act : Nat → Run (Loans Value) β}
    {rest : Except Failure β → Run World Value}
    (h : ∀ i ∈ mine, (act i).Keeps (Loans.Touches K C) w.loans)
    (hrest : ∀ r w', w'.loans.Owned K C mine → (rest r).Keeps (Meddles K C H) w') :
    (Run.attempt (reach mine place act) >>= rest).Keeps (Meddles K C H) w :=
  .bind (leads_reach H place h).attempt fun r w' m _ => hrest r w' (o.touches m.1)

/-- Whatever a tag does with its handles it touches their cells and contexts only.  Induction on
the call, whose handles may become more but stay in these cells. -/
theorem keeps_run (t : Conduct) (gentle : t.Gentle H) (o : w.loans.Owned K C mine) :
    (t.run mine).Keeps (Meddles K C H) w := by
  induction t generalizing mine w with
  | finish r => exact .of_same rfl
  | access place q next ih =>
    refine keeps_step o place (fun i hi => ?_) fun r w' o' => ih r (gentle r) o'
    have h := keeps_locking o hi fun c l hc => q.keeps_inside hc l
    exact .of_exec (q.exec_access i w.loans) h.state fun _ _ => trivial
  | lock place b next ih =>
    refine keeps_step o place (fun i hi => ?_) fun r w' o' => ih r (gentle r) o'
    exact keeps_locking o hi fun c l hc => b.keeps_inside hc l
  | duplicate place next ih =>
    rw [run]
    refine .bind (leads_reach H place fun i hi => leads_duplicate o hi).attempt fun r w' m hr => ?_
    have o' := o.touches m.1
    rcases r with e | i
    · exact ih _ (gentle _) o'
    · refine ih _ (gentle _) ⟨fun j hj q eq => ?_, o'.contexts⟩
      rcases List.mem_append.mp hj with hj | hj
      · exact o'.cells j hj q eq
      · obtain rfl := List.mem_singleton.mp hj
        exact hr j rfl q eq
  | release place next ih =>
    exact keeps_step o place (fun i hi => keeps_release o hi) fun _ w' o' => ih gentle o'
  | hold place next ih =>
    exact keeps_step o place (fun i hi => keeps_hold o hi) fun _ w' o' => ih gentle o'
  | letGo place next ih =>
    exact keeps_step o place (fun i hi => keeps_letGo o hi) fun _ w' o' => ih gentle o'
  | look next ih => exact .get_bind (ih _ (gentle _) o)
  | work act next ih =>
    have hwork : (onHeap act).Keeps (Meddles K C H) w :=
      ⟨⟨.refl K C w.loans, (gentle.1 w.heap).state⟩, fun _ _ _ => trivial⟩
    exact .bind hwork.attempt fun r w' m _ => ih r (gentle.2 r) (o.touches m.1)

end Conduct

/-! ### Tags by their conduct -/

/-- The cells of the handles a tag is lent. -/
def Loans.CellsOf (mine : List Nat) (l : Loans Value) (j : Nat) : Prop :=
  ∃ h ∈ mine, ∃ q, l.handles.get? h = some q ∧ q.cell = j

/-- The contexts in these cells. -/
def Loans.ContextsOf (mine : List Nat) (l : Loans Value) (d : Nat) : Prop :=
  ∃ j q, l.CellsOf mine j ∧ l.cells.get? j = some q ∧ q.context = some d

theorem Loans.owned (mine : List Nat) (l : Loans Value) :
    l.Owned (l.CellsOf mine) (l.ContextsOf mine) mine :=
  ⟨fun h hh q e => ⟨h, hh, q, e, rfl⟩, fun j q _ hj e hd => ⟨j, q, hj, e, hd⟩⟩

theorem Loans.Touches.civil {K C : Nat → Prop} {l l' : Loans Value} (t : l.Touches K C l') :
    l.Civil l' where
  slots s q e := t.slots ▸ e
  contexts := Nat.le_of_eq t.contexts_size.symm
  cells := t.filled
  handles h q e := by
    obtain ⟨q', e', hc, -⟩ := t.handles h q e
    exact ⟨q', e', hc⟩

/-- What a tag touches is not what it stands aside from. -/
theorem Meddles.undisturbed {K C : Nat → Prop} {k c : Nat} {w w' : World}
    (m : Meddles K C Heap.Drift w w') (hk : ¬ K k) (hc : ¬ C c) : Undisturbed k c w w' where
  cell := m.1.cells k hk
  context := m.1.contexts c hc
  handles h q e hq := by
    obtain ⟨q', e', -, hsame⟩ := m.1.handles h q e
    rw [e', hsame (hq.symm ▸ hk)]
  heap := m.2

variable {host : Host} {conduct : List Action → List Value → Bindings String Value → Conduct}

/-- Tags that work by their own handles only are civil. -/
theorem Host.civil_of_conduct
    (e : ∀ body lent vs ns, host.call body lent vs ns = (conduct body vs ns).run lent.toList)
    (gentle : ∀ body vs ns, (conduct body vs ns).Gentle Heap.KeepsLoops)
    (filters : ∀ f vs (h : Heap), h.Drift ((host.filter f vs).exec h).2) : host.Civil := by
  have hm := fun body (lent : Option Nat) vs ns (w : World) =>
    ((conduct body vs ns).keeps_run (gentle body vs ns) (w.loans.owned lent.toList)).state
  refine ⟨fun body lent vs ns w => ?_, fun body lent vs ns w => ?_, filters⟩
  · rw [e]
    exact (hm body lent vs ns w).1.civil
  · rw [e]
    exact (hm body lent vs ns w).2

/-- They stand aside from every context that they have no handle on. -/
theorem Host.aside_of_conduct
    (e : ∀ body lent vs ns, host.call body lent vs ns = (conduct body vs ns).run lent.toList)
    (gentle : ∀ body vs ns, (conduct body vs ns).Gentle Heap.Drift) (k c : Nat) :
    host.Aside k c := by
  intro body lent vs ns w _ hlent
  have m := ((conduct body vs ns).keeps_run (gentle body vs ns) (w.loans.owned lent.toList)).state
  rw [e]
  refine m.undisturbed ?_ ?_
  · rintro ⟨h, hh, q, eq, hq⟩
    refine (hlent h (Option.mem_toList.mp hh)).1 ?_
    rw [Loans.handleAt_eq eq, hq]
  · rintro ⟨j, p, ⟨h, hh, q, eq, rfl⟩, ep, hp⟩
    refine (hlent h (Option.mem_toList.mp hh)).2 ?_
    rw [Loans.cellOf, Loans.handleAt_eq eq, Loans.cellAt_eq ep, hp]

end Stencil
