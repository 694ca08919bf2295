/-
Stencil/Proofs/Handle/Deed.lean

Handles worked by hand.  A *deed* is one thing that can be done with contexts,
cells and handles from outside a render: to wrap a context, to make, release or
drop handles, to ask by an accessor, to enter and leave a block that holds the
lock, to detach a cell, and to get a context back from any handle, whether it
is live or not.  Deeds may come in any order; one that is refused counts as
done, with whatever it changed before.

What a deed can do to handles and cells is said once (`Deed.effect`).  Up to
locks, contexts and holders (`Quiet`), which no count depends on, it is one of
six things; the proofs about counts look at these and never at a deed again.
-/
import Stencil.Proofs.Render.Reclaim

namespace Stencil

variable {β : Type}

/-! ### Deeds -/

/-- Something that is done with a context, a cell or a handle; handles are known by their numbers. -/
inductive Deed where
  | wrap (c : Nat)
  | duplicate (h : Nat)
  | release (h : Nat)
  | hold (h : Nat)
  /-- One who holds a handle drops it. -/
  | letGo (h : Nat)
  | access (h : Nat) (q : Query)
  /-- Enters a block that holds the lock. -/
  | enter (h : Nat) (patience : Patience)
  /-- Leaves a block that was entered by a handle. -/
  | leave (h : Nat)
  /-- Works on a context itself, as in a block. -/
  | change (c : Nat) (f : Context Value → Context Value)
  | detach (h : Nat)
  | reclaim (h : Nat) (clone : Clone)

/-- The world after work on a handle, if there is such a handle. -/
def World.using (w : World) (h : Nat) (act : Run World β) : World :=
  match w.loans.handles.get? h with
  | some _ => (act.exec w).2
  | none => w

namespace Deed

/-- The world after a deed, whether it was refused or not. -/
def after (w : World) : Deed → World
  | wrap c => ((onLoans (Loans.wrap c)).exec w).2
  | duplicate h => w.using h (onLoans (Loans.duplicate h))
  | release h => w.using h (onLoans (Loans.release h))
  | hold h => w.using h (onLoans (Loans.hold h))
  | letGo h => w.using h (onLoans (Loans.letGo h))
  | access h q => w.using h (onLoans (q.access h))
  | enter h patience => w.using h (onLoans (Loans.enter h patience))
  | leave h => w.using h (onLoans (Loans.unlock (w.loans.handleAt h).cell))
  | change c f => { w with loans := w.loans.changeContext c f }
  | detach h => w.using h (onLoans (Loans.detach (w.loans.handleAt h).cell))
  | reclaim h clone => w.using h (Stencil.reclaim h clone)

/-- The world after deeds, one from where the one before left it. -/
def afterAll : List Deed → World → World
  | [], w => w
  | d :: rest, w => afterAll rest (d.after w)

theorem afterAll_append (ds es : List Deed) (w : World) :
    afterAll (ds ++ es) w = afterAll es (afterAll ds w) := by
  induction ds generalizing w with
  | nil => rfl
  | cons d ds ih => exact ih (d.after w)

end Deed

theorem World.using_of_row {w : World} {h : Nat} {r : Handle} (e : w.loans.handles.get? h = some r)
    (act : Run World β) : w.using h act = (act.exec w).2 := by
  rw [World.using, e]

theorem World.using_of_none {w : World} {h : Nat} (e : w.loans.handles.get? h = none)
    (act : Run World β) : w.using h act = w := by
  rw [World.using, e]

/-! ### Quiet changes -/

/-- What counts of a cell: its context, its count and whether it is consumed. -/
def Cell.core (q : Cell) : Option Nat × Int × Bool := (q.context, q.references, q.consumed)

/-- What counts of a handle: its cell and whether it is released. -/
def Handle.core (r : Handle) : Nat × Bool := (r.cell, r.released)

/-- Nothing differs but locks, contexts, slots, and who holds handles. -/
structure Quiet (l l' : Loans Value) : Prop where
  cells : ∀ k, (l'.cells.get? k).map Cell.core = (l.cells.get? k).map Cell.core
  handles : ∀ h, (l'.handles.get? h).map Handle.core = (l.handles.get? h).map Handle.core

namespace Quiet

variable {l l' l'' : Loans Value}

theorem refl (l : Loans Value) : Quiet l l := ⟨fun _ => rfl, fun _ => rfl⟩

theorem trans (h : Quiet l l') (h' : Quiet l' l'') : Quiet l l'' :=
  ⟨fun k => (h'.cells k).trans (h.cells k), fun i => (h'.handles i).trans (h.handles i)⟩

instance : IsPreorder (Loans Value) Quiet where
  refl := refl
  trans _ _ _ := trans

/-- Only contexts and slots differ. -/
theorem of_eq (hc : l'.cells = l.cells) (hh : l'.handles = l.handles) : Quiet l l' :=
  ⟨fun _ => by rw [hc], fun _ => by rw [hh]⟩

theorem lock (k : Nat) (b : Bool) (l : Loans Value) :
    Quiet l (Loans.changeCell k ({ · with locked := b }) l) where
  cells j := by
    rw [Loans.changeCell, Table.get?_modify]
    split
    · cases l.cells.get? j <;> rfl
    · rfl
  handles _ := rfl

theorem holders (h : Nat) (f : Nat → Nat) (l : Loans Value) :
    Quiet l (Loans.changeHandle h (fun r => { r with holders := f r.holders }) l) where
  cells _ := rfl
  handles i := by
    rw [Loans.changeHandle, Table.get?_modify]
    split
    · cases l.handles.get? i <;> rfl
    · rfl

/-- The row of a handle, up to who holds it. -/
theorem handle_row (h : Quiet l l') {i : Nat} {r : Handle} (e : l.handles.get? i = some r) :
    ∃ n, l'.handles.get? i = some ⟨r.cell, r.released, n⟩ := by
  have hi := h.handles i
  rw [e] at hi
  obtain ⟨⟨cell, released, n⟩, e', hr⟩ := Option.map_eq_some_iff.mp hi
  obtain ⟨rfl, rfl⟩ := Prod.mk.inj hr
  exact ⟨n, e'⟩

/-- The row of a cell, up to its lock. -/
theorem cell_row (h : Quiet l l') {k : Nat} {q : Cell} (e : l.cells.get? k = some q) :
    ∃ b, l'.cells.get? k = some ⟨q.context, q.references, q.consumed, b⟩ := by
  have hk := h.cells k
  rw [e] at hk
  obtain ⟨⟨context, references, consumed, b⟩, e', hq⟩ := Option.map_eq_some_iff.mp hk
  obtain ⟨rfl, hq⟩ := Prod.mk.inj hq
  obtain ⟨rfl, rfl⟩ := Prod.mk.inj hq
  exact ⟨b, e'⟩

theorem symm (h : Quiet l l') : Quiet l' l :=
  ⟨fun k => (h.cells k).symm, fun i => (h.handles i).symm⟩

theorem handle_none (h : Quiet l l') {i : Nat} (e : l.handles.get? i = none) :
    l'.handles.get? i = none := by
  have hi := h.handles i
  rw [e, Option.map_none, Option.map_eq_none_iff] at hi
  exact hi

theorem live (h : Quiet l l') (k : Nat) : l'.live k = l.live k := by
  ext i
  rw [Loans.mem_live, Loans.mem_live]
  constructor
  · rintro ⟨n, e⟩
    exact h.symm.handle_row e
  · rintro ⟨n, e⟩
    exact h.handle_row e

theorem handleAt (h : Quiet l l') (i : Nat) : (l'.handleAt i).core = (l.handleAt i).core := by
  rcases e : l.handles.get? i with - | r
  · rw [Loans.handleAt, Loans.handleAt, e, h.handle_none e]
  · obtain ⟨n, e'⟩ := h.handle_row e
    rw [Loans.handleAt_eq e, Loans.handleAt_eq e']
    rfl

end Quiet

/-! ### Noisy changes -/

/-- The loans when a context was wrapped. -/
def Loans.wrapped (c : Nat) (l : Loans Value) : Loans Value :=
  Loans.withHandle l.cells.size { l with cells := l.cells.add ⟨some c, 0, false, false⟩ }

/-- What a deed can do, up to what is quiet. -/
inductive Deed.Effect (l : Loans Value) : Deed → Loans Value → Prop
  | rests {d : Deed} {m : Loans Value} (q : Quiet l m) : Deed.Effect l d m
  | wraps (c : Nat) : Deed.Effect l (.wrap c) (l.wrapped c)
  | joins {h : Nat} {r : Handle} (e : l.handles.get? h = some r) (live : r.released = false) :
      Deed.Effect l (.duplicate h) (l.withHandle r.cell)
  | leaves {d : Deed} {m : Loans Value} (q : Quiet l m) (h : Nat) :
      Deed.Effect l d (m.withRelease h)
  | detaches {h c : Nat} {r : Handle} {q : Cell} (e : l.handles.get? h = some r)
      (ek : l.cells.get? r.cell = some q) (holds : q.context = some c) :
      Deed.Effect l (.detach h) (l.detached r.cell)
  /-- The context is taken out of the cell of a handle, whose count is one, and the handle released,
  if it is not released already. -/
  | takes {h c : Nat} {r : Handle} {q : Cell} (clone : Clone) (e : l.handles.get? h = some r)
      (ek : l.cells.get? r.cell = some q) (one : q.references = 1) (free : q.locked = false)
      (holds : q.context = some c) :
      Deed.Effect l (.reclaim h clone) ((l.detached r.cell).withRelease h)

/-! ### What each deed does -/

section Quietly

variable {l : Loans Value}

theorem Quiet.keeps_requireLive (h : Nat) : (Loans.requireLive h).Keeps Quiet l := by
  rw [Loans.requireLive]
  refine .get_bind ?_
  split
  · exact .fail _
  · exact .pure trivial

theorem Quiet.keeps_acquire (h : Nat) (patience : Patience) :
    (Loans.acquire h patience).Keeps Quiet l := by
  rw [Loans.acquire.eq_def]
  refine .bind (Quiet.keeps_requireLive h) fun _ l' _ _ => .get_bind ?_
  dsimp only
  split
  · cases patience with
    | forever => exact .of_error rfl (.refl l')
    | upTo seconds => exact .fail _
  · exact .set_bind (.lock _ true l') (.pure trivial)

theorem Quiet.keeps_unlock (k : Nat) : (Loans.unlock k).Keeps Quiet l :=
  .of_exec rfl (.lock k false l) fun _ _ => trivial

theorem Quiet.keeps_contextInside (k : Nat) : (Loans.contextInside k).Keeps Quiet l := by
  rw [Loans.contextInside]
  refine .get_bind ?_
  split
  · exact .pure trivial
  · exact .fail _

theorem Quiet.keeps_enter (h : Nat) (patience : Patience) :
    (Loans.enter h patience).Keeps Quiet l := by
  rw [Loans.enter]
  refine .bind (Quiet.keeps_acquire h patience) fun k l' _ _ => ?_
  refine .catching (Quiet.keeps_contextInside k) fun e l'' _ => ?_
  exact .bind (Quiet.keeps_unlock k) fun _ _ _ _ => .failWith e

/-- A question may write to the context, which is not counted. -/
theorem Quiet.keeps_access (h : Nat) (q : Query) : (q.access h).Keeps Quiet l := by
  have hinside : ∀ c m, (q.inside c).Keeps Quiet m := fun c m =>
    .of_exec (q.exec_inside c m) (.of_eq rfl rfl) fun _ _ => trivial
  have hlocking : (Loans.locking h q.inside).Keeps Quiet l := by
    rw [Loans.locking]
    refine .bind (Quiet.keeps_acquire h .forever) fun k l' _ _ => ?_
    refine .keeps_ensuring (.bind (Quiet.keeps_contextInside k) fun c m _ _ => hinside c m) ?_
    exact fun m _ => Quiet.keeps_unlock k
  exact .of_exec (q.exec_access h l) hlocking.state fun _ _ => trivial

end Quietly

/-- The context is taken, or a copy is made and the handle released, or nothing comes back. -/
theorem Deed.Effect.of_reclaim {w : World} {h : Nat} {r : Handle} {q : Cell}
    (e : w.loans.handles.get? h = some r) (ek : w.loans.cells.get? r.cell = some q) (clone : Clone) :
    Effect w.loans (.reclaim h clone) ((Stencil.reclaim h clone).exec w).2.loans := by
  have ends := reclaims w h clone
  generalize ((Stencil.reclaim h clone).exec w).1 = result at ends
  generalize ((Stencil.reclaim h clone).exec w).2 = w' at ends ⊢
  have hq : w.loans.cellOf h = q := Loans.cellOf_eq e rfl ek
  cases ends with
  | held | gone | refused | stopped => exact .rests (.refl w.loans)
  | taken one free holds =>
    rw [hq] at one free holds
    rw [Loans.handleAt_eq e]
    exact .takes clone e ek one free holds
  | @copied c copy s more eo ec =>
    rw [World.loans_changeTally]
    have hquiet : Quiet w.loans { w.loans with contexts := w.loans.contexts.add copy } :=
      .of_eq rfl rfl
    exact .leaves hquiet h

/-- Every handle belongs to a cell that is there. -/
def Loans.Placed (l : Loans Value) : Prop :=
  ∀ h r, l.handles.get? h = some r → ∃ q, l.cells.get? r.cell = some q

/-- What a deed does to handles and cells. -/
theorem Deed.effect (d : Deed) {w : World} (placed : w.loans.Placed) :
    Deed.Effect w.loans d (d.after w).loans := by
  -- work on a handle that is not there does nothing
  have husing : ∀ {β : Type} {d : Deed} (h : Nat) (act : Run World β),
      (∀ r q, w.loans.handles.get? h = some r → w.loans.cells.get? r.cell = some q →
        Deed.Effect w.loans d (act.exec w).2.loans) →
          Deed.Effect w.loans d (w.using h act).loans := by
    intro β d h act hact
    rcases e : w.loans.handles.get? h with - | r
    · rw [World.using_of_none e]
      exact .rests (.refl w.loans)
    · obtain ⟨q, ek⟩ := placed h r e
      rw [World.using_of_row e]
      exact hact r q e ek
  cases d with
  | wrap c => exact .wraps c
  | duplicate h =>
    refine husing h _ fun r q e _ => ?_
    rw [onLoans, Run.exec_within, Loans.duplicate]
    rcases hr : r.released with - | -
    · have hlive : (w.loans.handleAt h).released = false := by rw [Loans.handleAt_eq e, hr]
      rw [Run.exec_bind_ok (Loans.exec_requireLive hlive), Run.exec_get_bind, Loans.handleAt_eq e,
        Loans.exec_addHandle]
      exact .joins e hr
    · have hgone : (w.loans.handleAt h).released = true := by rw [Loans.handleAt_eq e, hr]
      rw [Run.exec_bind_error (Loans.exec_requireLive_released hgone)]
      exact .rests (.refl w.loans)
  | release h => exact husing h _ fun r q _ _ => .leaves (.refl w.loans) h
  | hold h => exact husing h _ fun r q _ _ => .rests (.holders h (· + 1) w.loans)
  | letGo h =>
    refine husing h _ fun r q _ _ => ?_
    rw [onLoans, Run.exec_within, Loans.exec_letGo, Loans.withLetGo]
    split
    · exact .leaves (.holders h (· - 1) w.loans) h
    · exact .rests (.holders h (· - 1) w.loans)
  | access h q => exact husing h _ fun _ _ _ _ => .rests (Quiet.keeps_access h q).state
  | enter h patience => exact husing h _ fun _ _ _ _ => .rests (Quiet.keeps_enter h patience).state
  | leave h => exact husing h _ fun _ _ _ _ => .rests (.lock _ false w.loans)
  | change c f => exact .rests (.of_eq rfl rfl)
  | detach h =>
    refine husing h _ fun r q e ek => ?_
    rw [onLoans, Run.exec_within, Loans.detach, Run.exec_get_bind, Loans.handleAt_eq e,
      Loans.cellAt_eq ek]
    rcases hc : q.context with - | c
    · exact .rests (.refl w.loans)
    · exact .detaches e ek hc
  | reclaim h clone => exact husing h _ fun r q e ek => .of_reclaim e ek clone

end Stencil
