/-
Stencil/Proofs/Render/Errand.lean

Tags that keep handles.  An *errand* is one call of a tag, as a tree, like a
conduct; but it may also keep a handle, and later errands can get at the kept
handles beside those they are lent.  It may do work of any other kind, as long
as it gets at contexts by handles only: such work sees nothing on loan, and
leaves all that is on loan alone.

What is done with one handle comes down to one of a few changes of the loans
(`Touch.effect`): nothing, writes to the context that the cell of the handle
holds, one more handle on that cell, or something on the handle itself.
-/
import Stencil.Proofs.Handle.Count

namespace Stencil

variable {β : Type}

/-! ### Touching a handle -/

/-- What is done with a handle. -/
inductive Touch where
  | access (q : Query)
  | lock (b : Block)
  /-- Makes a further handle. -/
  | duplicate
  | release
  /-- Lets somebody else hold it too. -/
  | hold
  | letGo

namespace Touch

/-- Does it; gives the answer, and the handles that were made. -/
def act (h : Nat) : Touch → Run (Loans Value) (Reply × List Nat)
  | access q => do
    let a ← q.access h
    return (a, [])
  | lock b => do
    let a ← Loans.locking h b.inside
    return (a, [])
  | duplicate => do
    let i ← Loans.duplicate h
    return (.done, [i])
  | release => do
    Loans.release h
    return (.done, [])
  | hold => do
    Loans.hold h
    return (.done, [])
  | letGo => do
    Loans.letGo h
    return (.done, [])

/-- The work on the context, if it is that. -/
def block? : Touch → Option Block
  | access q => some (.single q)
  | lock b => some b
  | duplicate | release | hold | letGo => none

/-- What it writes to a context; nothing when it is refused, or when the cell of the handle holds
another. -/
def writes (t : Touch) (l : Loans Value) (h c : Nat) : List Write :=
  match t.block? with
  | none => []
  | some b =>
    if (l.handleAt h).released = false ∧ (l.cellOf h).locked = false ∧
      (l.cellOf h).context = some c then (b.play (l.contextAt c)).2 else []

/-- What touching the handle `h` does to the loans. -/
inductive Effect (t : Touch) (h : Nat) (l : Loans Value) : Loans Value → Prop
  | rests (hw : ∀ c, t.writes l h c = []) : Effect t h l l
  | writes {c : Nat} (holds : (l.cellOf h).context = some c) :
      Effect t h l (Loans.changeContext c (·.writeAll (t.writes l h c)) l)
  | joins {r : Handle} (e : l.handles.get? h = some r) (hw : ∀ c, t.writes l h c = []) :
      Effect t h l (l.withHandle r.cell)
  | releases (hw : ∀ c, t.writes l h c = []) : Effect t h l (l.withRelease h)
  | holders (f : Nat → Nat) (hw : ∀ c, t.writes l h c = []) :
      Effect t h l (Loans.changeHandle h (fun r => { r with holders := f r.holders }) l)
  | letsGo (hw : ∀ c, t.writes l h c = []) : Effect t h l (l.withLetGo h)

variable {l : Loans Value} {h : Nat}

theorem writes_of_ne {t : Touch} {c : Nat} (hne : (l.cellOf h).context ≠ some c) :
    t.writes l h c = [] := by
  rw [writes]
  split
  · rfl
  · exact if_neg fun ⟨_, _, e⟩ => hne e

end Touch

namespace Loans

variable {l : Loans Value} {h : Nat}

/-- A block through a handle does to the context of its cell what it plays, or is refused and does
nothing. -/
theorem exec_locking_block (s : l.Sound) (h : Nat) (b : Block) :
    (locking h b.inside).exec l =
      match l.opens h with
      | .error e => (.error e, l)
      | .ok c => ((b.play (l.contextAt c)).1.mapError .failed,
          changeContext c (·.writeAll (b.play (l.contextAt c)).2) l) := by
  refine exec_locking_opens h (fun x => (b.play x).1.mapError .failed)
    (fun x y => y.writeAll (b.play x).2) fun c e m hm => b.exec_inside c m ?_
  obtain ⟨q, eq, -, hc⟩ := (free_of_opens e).row
  rw [hm]
  exact s.cell_lt _ q c eq hc

end Loans

namespace Touch

variable {l : Loans Value}

/-- A question is a block of one question. -/
theorem exec_act_block (s : l.Sound) {t : Touch} {b : Block} (hb : t.block? = some b) (h : Nat) :
    (t.act h).exec l =
      match l.opens h with
      | .error e => (.error e, l)
      | .ok c => (((b.play (l.contextAt c)).1.mapError .failed).map fun a => (a, []),
          Loans.changeContext c (·.writeAll (b.play (l.contextAt c)).2) l) := by
  have hact : (t.act h).exec l =
      ((do let a ← Loans.locking h b.inside; return (a, [])) :
        Run (Loans Value) (Reply × List Nat)).exec l := by
    cases t with
    | access q =>
      obtain rfl := Option.some.inj hb
      have hsingle : q.inside = (Block.single q).inside :=
        funext fun c => Run.ext_exec fun l => (Block.exec_single q c l).symm
      rw [act, Run.ext_exec fun l => Query.exec_access q h l, hsingle]
    | lock b' =>
      obtain rfl := Option.some.inj hb
      rfl
    | duplicate | release | hold | letGo => cases hb
  rw [hact, Run.exec_bind, Loans.exec_locking_block s h b]
  rcases l.opens h with e | c
  · rfl
  · dsimp only
    rcases (b.play (l.contextAt c)).1 with e | a <;> rfl

/-- Each way of touching a handle has one of these effects. -/
theorem effect (s : l.Sound) (t : Touch) (h : Nat) : t.Effect h l ((t.act h).exec l).2 := by
  rcases hb : t.block? with - | b
  · have hw : ∀ c, t.writes l h c = [] := fun c => by rw [writes, hb]
    cases t with
    | access q | lock b => cases hb
    | duplicate =>
      rw [act, Loans.duplicate]
      rcases hr : (l.handleAt h).released with - | -
      · rcases e : l.handles.get? h with - | r
        · rw [Loans.handleAt, e] at hr
          cases hr
        · rw [bind_assoc, Run.exec_bind_ok (Loans.exec_requireLive hr), bind_assoc,
            Run.exec_get_bind, Run.exec_bind_ok (Loans.exec_addHandle _ l), Loans.handleAt_eq e]
          exact .joins e hw
      · rw [bind_assoc, Run.exec_bind_error (Loans.exec_requireLive_released hr)]
        exact .rests hw
    | release => exact .releases hw
    | hold => exact .holders (· + 1) hw
    | letGo =>
      rw [act, Run.exec_bind_ok (Loans.exec_letGo h l)]
      exact .letsGo hw
  · rw [exec_act_block s hb]
    rcases ho : l.opens h with f | c
    · refine .rests fun c => ?_
      rw [writes, hb]
      refine if_neg fun hc => ?_
      rw [Loans.opens_eq_ok_iff.mpr hc] at ho
      cases ho
    · have hc := Loans.opens_eq_ok_iff.mp ho
      have hw : t.writes l h c = (b.play (l.contextAt c)).2 := by
        rw [writes, hb]
        exact if_pos hc
      dsimp only
      rw [← hw]
      exact .writes hc.2.2

/-- How many handles it makes when it is not refused. -/
def copies : Touch → Nat
  | duplicate => 1
  | access _ | lock _ | release | hold | letGo => 0

/-- Handles that were made are new, and on the same cell. -/
theorem made {t : Touch} {h : Nat} {a : Reply} {made : List Nat} {l' : Loans Value}
    (e : (t.act h).exec l = (.ok (a, made), l')) :
    made.length = t.copies ∧ ∀ i ∈ made, l.handles.size ≤ i ∧ i < l'.handles.size ∧
      (l'.handleAt i).cell = (l.handleAt h).cell := by
  have hnone : ∀ {β : Type} {act : Run (Loans Value) β} {f : β → Reply},
      (do let b ← act; return (f b, []) : Run (Loans Value) (Reply × List Nat)).exec l
        = (.ok (a, made), l') → made = [] := by
    intro β act f e
    obtain ⟨b, l₁, -, e⟩ := Run.exec_bind_eq_ok e
    exact (congrArg Prod.snd (Except.ok.inj (congrArg Prod.fst e))).symm
  cases t with
  | duplicate =>
    obtain ⟨i, l₁, e₁, e⟩ := Run.exec_bind_eq_ok e
    obtain ⟨hi, rfl⟩ := Prod.mk.inj e
    obtain ⟨-, rfl⟩ := Prod.mk.inj (Except.ok.inj hi)
    rcases hr : (l.handleAt h).released with - | -
    · rw [Loans.duplicate, Run.exec_bind_ok (Loans.exec_requireLive hr), Run.exec_get_bind,
        Loans.exec_addHandle] at e₁
      obtain ⟨hi, rfl⟩ := Prod.mk.inj e₁
      obtain rfl := Except.ok.inj hi
      refine ⟨rfl, fun j hj => ?_⟩
      obtain rfl := List.mem_singleton.mp hj
      have hnew : (l.withHandle (l.handleAt h).cell).handles.get? l.handles.size
          = some ⟨(l.handleAt h).cell, false, 1⟩ := Table.get?_add_new ..
      exact ⟨Nat.le_refl _, Table.lt_size hnew, by rw [Loans.handleAt_eq hnew]⟩
    · rw [Loans.duplicate, Run.exec_bind_error (Loans.exec_requireLive_released hr)] at e₁
      cases e₁
  | access q | lock b =>
    rw [hnone e]
    exact ⟨rfl, fun i hi => (List.not_mem_nil hi).elim⟩
  | release | hold | letGo =>
    rw [hnone (f := fun _ => .done) e]
    exact ⟨rfl, fun i hi => (List.not_mem_nil hi).elim⟩

end Touch

/-! ### Errands -/

/-- A handle that a tag can get at, by its place: one that it has for the call, or a kept one. -/
inductive Grip where
  | own (place : Nat)
  | kept (place : Nat)

/-- What stands for the handle among what stands for those the tag has for the call, and for the
kept ones, if there is such a handle. -/
def Grip.handle? {α : Type} (mine kept : List α) : Grip → Option α
  | .own place => mine[place]?
  | .kept place => kept[place]?

theorem Grip.handle?_map {α β : Type} (f : α → β) (mine kept : List α) (g : Grip) :
    g.handle? (mine.map f) (kept.map f) = (g.handle? mine kept).map f := by
  cases g with
  | own place => exact List.getElem?_map
  | kept place => exact List.getElem?_map

theorem Grip.mem_of_handle? {mine kept : List Nat} {g : Grip} {h : Nat}
    (e : g.handle? mine kept = some h) : h ∈ mine ++ kept := by
  cases g with
  | own place => exact List.mem_append_left _ (List.mem_of_getElem? e)
  | kept place => exact List.mem_append_right _ (List.mem_of_getElem? e)

/-- The world as far as nothing on loan is seen. -/
def World.bare (w : World) : World := { w with loans := .empty, kept := [] }

/-- A run that sees nothing on loan, and leaves all that is on loan alone. -/
def aside (act : Run World β) : Run World β :=
  Run.within World.bare (fun v w => { v with loans := w.loans, kept := w.kept }) act

theorem exec_attempt_onLoans (act : Run (Loans Value) β) (w : World) :
    (Run.attempt (onLoans act)).exec w =
      match act.exec w.loans with
      | (.ok b, l) => (.ok (.ok b), { w with loans := l })
      | (.error (.failed f), l) => (.ok (.error f), { w with loans := l })
      | (.error .unfinished, l) => (.error .unfinished, { w with loans := l }) := by
  rw [Run.exec_attempt, onLoans, Run.exec_within]
  rcases act.exec w.loans with ⟨(f | -) | b, l⟩ <;> rfl

theorem exec_attempt_aside (act : Run World β) (w : World) :
    (Run.attempt (aside act)).exec w =
      match act.exec w.bare with
      | (.ok b, v) => (.ok (.ok b), { v with loans := w.loans, kept := w.kept })
      | (.error (.failed f), v) => (.ok (.error f), { v with loans := w.loans, kept := w.kept })
      | (.error .unfinished, v) =>
        (.error .unfinished, { v with loans := w.loans, kept := w.kept }) := by
  rw [Run.exec_attempt, aside, Run.exec_within]
  rcases act.exec w.bare with ⟨(f | -) | b, v⟩ <;> rfl

/-- The world when a handle was kept, if there is one. -/
def World.keep (h : Option Nat) (w : World) : World :=
  match h with
  | none => w
  | some h =>
    { w with
      loans := w.loans.changeHandle h fun r => { r with holders := r.holders + 1 }
      kept := w.kept ++ [h] }

theorem World.heap_keep (h : Option Nat) (w : World) : (w.keep h).heap = w.heap := by
  cases h <;> rfl

/-- One call of a tag that can get at kept handles. -/
inductive Errand where
  /-- Returns a value or raises. -/
  | finish (r : Except Failure Value)
  /-- A further handle that is made comes last among those it has for the call. -/
  | touch (g : Grip) (t : Touch) (next : Except Failure Reply → Errand)
  /-- Keeps a handle beyond the call. -/
  | keep (g : Grip) (next : Errand)
  /-- Looks at everything but what is on loan. -/
  | look (next : World → Errand)
  /-- Works on everything but what is on loan. -/
  | work (act : Run World Value) (next : Except Failure Value → Errand)

namespace Errand

/-- Runs a call of a tag that has some handles. -/
def run : Errand → List Nat → Run World Value
  | finish r, _ => Run.resume (r.mapError .failed)
  | touch g t next, mine => do
    let w ← get
    match g.handle? mine w.kept with
    | none => (next (.error (.of Conduct.noSuchHandle))).run mine
    | some h => do
      match ← Run.attempt (onLoans (t.act h)) with
      | .ok (a, made) => (next (.ok a)).run (mine ++ made)
      | .error e => (next (.error e)).run mine
  | keep g next, mine => do
    modify fun w => w.keep (g.handle? mine w.kept)
    next.run mine
  | look next, mine => do
    let w ← get
    (next w.bare).run mine
  | work act next, mine => do
    let r ← Run.attempt (aside act)
    (next r).run mine

section Steps

variable {g : Grip} {t : Touch} {next : Except Failure Reply → Errand} {mine : List Nat} {h : Nat}
  {w : World}

theorem exec_touch_none (e : g.handle? mine w.kept = none) :
    ((touch g t next).run mine).exec w
      = ((next (.error (.of Conduct.noSuchHandle))).run mine).exec w := by
  rw [run, Run.exec_get_bind, e]

/-- A touch, and how the call goes on. -/
theorem exec_touch (e : g.handle? mine w.kept = some h) :
    ((touch g t next).run mine).exec w =
      match (t.act h).exec w.loans with
      | (.ok (a, made), l) => ((next (.ok a)).run (mine ++ made)).exec { w with loans := l }
      | (.error (.failed f), l) => ((next (.error f)).run mine).exec { w with loans := l }
      | (.error .unfinished, l) => (.error .unfinished, { w with loans := l }) := by
  rw [run, Run.exec_get_bind, e]
  dsimp only
  rw [Run.exec_bind, exec_attempt_onLoans]
  rcases (t.act h).exec w.loans with ⟨(f | -) | ⟨a, made⟩, l⟩ <;> rfl

/-- Work on the side, and how the call goes on. -/
theorem exec_work {act : Run World Value} {next : Except Failure Value → Errand} :
    ((work act next).run mine).exec w =
      match act.exec w.bare with
      | (.ok a, v) =>
        ((next (.ok a)).run mine).exec { v with loans := w.loans, kept := w.kept }
      | (.error (.failed f), v) =>
        ((next (.error f)).run mine).exec { v with loans := w.loans, kept := w.kept }
      | (.error .unfinished, v) =>
        (.error .unfinished, { v with loans := w.loans, kept := w.kept }) := by
  rw [run, Run.exec_bind, exec_attempt_aside]
  rcases act.exec w.bare with ⟨(f | -) | a, v⟩ <;> rfl

end Steps

/-- What a call writes to a context, in order, without what is refused. -/
def writes (c : Nat) : Errand → List Nat → World → List Write
  | finish _, _, _ => []
  | touch g t next, mine, w =>
    match g.handle? mine w.kept with
    | none => (next (.error (.of Conduct.noSuchHandle))).writes c mine w
    | some h =>
      t.writes w.loans h c ++ Conduct.afterwards (Run.attempt (onLoans (t.act h)))
        (fun r w =>
          match r with
          | .ok (a, made) => (next (.ok a)).writes c (mine ++ made) w
          | .error e => (next (.error e)).writes c mine w) w
  | keep g next, mine, w => next.writes c mine (w.keep (g.handle? mine w.kept))
  | look next, mine, w => (next w.bare).writes c mine w
  | work act next, mine, w =>
    Conduct.afterwards (Run.attempt (aside act)) (fun r w => (next r).writes c mine w) w

end Errand

end Stencil
