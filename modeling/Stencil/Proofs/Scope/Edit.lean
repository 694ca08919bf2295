/-
Stencil/Proofs/Scope/Edit.lean

Edits of a context by whoever has it.  Names are bound, frames are pushed and popped, and blocks of
edits are done in a scope, whose frame is taken off however the block ends.  An edit stops where
the base would be popped, or by a failure from elsewhere; a block may be attempted, and then a
failure that can be caught ends no more than the block.

`Edit.stages` are the contexts that there are one after the other while edits are done.  What
holds at the beginning and is kept by each write, push and pop holds at all of them
(`Edit.Keeps.runAll`), by induction on the edits.  Edits of one context leave all others and
everything else as they are (`Edit.changes_run`).
-/
import Stencil.Proofs.Loan.Locking

namespace Stencil

variable {α : Type}

/-- What can be done to a context.  Bindings come as entries of a dictionary. -/
inductive Edit (α : Type) where
  | set (name : Name) (value : α)
  | update (entries : List (Name × α))
  | push (entries : List (Name × α))
  | pop
  /-- Does edits in a frame of their own and takes the innermost frame off, however they end. -/
  | scope (entries : List (Name × α)) (block : List (Edit α))
  /-- Stops with a failure from elsewhere. -/
  | raise (e : Failure)
  /-- Does edits, and forgets a failure of them that can be caught. -/
  | attempt (block : List (Edit α))

theorem Context.inward_of_pop {x y : Context α} {f : Frame α} (h : x.pop? = some (f, y)) :
    y.inward = x.outer := by
  rw [pop?] at h
  split at h
  · cases h
  · next hx =>
    cases h
    exact hx.symm

namespace Edit

/-! ### Doing edits -/

/-- Takes the innermost frame off. -/
def takeOff (c : Nat) : Run (Loans α) Unit := do
  let _ ← Loans.popFrame c
  pure ()

mutual

/-- Does an edit of the context of a number. -/
def run (c : Nat) : Edit α → Run (Loans α) Unit
  | set n v => modify (Loans.changeContext c (·.set n v))
  | update es => modify (Loans.changeContext c (·.update (.ofList es)))
  | push es => Loans.pushFrame c (.ofList es)
  | pop => takeOff c
  | scope es block => do
    Loans.pushFrame c (.ofList es)
    Run.ensuring (runAll c block) (takeOff c)
  | raise e => Run.failWith e
  | attempt block => Run.catching (runAll c block) fun _ => pure ()

/-- Does edits in order, up to the first that stops. -/
def runAll (c : Nat) : List (Edit α) → Run (Loans α) Unit
  | [] => pure ()
  | e :: rest => do
    run c e
    runAll c rest

end

/-- The loans with a frame on top of a context. -/
def pushed (c : Nat) (entries : List (Name × α)) (l : Loans α) : Loans α :=
  l.changeContext c (·.push (.ofList entries))

/-- The loans that an edit leaves. -/
def after (c : Nat) (e : Edit α) (l : Loans α) : Loans α := ((e.run c).exec l).2

mutual

/-- The contexts that there are one after the other before an edit is done. -/
def inside (c : Nat) : Edit α → Loans α → List (Context α)
  | scope es block, l => (pushed c es l).contextAt c :: stages c block (pushed c es l)
  | attempt block, l => stages c block l
  | _, _ => []

/-- The contexts that there are one after the other when edits are done: after each write, each push
and each pop. -/
def stages (c : Nat) : List (Edit α) → Loans α → List (Context α)
  | [], _ => []
  | e :: rest, l =>
    inside c e l ++ (e.after c l).contextAt c ::
      (match ((e.run c).exec l).1 with
        | .ok _ => stages c rest (e.after c l)
        | .error _ => [])

end

variable {c : Nat} {l l' : Loans α} {x y : Context α} {f : Frame α} {e : Edit α}
  {es block : List (Edit α)} {entries : List (Name × α)}

theorem exec_popFrame (c : Nat) (l : Loans α) : (Loans.popFrame c).exec l =
    match (l.contextAt c).pop? with
    | none => (.error (.failed (.of Context.popBase)), l)
    | some (f, rest) => (.ok f, l.changeContext c fun _ => rest) := by
  rw [Loans.popFrame, Run.exec_get_bind]
  rcases (l.contextAt c).pop? with - | ⟨f, rest⟩ <;> rfl

theorem exec_takeOff (c : Nat) (l : Loans α) : (takeOff c).exec l =
    match (l.contextAt c).pop? with
    | none => (.error (.failed (.of Context.popBase)), l)
    | some (_, rest) => (.ok (), l.changeContext c fun _ => rest) := by
  rw [takeOff, Run.exec_bind, exec_popFrame]
  rcases (l.contextAt c).pop? with - | ⟨f, rest⟩ <;> rfl

theorem exec_scope (c : Nat) (entries : List (Name × α)) (block : List (Edit α)) (l : Loans α) :
    ((scope entries block).run c).exec l =
      (Run.ensuring (runAll c block) (takeOff c)).exec (pushed c entries l) := rfl

theorem after_scope (c : Nat) (entries : List (Name × α)) (block : List (Edit α)) (l : Loans α) :
    (scope entries block).after c l =
      ((takeOff c).exec ((runAll c block).exec (pushed c entries l)).2).2 := by
  rw [after, exec_scope, Run.exec_ensuring]
  split <;> next h => rw [h]

theorem after_attempt (c : Nat) (block : List (Edit α)) (l : Loans α) :
    (attempt block).after c l = ((runAll c block).exec l).2 := by
  rw [after, run, Run.exec_catching]
  split
  · next h =>
    rw [h]
    split <;> rfl
  · rfl

theorem exec_runAll_cons (c : Nat) (e : Edit α) (es : List (Edit α)) (l : Loans α) :
    (runAll c (e :: es)).exec l =
      match (e.run c).exec l with
      | (.ok _, l') => (runAll c es).exec l'
      | (.error x, l') => (.error x, l') := by
  rw [runAll, Run.exec_bind]
  rcases (e.run c).exec l with ⟨x | _, l'⟩ <;> rfl

/-! ### Nothing else changes -/

/-- Loans that differ in a context at most. -/
def Changes (c : Nat) (l l' : Loans α) : Prop := ∃ y, l' = l.changeContext c fun _ => y

theorem changes_changeContext (c : Nat) (f : Context α → Context α) (l : Loans α) :
    Changes c l (l.changeContext c f) := by
  refine ⟨f (l.contextAt c), ?_⟩
  rw [Loans.changeContext, Loans.changeContext]
  congr 1
  refine Table.ext_get? fun i => ?_
  rw [Table.get?_modify, Table.get?_modify]
  split
  · next hi =>
    subst hi
    rcases e : l.contexts.get? c with - | x
    · rfl
    · rw [Loans.contextAt_eq e]
      rfl
  · rfl

instance : IsPreorder (Loans α) (Changes c) where
  refl l := by
    obtain ⟨y, hy⟩ := changes_changeContext c id l
    exact ⟨y, (Loans.changeContext_eq_self fun _ => rfl).symm.trans hy⟩
  trans l m n := by
    rintro ⟨y, rfl⟩ ⟨z, rfl⟩
    exact ⟨z, Loans.changeContext_changeContext ..⟩

theorem Changes.size (h : Changes c l l') : l'.contexts.size = l.contexts.size := by
  obtain ⟨y, rfl⟩ := h
  exact Table.size_modify ..

theorem changes_takeOff (c : Nat) (l : Loans α) : (takeOff c).Keeps (Changes c) l := by
  have e := exec_takeOff c l
  split at e
  · exact .of_error e (refl_of _ l)
  · exact .of_ok e ⟨_, rfl⟩ trivial

mutual

/-- An edit of a context leaves the others and everything else as they are. -/
theorem changes_run (c : Nat) : ∀ (e : Edit α) (l : Loans α), (e.run c).Keeps (Changes c) l
  | set _ _, _ | update _, _ | push _, _ => .of_ok rfl (changes_changeContext ..) trivial
  | pop, l => changes_takeOff c l
  | scope _ block, _ =>
    .of_step (exec_scope ..) (changes_changeContext ..)
      (.keeps_ensuring (changes_runAll c block _) fun _ _ => changes_takeOff c _)
  | raise e, _ => .failWith e
  | attempt block, l => .catching (changes_runAll c block l) fun _ _ _ => .pure trivial

theorem changes_runAll (c : Nat) : ∀ (es : List (Edit α)) (l : Loans α),
    (runAll c es).Keeps (Changes c) l
  | [], _ => .pure trivial
  | e :: rest, l => .bind (changes_run c e l) fun _ l' _ _ => changes_runAll c rest l'

end

theorem size_after (c : Nat) (e : Edit α) (l : Loans α) :
    (e.after c l).contexts.size = l.contexts.size := (changes_run c e l).state.size

/-! ### What is kept -/

/-- What is so of a context is so after each write and each push, and after a pop that comes to
where `Q` holds. -/
structure Keeps (Q P : Context α → Prop) : Prop where
  set : ∀ {x} n v, P x → P (x.set n v)
  update : ∀ {x} es, P x → P (x.update (.ofList es))
  push : ∀ {x} es, P x → P (x.push (.ofList es))
  pop : ∀ {x y} {f}, x.pop? = some (f, y) → Q y → P x → P y

namespace Keeps

variable {Q P : Context α → Prop}

theorem takeOff (k : Keeps Q P) (hc : c < l.contexts.size) (hp : P (l.contextAt c))
    (hq : Q (((Edit.takeOff c).exec l).2.contextAt c)) :
    P (((Edit.takeOff c).exec l).2.contextAt c) := by
  rw [exec_takeOff] at hq ⊢
  rcases e : (l.contextAt c).pop? with - | ⟨f, y⟩
  · exact hp
  · rw [e] at hq
    rw [Loans.contextAt_changeContext hc] at hq ⊢
    exact k.pop e hq hp

mutual

/-- What is so before an edit is so while it is done, and after it. -/
theorem run (k : Keeps Q P) (c : Nat) : ∀ (e : Edit α) {l : Loans α}, c < l.contexts.size →
    P (l.contextAt c) → (∀ y ∈ inside c e l, Q y) → Q ((e.after c l).contextAt c) →
    (∀ y ∈ inside c e l, P y) ∧ P ((e.after c l).contextAt c)
  | .set n v, l, hc, hp, _, _ => by
    refine ⟨nofun, ?_⟩
    show P ((l.changeContext c (·.set n v)).contextAt c)
    rw [Loans.contextAt_changeContext hc]
    exact k.set n v hp
  | .update es, l, hc, hp, _, _ => by
    refine ⟨nofun, ?_⟩
    show P ((l.changeContext c (·.update (.ofList es))).contextAt c)
    rw [Loans.contextAt_changeContext hc]
    exact k.update es hp
  | .push es, l, hc, hp, _, _ => by
    refine ⟨nofun, ?_⟩
    show P ((pushed c es l).contextAt c)
    rw [pushed, Loans.contextAt_changeContext hc]
    exact k.push es hp
  | .pop, l, hc, hp, _, hq => ⟨nofun, k.takeOff hc hp hq⟩
  | .scope es block, l, hc, hp, hqs, hq => by
    have hc' : c < (pushed c es l).contexts.size := by
      rwa [pushed, Loans.changeContext, Table.size_modify]
    have hpushed : P ((pushed c es l).contextAt c) := by
      rw [pushed, Loans.contextAt_changeContext hc]
      exact k.push es hp
    obtain ⟨hps, hlast⟩ := k.runAll c block hc' hpushed fun y hy => hqs y (.tail _ hy)
    have hc'' := (changes_runAll c block (pushed c es l)).state.size ▸ hc'
    rw [after_scope] at hq ⊢
    exact ⟨List.forall_mem_cons.mpr ⟨hpushed, hps⟩, k.takeOff hc'' hlast hq⟩
  | .raise e, l, _, hp, _, _ => ⟨nofun, hp⟩
  | .attempt block, l, hc, hp, hqs, _ => by
    rw [after_attempt]
    exact k.runAll c block hc hp hqs

/-- What is so before edits is so while they are done, and after them. -/
theorem runAll (k : Keeps Q P) (c : Nat) : ∀ (es : List (Edit α)) {l : Loans α},
    c < l.contexts.size → P (l.contextAt c) → (∀ y ∈ stages c es l, Q y) →
    (∀ y ∈ stages c es l, P y) ∧ P (((Edit.runAll c es).exec l).2.contextAt c)
  | [], l, _, hp, _ => ⟨nofun, hp⟩
  | e :: rest, l, hc, hp, hqs => by
    rw [stages, List.forall_mem_append, List.forall_mem_cons] at hqs
    obtain ⟨hinside, hafter, hrest⟩ := hqs
    obtain ⟨hps, hp'⟩ := k.run c e hc hp hinside hafter
    rw [stages, List.forall_mem_append, List.forall_mem_cons, exec_runAll_cons]
    rcases he : (e.run c).exec l with ⟨x | _, l'⟩
    · have hl : e.after c l = l' := congrArg Prod.snd he
      exact ⟨⟨hps, hp', nofun⟩, hl ▸ hp'⟩
    · have hl : e.after c l = l' := congrArg Prod.snd he
      rw [he] at hrest
      have hc' : c < (e.after c l).contexts.size := by rwa [size_after]
      obtain ⟨hps', hlast⟩ := k.runAll c rest hc' hp' hrest
      exact ⟨⟨hps, hp', hps'⟩, hl ▸ hlast⟩

end

end Keeps

end Edit

end Stencil
