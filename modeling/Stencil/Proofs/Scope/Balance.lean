/-
Stencil/Proofs/Scope/Balance.lean

Balanced edits.  What is done on top of a frame of its own, and neither comes below that frame nor
leaves another on it, is gone with the frame: all frames of the context are then what they were
before, whatever names were bound (`Edit.Balanced.restores`).  That holds in a scope, however its
block ends, and without one.

The invariant is that the frames of the context from before are those at the bottom
(`Context.Above`).  Only a pop could touch them, and only one that comes below the own frame.
-/
import Stencil.Proofs.Render.Respect
import Stencil.Proofs.Scope.Views

namespace Stencil

variable {α : Type}

/-! ### Frames on top -/

namespace Context

variable {x y z : Context α} {f : Frame α}

/-- All frames of a context are below the innermost frame of another, which may have more of them
in between. -/
def Above (x y : Context α) : Prop := ∃ fs, y.outer = fs ++ x.inward

theorem above_push (x : Context α) (f : Frame α) : x.Above (x.push f) := ⟨[], rfl⟩

theorem Above.push (h : x.Above y) (f : Frame α) : x.Above (y.push f) := by
  obtain ⟨fs, hfs⟩ := h
  exact ⟨y.innermost :: fs, congrArg (y.innermost :: ·) hfs⟩

theorem length_inward (x : Context α) : x.inward.length = x.depth := List.length_cons

/-- A pop that leaves more frames than there are at the bottom. -/
theorem Above.pop (h : x.Above y) (e : y.pop? = some (f, z)) (hz : x.depth + 1 ≤ z.depth) :
    x.Above z := by
  obtain ⟨fs, hfs⟩ := h
  have hinward : z.innermost :: z.outer = fs ++ x.inward := (inward_of_pop e).trans hfs
  cases fs with
  | nil =>
    -- the frame that is taken off is the last one on top
    have hdepth : z.depth = x.depth := by
      rw [← length_inward, ← length_inward]
      exact congrArg List.length hinward
    omega
  | cons g fs => exact ⟨fs, (List.cons.inj hinward).2⟩

/-- Under a single frame on top is what was there before. -/
theorem Above.pop?_eq (h : x.Above y) (hy : y.depth = x.depth + 1) :
    y.pop? = some (y.innermost, x) := by
  obtain ⟨fs, hfs⟩ := h
  have hlength : fs.length + x.depth = x.depth := by
    rw [← length_inward x, ← List.length_append, ← hfs, length_inward x]
    exact Nat.succ.inj hy
  obtain rfl : fs = [] := List.eq_nil_of_length_eq_zero (by omega)
  rw [pop?, hfs]
  rfl

theorem pop?_eq_none (h : x.depth = 1) : x.pop? = none := by
  have houter : x.outer = [] := List.eq_nil_of_length_eq_zero (Nat.succ.inj h)
  rw [pop?, houter]

end Context

namespace Edit

variable {c : Nat} {l l' : Loans α} {x y : Context α} {block : List (Edit α)}
  {entries : List (Name × α)}

/-- Edits that stay on top of a context keep its frames below. -/
theorem keeps_above (x : Context α) : Edit.Keeps (fun y => x.depth + 1 ≤ y.depth) x.Above where
  set _ _ h := h
  update _ h := h
  push _ h := h.push _
  pop e hy h := h.pop e hy

/-! ### Balanced edits -/

/-- Edits that are done on top of a frame of their own, never come below it, and have come back to
it when they end. -/
structure Balanced (c : Nat) (entries : List (Name × α)) (block : List (Edit α)) (l : Loans α) :
    Prop where
  low : ∀ y ∈ stages c block (pushed c entries l), (l.contextAt c).depth + 1 ≤ y.depth
  level : (((runAll c block).exec (pushed c entries l)).2.contextAt c).depth =
    (l.contextAt c).depth + 1

/-- A frame, edits on top of it and its pop restore the loans. -/
structure Restores (c : Nat) (entries : List (Name × α)) (block : List (Edit α)) (l : Loans α) :
    Prop where
  /-- However the edits end, a pop is possible then, and all is as before. -/
  pop : ∃ f, (Loans.popFrame c).exec ((runAll c block).exec (pushed c entries l)).2 = (.ok f, l)
  /-- So it is at the end of edits with a push in front and a pop behind. -/
  between : ((runAll c block).exec (pushed c entries l)).1 = .ok () →
    (runAll c (.push entries :: (block ++ [.pop]))).exec l = (.ok (), l)
  /-- A scope ends as its block does. -/
  scope : ((scope entries block).run c).exec l =
    (((runAll c block).exec (pushed c entries l)).1, l)

/-- What changed the context changed nothing else, so with its old frames all is as it was. -/
theorem Changes.restore (h : Changes c l l') (there : l.contexts.get? c = some x) :
    (l'.changeContext c fun _ => x) = l := by
  obtain ⟨y, rfl⟩ := h
  rw [Loans.changeContext_changeContext, Loans.changeContext, Table.modify_eq_self]
  intro a ha
  exact Option.some.inj (there.symm.trans ha)

theorem Balanced.exec_popFrame (b : Balanced c entries block l)
    (there : l.contexts.get? c = some x) :
    ∃ f, (Loans.popFrame c).exec ((runAll c block).exec (pushed c entries l)).2 = (.ok f, l) := by
  obtain ⟨low, level⟩ := b
  rw [Loans.contextAt_eq there] at low level
  have hc : c < (pushed c entries l).contexts.size := by
    rw [pushed, (changes_changeContext ..).size]
    exact Table.lt_size there
  have hpushed : x.Above ((pushed c entries l).contextAt c) := by
    rw [pushed, Loans.contextAt_changeContext (Table.lt_size there), Loans.contextAt_eq there]
    exact x.above_push _
  have habove := ((keeps_above x).runAll c block hc hpushed low).2
  have hchanges : Changes c l ((runAll c block).exec (pushed c entries l)).2 :=
    trans_of _ (changes_changeContext ..) (changes_runAll c block _).state
  rw [Edit.exec_popFrame, habove.pop?_eq level]
  exact ⟨_, congrArg _ (hchanges.restore there)⟩

theorem exec_takeOff_of_popFrame {f : Frame α} (h : (Loans.popFrame c).exec l = (.ok f, l')) :
    (takeOff c).exec l = (.ok (), l') := by
  rw [takeOff, Run.exec_bind, h]
  rfl

theorem exec_runAll_append (c : Nat) (es fs : List (Edit α)) (l : Loans α) :
    (runAll c (es ++ fs)).exec l =
      match (runAll c es).exec l with
      | (.ok _, l') => (runAll c fs).exec l'
      | (.error x, l') => (.error x, l') := by
  induction es generalizing l with
  | nil => rfl
  | cons e es ih =>
    rw [List.cons_append, exec_runAll_cons, exec_runAll_cons]
    rcases (e.run c).exec l with ⟨x | _, l'⟩
    · rfl
    · exact ih l'

theorem Balanced.restores (b : Balanced c entries block l) (there : l.contexts.get? c = some x) :
    Restores c entries block l := by
  obtain ⟨f, hf⟩ := b.exec_popFrame there
  have hoff := exec_takeOff_of_popFrame hf
  refine ⟨⟨f, hf⟩, fun hok => ?_, Run.exec_ensuring_ok hoff⟩
  have hblock : (runAll c block).exec (pushed c entries l) =
      (.ok (), ((runAll c block).exec (pushed c entries l)).2) := Prod.ext hok rfl
  calc (runAll c (.push entries :: (block ++ [.pop]))).exec l
      = (runAll c (block ++ [.pop])).exec (pushed c entries l) := rfl
    _ = (runAll c [.pop]).exec ((runAll c block).exec (pushed c entries l)).2 := by
      rw [exec_runAll_append, hblock]
    _ = (.ok (), l) := by
      rw [exec_runAll_cons, run, hoff]
      rfl

/-- Balanced edits on top of a frame restore what was there before.  The base cannot be taken off,
and no context has no frames: none is made without, and none comes to be so. -/
theorem scope_restores (there : l.contexts.get? c = some x) (balanced : Balanced c entries block l) :
    Restores c entries block l ∧
      (∀ l' : Loans α, (l'.contextAt c).depth = 1 →
        (Loans.popFrame c).exec l' = (.error (.failed (.of Context.popBase)), l')) ∧
      (∀ l' : Loans α,
        (Making.frames []).run.exec l' = (.error (.failed (.of Context.noFrames)), l')) ∧
      ∀ (m : Making α) (l' l'' : Loans α) (d : Nat), m.run.exec l' = (.ok d, l'') →
        ∀ es, ∀ y ∈ l''.contextAt d :: stages d es l'', y.frames ≠ [] := by
  refine ⟨balanced.restores there, fun l' h => ?_, fun _ => rfl, fun _ _ _ _ _ _ y _ => ?_⟩
  · rw [exec_popFrame, Context.pop?_eq_none h]
  · exact List.reverse_ne_nil_iff.mpr (List.cons_ne_nil _ _)

/-- A name is bound anew in a scope and in two more in it.  The inner ones end by a pop and by a
failure that is caught, and the scope by one that is not. -/
theorem scope_restores_failing :
    let x : Context Value := ⟨.ofList [("a", .int 2)], [.ofList [("a", .int 1), ("b", .absent)]]⟩
    let l : Loans Value := ⟨Table.empty.add x, .empty, .empty, .empty⟩
    let e : Failure := .of Context.noFrames
    let block : List (Edit Value) :=
      [.set "a" (.int 4), .push [("b", .int 5)], .set "a" (.int 6), .pop,
        .attempt [.scope [("a", .int 7)] [.update [("b", .int 8)], .raise e]], .raise e]
    l.contexts.get? 0 = some x ∧ Balanced 0 [("a", .int 3)] block l ∧
      Restores 0 [("a", .int 3)] block l ∧
      ((scope [("a", .int 3)] block).run 0).exec l = (.error (.failed e), l) := by
  intro x l e block
  have balanced : Balanced 0 [("a", .int 3)] block l := ⟨by decide, by decide⟩
  have there : l.contexts.get? 0 = some x := rfl
  have restores := (scope_restores there balanced).1
  have hblock : ((runAll 0 block).exec (pushed 0 [("a", .int 3)] l)).1 = .error (.failed e) := by
    decide +kernel
  refine ⟨there, balanced, restores, ?_⟩
  rw [restores.scope, hblock]

/-! ### Scopes of a rendering -/

theorem slots_runAll (c : Nat) (es : List (Edit α)) (l : Loans α) :
    ((runAll c es).exec l).2.slots = l.slots := by
  obtain ⟨y, hy⟩ := (changes_runAll c es l).state
  rw [hy]
  rfl

/-- A scope of a rendering is a scope of the context in its slot, as edits leave it there. -/
theorem exec_inScope {slot : Nat} {w : World} (entries : List (Name × Value))
    (block : List (Edit Value)) (hslot : (w.loans.slotAt slot).context = c) :
    (inScope slot (.ofList entries) (onLoans (runAll c block))).exec w =
      (onLoans ((scope entries block).run c)).exec w := by
  let l' := ((runAll c block).exec (pushed c entries w.loans)).2
  let w' : World := { w with loans := l' }
  have hafter : (onLoans (runAll c block)).exec (w.changeIn slot (·.push (.ofList entries))) =
      (((runAll c block).exec (pushed c entries w.loans)).1, w') := by
    rw [World.changeIn, hslot]
    rfl
  have hslot' : (l'.slotAt slot).context = c := by
    rw [Loans.slotAt, slots_runAll]
    exact hslot
  have hcontext : w'.contextIn slot = l'.contextAt c := congrArg l'.contextAt hslot'
  have hchange : ∀ y, w'.changeIn slot (fun _ => y) =
      { w with loans := l'.changeContext c fun _ => y } := by
    intro y
    rw [World.changeIn, hslot']
  rw [Stencil.exec_inScope, Run.exec_ensuring, hafter, exec_leaveScope, hcontext, onLoans,
    Run.exec_within, exec_scope, Run.exec_ensuring, exec_takeOff]
  rcases (l'.contextAt c).pop? with - | ⟨f, y⟩
  · rfl
  · show (_, w'.changeIn slot fun _ => y) = _
    rw [hchange]

/-- A scope of a rendering around balanced edits leaves the world as it was. -/
theorem Balanced.exec_inScope {slot : Nat} {w : World} {x : Context Value}
    {entries : List (Name × Value)} {block : List (Edit Value)}
    (b : Balanced c entries block w.loans) (there : w.loans.contexts.get? c = some x)
    (hslot : (w.loans.slotAt slot).context = c) :
    (inScope slot (.ofList entries) (onLoans (runAll c block))).exec w =
      (((runAll c block).exec (pushed c entries w.loans)).1, w) := by
  rw [Edit.exec_inScope entries block hslot, onLoans, Run.exec_within, (b.restores there).scope]

end Edit

end Stencil
