/-
Stencil/Proofs/Render/Wrapped.lean

The broken hand-over.  When it arises in getting a context back it leaves the
call of the tag and the render as it is.  But to the tag that this render is
part of it is a failure of that tag's function like any other, no template
fault, and so it is reported there as the failure of the tag.  Hence it leaves
the outermost render as it is just when no function of a tag lies on its way
(`broken_leaves`): when it arises in getting back the context of a tag of that
very render.

On the way each slot whose context was lent has been filled again; only a
context that is not in its cell any more cannot be put back.
-/
import Stencil.Proofs.Render.Blame

namespace Stencil

variable {host : Host} {r : Renderer} {w w' : World} {o : Origin} {E F X Y : Failure}
  {slot own : Nat} {clone : Clone}

/-! ### Filling the slot -/

theorem vacant_swapBack (s c : Nat) (l : Loans Value) :
    ((Loans.changeSlot s (fun _ => ⟨c, false⟩) l).slotAt s).vacant = false := by
  rw [Loans.slotAt, Loans.changeSlot]
  dsimp only
  rw [Table.get?_modify, if_pos rfl]
  rcases l.slots.get? s with - | q <;> rfl

/-- When the context cannot be got back, it is put into the slot as it is, if its cell holds it. -/
theorem exec_restore_stops {e : Stop} (h : (reclaim own clone).exec w = (.error e, w')) :
    (restore slot own clone).exec w =
      (.error e,
        match (w'.loans.cellOf own).context with
        | some shared =>
          { w' with loans := Loans.changeSlot slot (fun _ => ⟨shared, false⟩) w'.loans }
        | none => w') := by
  rw [restore, Run.exec_bind, Run.exec_mending, h]
  dsimp only
  rw [Run.exec_get_bind]
  rcases (w'.loans.cellOf own).context with - | shared <;> rfl

/-- When the context was got back, or its cell still holds it, the slot is filled again. -/
theorem getBack_fills {name : String}
    (h : ((getBack name slot own clone).exec w).1 = .ok () ∨
      (w.loans.cellOf own).context.isSome) :
    (((getBack name slot own clone).exec w).2.loans.slotAt slot).vacant = false := by
  rcases er : (reclaim own clone).exec w with ⟨e | ⟨c, path⟩, w₁⟩
  · have hrestore : (restore slot own clone).exec w = (.error e, _) := exec_restore_stops er
    have hback := Run.exec_bind_error (f := fun path => writeRecord (.returned name path)) hrestore
    rw [getBack] at h ⊢
    rw [hback] at h ⊢
    -- The getting back has failed, so it is the context in the cell that fills the slot.
    have hheld : (w₁.loans.cellOf own).context.isSome := by
      rw [loans_of_reclaim_error er]
      rcases h with h | h
      · cases h
      · exact h
    obtain ⟨shared, hc⟩ := Option.isSome_iff_exists.mp hheld
    rw [hc]
    exact vacant_swapBack slot shared w₁.loans
  · rw [getBack, restore, Run.exec_bind, Run.exec_bind_ok (Run.exec_mending_ok er)]
    exact vacant_swapBack slot c w₁.loans

namespace Passage

variable {p : Passage} {ps : List Passage}

/-- The slot of the render holds a context when the render is over. -/
def Filled (p : Passage) : Prop :=
  (((renderSlot p.host p.template p.slot).exec p.start).2.loans.slotAt p.slot).vacant = false

/-- The world in which the context that the tag was lent is asked back. -/
def done (p : Passage) : World := p.tag.done p.host p.slot p.args p.named p.called

/-- The cell of the context that the tag was lent still holds it when it is asked back. -/
def Held (p : Passage) : Prop := (p.done.loans.cellOf p.called.loans.handles.size).context.isSome

/-- A failure leaves the call. -/
def LeavesCall (p : Passage) (F : Failure) : Prop :=
  ((TagEntry.tag p.tag).render p.host p.renderer p.args p.named).Fails p.called F

/-- From the call to the end of the render the slots stay as they are. -/
theorem slots_eq (h : p.Raises o E F) :
    ((renderSlot p.host p.template p.slot).exec p.start).2.loans.slots =
      ((p.tag.invoke p.host p.renderer p.args p.named).exec p.called.inCall).2.loans.slots := by
  have hcall := renderNode_calls p.calls h.fails
  obtain ⟨X, -, -, hunwound⟩ := p.visits.arrives.fails hcall.1
  have hstate := congrArg (fun v : World => v.loans.slots)
    (exec_renderSlot_state p.host p.template p.slot p.start)
  have alive := p.visits.alive
  rw [World.Gone] at alive
  rw [if_neg alive] at hstate
  have hrender : (((TagEntry.tag p.tag).render p.host p.renderer p.args p.named).exec
      p.called).2.loans.slots =
        ((p.tag.invoke p.host p.renderer p.args p.named).exec p.called.inCall).2.loans.slots := by
    rw [TagEntry.exec_render]
    dsimp only
    rw [Run.exec_bind, Run.exec_resume]
    rcases ((p.tag.invoke p.host p.renderer p.args p.named).exec p.called.inCall).1 with e | v
    · rfl
    · dsimp only
      rw [foldResult, Run.exec_get_bind, Run.exec_ofExcept]
      rfl
  refine hstate.trans (hunwound.slots.trans ?_)
  rw [hcall.2]
  exact hrender

/-- The slot that was emptied for the call is filled again. -/
theorem filled (lends : p.tag.mode = .context) (h : p.Raises o E F)
    (held : o = .tag p.tag.name ∨ p.Held) : p.Filled := by
  rw [Filled, Loans.slotAt, slots_eq h, TagDefinition.exec_invoke_context lends, endCall,
    Loans.slots_letGoOf]
  refine getBack_fills (held.imp_left ?_)
  rintro rfl
  cases h with
  | function _ back => exact back lends

end Passage

/-! ### On the way up -/

section

variable {p q : Passage} {ps : List Passage}

/-- What leaves a call by the function of its tag. -/
theorem Passage.leavesCall (h : p.Raises (.tag p.tag.name) E F) :
    p.LeavesCall (p.leaving E (.tag p.tag.name)) := by
  have hF : F = _ := (Node.Raises.tag p.calls h).leaves_node p.orderly
  rw [p.visits.blamed_eq p.orderly] at hF
  rw [leaving, ← hF]
  exact h.fails

/-- The broken hand-over is no template fault, and may be caught. -/
theorem Fault.of_broken {f : Fault} (h : f.broken = true) :
    f.catchable = true ∧ f.ofTemplates = false := by
  cases f with
  | invariant => exact ⟨rfl, rfl⟩
  | _ => cases h

theorem Passage.leaving_tag_ne (hE : E.fault.broken = true) (name : String) :
    p.leaving E (.tag name) ≠ E := by
  intro h
  have hleaving : (p.leaving E (.tag name)).fault.ofTemplates = true := by
    rw [leaving, Template.leaving, if_pos (Fault.of_broken hE)]
    rfl
  rw [h, (Fault.of_broken hE).2] at hleaving
  cases hleaving

theorem Passage.leaving_handover (hE : E.fault.broken = true) : p.leaving E .handover = E := by
  show E.converted _ _ = E
  rw [Failure.converted, if_neg]
  rintro ⟨-, hb, -⟩
  exact Bool.noConfusion (hE.symm.trans hb)

/-- A render that a failure passes: the call fails as the render does, and the slot of a lent context
is filled again, unless the context was taken out of its cell. -/
structure Passed (q : Passage) : Prop where
  alike : ∃ X, q.LeavesCall X ∧ q.Leaves X
  filled : q.tag.mode = .context → q.Held → q.Filled

theorem Passage.passed (h : p.Raises (.tag p.tag.name) E F) (leaves : p.Leaves X)
    (hX : X ≠ .of Context.popBase) : Passed p where
  alike := by
    obtain rfl := (Passage.leaves_of_raises h leaves).resolve_right hX
    exact ⟨_, Passage.leavesCall h, leaves⟩
  filled lends _ := Passage.filled lends h (.inl rfl)

theorem Climbs.of_popBase (h : Climbs ps (.of Context.popBase) Y) : Y = .of Context.popBase :=
  (h.eq_self rfl).elim id id

/-- All renders around pass a failure.  Induction on them. -/
theorem Climbs.passed (h : Climbs ps X Y) (hY : Y ≠ .of Context.popBase) : ∀ q ∈ ps, Passed q := by
  induction h with
  | top => nofun
  | @up p ps X F Z Y raises leaves h ih =>
    intro q hq
    rcases List.mem_cons.mp hq with rfl | hq
    · refine Passage.passed raises leaves ?_
      rintro rfl
      exact hY h.of_popBase
    · exact ih hY q hq

/-- The first render on the way of a failure in which it comes out of the function of a tag, when it
came out of a call in `p` and the renders around that are `ps`. -/
def firstFunction (p : Passage) (ps : List Passage) : Origin → Option Passage
  | .tag _ => some p
  | _ => ps.head?

/-- The failure of the tag of a render, or else the failure itself. -/
def wrappedBy (E : Failure) : Option Passage → Failure
  | some q => q.leaving E (.tag q.tag.name)
  | none => E

/-- Only the first function reports the broken hand-over. -/
theorem Climbs.eq_wrappedBy (hE : E.fault.broken = true) (h : Climbs ps E Y)
    (hY : Y ≠ .of Context.popBase) : Y = wrappedBy E ps.head? := by
  cases h with
  | top => rfl
  | @up q ps _ F X _ raises leaves h =>
    have hX : X ≠ .of Context.popBase := by
      rintro rfl
      exact hY h.of_popBase
    obtain rfl := (Passage.leaves_of_raises raises leaves).resolve_right hX
    refine (h.eq_self ?_).resolve_right hY
    rw [Passage.leaving, Template.leaving, if_pos (Fault.of_broken hE)]
    rfl

/-- The broken hand-over arises in a call of a tag, inside its function or in getting the context
back, and goes up through renders nested in one another.  What leaves the outermost is reported by
the first function of a tag on the way; so it is the broken hand-over itself just when there is none.
On the way what leaves a call leaves the render, and each slot is filled again whose context was not
taken out of its cell. -/
theorem broken_leaves (hE : E.fault.broken = true) (h : p.Raises o E F)
    (ho : o = .tag p.tag.name ∨ o = .handover) (leaves : p.Leaves X) (climbs : Climbs ps X Y)
    (hY : Y ≠ .of Context.popBase) :
    Y = wrappedBy E (firstFunction p ps o) ∧ (Y = E ↔ firstFunction p ps o = none) ∧
      ∀ q ∈ p :: ps, Passed q := by
  have hX : X ≠ .of Context.popBase := by
    rintro rfl
    exact hY climbs.of_popBase
  have hleaves := (Passage.leaves_of_raises h leaves).resolve_right hX
  have hwrapped : Y = wrappedBy E (firstFunction p ps o) ∧ Passed p := by
    rcases ho with rfl | rfl
    -- Out of the function: reported at once, and a template fault from there on.
    · refine ⟨(climbs.eq_self ?_).resolve_right hY |>.trans hleaves, Passage.passed h leaves hX⟩
      rw [hleaves, Passage.leaving, Template.leaving, if_pos (Fault.of_broken hE)]
      rfl
    -- In getting the context back: it leaves this render as it is, and the next function reports it.
    · rw [Passage.leaving_handover hE] at hleaves
      subst hleaves
      refine ⟨climbs.eq_wrappedBy hE hY, ⟨X, ?_, leaves⟩, fun lends held => ?_⟩
      · obtain rfl : F = X := (Node.Raises.tag p.calls h).leaves_node p.orderly
        exact h.fails
      · exact Passage.filled lends h (.inr held)
  refine ⟨hwrapped.1, ?_, fun q hq => ?_⟩
  · rw [hwrapped.1]
    rcases firstFunction p ps o with - | q
    · exact ⟨fun _ => rfl, fun _ => rfl⟩
    · exact ⟨fun hq => absurd hq (Passage.leaving_tag_ne hE _), fun hq => by cases hq⟩
  · rcases List.mem_cons.mp hq with rfl | hq
    · exact hwrapped.2
    · exact climbs.passed hY q hq

/-- A tag that keeps the lock of its context, in a template that another tag renders: the render of
that template fails by the broken hand-over, and the render around it by a failure of the other
tag. -/
theorem broken_leaves_nested :
    let holds : TagDefinition := ⟨"holds", [.holdLock], .context⟩
    let nest : TagDefinition := ⟨"nest", [.give (.rendered 0 [])], .plain⟩
    let w := World.ofTags [holds, nest] [("inner", [.call ⟨3, 0⟩ "holds" [] [] none]),
      ("outer", [.call ⟨7, 0⟩ "nest" [] [] none])]
    let E := Failure.of lockedDefect
    let Y := Failure.because (.ofTag "nest" lockedDefect ((w.templateAt 1).reportAt 7)) E
    ∃ p q : Passage, p.tag = holds ∧ q.tag = nest ∧ p.start = w ∧ q.start = w ∧
      p.Raises .handover E E ∧ p.Leaves E ∧ Climbs [q] E Y ∧ Y = wrappedBy E (some q) ∧ Y ≠ E ∧
      Passed p ∧ Passed q := by
  intro holds nest w E Y
  let p : Passage := ⟨scriptHost 1, orderly_scriptHost 1, 0, 0, w, _, _, _, holds, [], .ofList [], _,
    ⟨by decide +kernel, .here ..⟩, .mk rfl rfl rfl⟩
  let q : Passage := ⟨scriptHost 2, orderly_scriptHost 2, 1, 0, w, _, _, _, nest, [], .ofList [], _,
    ⟨by decide +kernel, .here ..⟩, .mk rfl rfl rfl⟩
  have hp : p.Raises .handover E E := .handover rfl (by rw [Run.Fails]; decide +kernel)
  have hpl : p.Leaves E := by
    rw [Passage.Leaves, Run.Fails]
    decide +kernel
  have hq : q.Raises (.tag "nest") E _ := .function (by rw [Run.Fails]; decide +kernel) nofun
  have hql : q.Leaves Y := by
    rw [Passage.Leaves, Run.Fails]
    decide +kernel
  have climbs : Climbs [q] E Y := .up hq hql (.top Y)
  have h := broken_leaves rfl hp (.inr rfl) hpl climbs (by decide +kernel)
  refine ⟨p, q, rfl, rfl, rfl, rfl, hp, hpl, climbs, h.1, fun hY => ?_, h.2.2 p (.head _),
    h.2.2 q (.tail _ (.head _))⟩
  cases h.2.1.mp hY

end

end Stencil
