/-
Stencil/Proofs/Script/Within.lean

What scripts keep.  A script changes values, contexts on loan, the handles that
are kept, environments and records; at anything else it gets only by rendering
a template.  So a relation between worlds that looks at none of these
(`ScriptsWithin`) and is kept by the rendering of templates is kept by every
script, by induction on its operands and actions.
-/
import Stencil.Proofs.Run
import Stencil.Script.Run

namespace Stencil

variable {β : Type} {w w' : World}

/-- A relation that looks at nothing that a script changes itself. -/
structure ScriptsWithin (R : World → World → Prop) : Prop where
  heap : ∀ w h, R w { w with heap := h }
  loans : ∀ w l, R w { w with loans := l }
  kept : ∀ w hs, R w { w with kept := hs }
  environments : ∀ w es, R w { w with environments := es }
  records : ∀ w xs, R w { w with records := xs }

namespace ScriptsWithin

variable {R : World → World → Prop} [IsPreorder World R] {c : Call} {render : TemplateRun}

/-! ### Parts of operands -/

section

variable (k : ScriptsWithin R)
include k

omit [IsPreorder World R] in
theorem onHeap (act : Run Heap β) (w : World) : (onHeap act).Keeps R w :=
  ⟨k.heap w _, fun _ _ _ => trivial⟩

omit [IsPreorder World R] in
theorem onLoans (act : Run (Loans Value) β) (w : World) : (onLoans act).Keeps R w :=
  ⟨k.loans w _, fun _ _ _ => trivial⟩

omit [IsPreorder World R] in
theorem build (d : Datum) (w : World) : (build d).Keeps R w := .get_bind (k.onHeap _ w)

omit [IsPreorder World R] in
theorem buildAll (ds : List Datum) (w : World) : (buildAll ds).Keeps R w := .get_bind (k.onHeap _ w)

theorem buildFrame (named : List (String × Datum)) (w : World) : (buildFrame named).Keeps R w := by
  have hnamed : (buildNamed named).Keeps R w := .get_bind (k.onHeap _ w)
  exact .bind hnamed fun _ _ _ _ => .pure trivial

omit [IsPreorder World R] in
theorem makeObject (o : Object) (w : World) : (makeObject o).Keeps R w := k.onHeap _ w

omit k in
theorem withHandle (refusal : Fault) {work : Nat → Run World β}
    (h : ∀ n, (work n).Keeps R w) : (c.withHandle refusal work).Keeps R w := by
  rw [Call.withHandle]
  split
  · exact h _
  · exact .fail _

theorem renderingValue (w : World) : Run.Keeps R w renderingValue := by
  refine .get_bind ?_
  split
  · exact .fail _
  · exact k.makeObject _ w

end

/-! ### Operands -/

mutual

/-- An operand changes nothing but by rendering templates.  Induction on the operand. -/
theorem value (k : ScriptsWithin R) (hr : ∀ t ns w, (render t ns).Keeps R w) :
    ∀ (o : Operand) (w : World), (o.value render c).Keeps R w
  | .datum d, w => by
    rw [Operand.value]
    exact k.build d w
  | .argument _, w => by
    rw [Operand.value]
    exact .ofExcept _
  | .keyword _, w => by
    rw [Operand.value]
    exact .ofExcept _
  | .arguments, w => by
    rw [Operand.value]
    exact k.makeObject _ w
  | .keywords, w => by
    rw [Operand.value]
    exact k.makeObject _ w
  | .bound _, w => by
    rw [Operand.value]
    exact withHandle _ fun _ => k.onLoans _ w
  | .boundOr _ d, w => by
    rw [Operand.value]
    exact withHandle _ fun _ => .bind (k.build d w) fun _ w' _ _ => k.onLoans _ w'
  | .isBound _, w => by
    rw [Operand.value]
    exact withHandle _ fun _ => .bind (k.onLoans _ w) fun _ _ _ _ => .pure trivial
  | .names, w => by
    rw [Operand.value]
    exact withHandle _ fun _ => .bind (k.onLoans _ w) fun _ w' _ _ => k.makeObject _ w'
  | .iterated, w => by
    rw [Operand.value]
    exact withHandle _ fun _ => .bind (k.onLoans _ w) fun _ w' _ _ => k.makeObject _ w'
  | .count, w => by
    rw [Operand.value]
    exact withHandle _ fun _ => .bind (k.onLoans _ w) fun _ _ _ _ => .pure trivial
  | .references, w => by
    rw [Operand.value]
    exact withHandle _ fun _ => .get_bind (.pure trivial)
  | .listed, w => by
    rw [Operand.value]
    exact .get_bind (.pure trivial)
  | .attributeOf o _, w => by
    rw [Operand.value]
    exact .bind (value k hr o w) fun _ w' _ _ => .get_bind (.ofExcept _)
  | .joined parts, w => by
    rw [Operand.value]
    refine .bind (valuesOf k hr parts w) fun _ w' _ _ => ?_
    exact .bind (k.onHeap _ w') fun _ _ _ _ => .pure trivial
  | .list parts, w => by
    rw [Operand.value]
    exact .bind (valuesOf k hr parts w) fun _ w' _ _ => k.makeObject _ w'
  | .cycled values, w => by
    rw [Operand.value]
    refine .bind (withHandle _ fun _ => k.onLoans _ w) fun _ w₁ _ _ => ?_
    exact .bind (k.buildAll values w₁) fun _ w₂ _ _ => .get_bind (.ofExcept _)
  | .rendering, w => by
    rw [Operand.value]
    exact k.renderingValue w
  | .rendered _ named, w => by
    rw [Operand.value]
    refine .get_bind ?_
    split
    · exact .fail _
    · refine .bind (namedOf k hr named w) fun ns w₁ _ _ => ?_
      exact .bind (hr _ ns w₁) fun _ _ _ _ => .pure trivial

theorem valuesOf (k : ScriptsWithin R) (hr : ∀ t ns w, (render t ns).Keeps R w) :
    ∀ (os : List Operand) (w : World), (valuesOf render c os).Keeps R w
  | [], w => by
    rw [Stencil.valuesOf]
    exact .pure trivial
  | o :: rest, w => by
    rw [Stencil.valuesOf]
    refine .bind (value k hr o w) fun _ w₁ _ _ => ?_
    exact .bind (valuesOf k hr rest w₁) fun _ _ _ _ => .pure trivial

theorem namedOf (k : ScriptsWithin R) (hr : ∀ t ns w, (render t ns).Keeps R w) :
    ∀ (os : List NamedOperand) (w : World), (namedOf render c os).Keeps R w
  | [], w => by
    rw [Stencil.namedOf]
    exact .pure trivial
  | .mk _ o :: rest, w => by
    rw [Stencil.namedOf]
    refine .bind (value k hr o w) fun _ w₁ _ _ => ?_
    exact .bind (namedOf k hr rest w₁) fun _ _ _ _ => .pure trivial

end

/-! ### Parts of actions -/

section

variable (k : ScriptsWithin R)
include k

omit [IsPreorder World R] in
theorem keepHandle (h : Nat) (w : World) : (keepHandle h).Keeps R w :=
  ⟨k.kept w _, fun _ _ _ => trivial⟩

omit k in
theorem withKept (place : Int) {work : Nat → Run World β}
    (h : ∀ n, (work n).Keeps R w) : (withKept place work).Keeps R w := by
  refine .get_bind ?_
  split
  · exact h _
  · exact .fail _

/-- Induction on the handles. -/
theorem letGoAll (hs : List Nat) (w : World) : (letGoAll hs).Keeps R w := by
  induction hs generalizing w with
  | nil => exact .pure trivial
  | cons h rest ih => exact .bind (k.onLoans _ w) fun _ w' _ _ => ih w'

theorem dropKept (w : World) : Run.Keeps R w dropKept :=
  .get_bind (.set_bind (k.kept w []) (k.letGoAll _ _))

theorem appendTo (list : Value) {act : Run World Value} (h : ∀ w, act.Keeps R w) (w : World) :
    (appendTo list act).Keeps R w := by
  refine .get_bind (.bind (.ofExcept _) fun _ w₁ _ _ => .bind (h w₁) fun v w₂ _ _ => .get_bind ?_)
  split
  · exact ⟨k.heap w₂ _, fun _ _ _ => trivial⟩
  · exact .fail _

omit k in
theorem withEnvironment (wanted : String) {work : Nat → Run World β}
    (h : ∀ e, (work e).Keeps R w) : (withEnvironment wanted work).Keeps R w := by
  refine .get_bind ?_
  split
  · exact h _
  · exact .fail _

theorem eraseFilter (e : Nat) (name : String) (w : World) : (eraseFilter e name).Keeps R w := by
  refine .get_bind ?_
  split
  · exact ⟨k.environments w _, fun _ _ _ => trivial⟩
  · exact .fail _

theorem registerTag (e : Nat) (name : String) (mode : TagMode) (body : TagBody) (w : World) :
    (registerTag e name mode body).Keeps R w := by
  have hdefine : (defineTag name mode body).Keeps R w := by
    rw [defineTag.eq_def]
    split
    · exact .pure trivial
    · exact .bind (k.build _ w) fun _ w' _ _ => .get_bind (.fail _)
  have hrecord : ∀ w, (writeRecord (.registered name mode)).Keeps R w := fun w =>
    ⟨k.records w _, fun _ _ _ => trivial⟩
  refine .bind hdefine fun _ w₁ _ _ => .modify_bind (k.environments w₁ _) ?_
  exact .bind (hrecord _) fun _ _ _ _ => .pure trivial

omit k in
theorem outcomeText {body : Run World β} (h : body.Keeps R w) : (outcomeText body).Keeps R w :=
  .catching (.bind h fun _ _ _ _ => .pure trivial) fun _ _ _ => .pure trivial

end

/-! ### Actions -/

mutual

/-- An action changes nothing but by rendering templates.  Induction on the action. -/
theorem action (k : ScriptsWithin R) (hr : ∀ t ns w, (render t ns).Keeps R w) :
    ∀ (a : Action) (w : World), (a.run render c).Keeps R w
  | .give o, w => by
    rw [Action.run]
    exact .bind (k.value hr o w) fun _ _ _ _ => .pure trivial
  | .set _ o, w => by
    rw [Action.run]
    refine withHandle _ fun _ => .bind (k.value hr o w) fun _ w₁ _ _ => ?_
    exact .bind (k.onLoans _ w₁) fun _ _ _ _ => .pure trivial
  | .append list o, w => by
    rw [Action.run]
    refine .bind (k.value hr list w) fun l w₁ _ _ => ?_
    exact .bind (k.appendTo l (k.value hr o) w₁) fun _ _ _ _ => .pure trivial
  | .keep, w => by
    rw [Action.run]
    refine withHandle _ fun _ => .bind (k.onLoans _ w) fun _ w₁ _ _ => ?_
    exact .bind (k.keepHandle _ w₁) fun _ _ _ _ => .pure trivial
  | .keepDuplicate, w => by
    rw [Action.run]
    refine withHandle _ fun _ => .bind (k.onLoans _ w) fun _ w₁ _ _ => ?_
    exact .bind (k.keepHandle _ w₁) fun _ _ _ _ => .pure trivial
  | .dropKept, w => by
    rw [Action.run]
    exact .bind (k.dropKept w) fun _ _ _ _ => .pure trivial
  | .release, w => by
    rw [Action.run]
    exact withHandle _ fun _ => .bind (k.onLoans _ w) fun _ _ _ _ => .pure trivial
  | .releaseKept number, w => by
    rw [Action.run]
    exact withKept number fun _ => .bind (k.onLoans _ w) fun _ _ _ _ => .pure trivial
  | .setKept number _ o, w => by
    rw [Action.run]
    refine withKept number fun _ => .bind (k.value hr o w) fun _ w₁ _ _ => ?_
    exact .bind (k.onLoans _ w₁) fun _ _ _ _ => .pure trivial
  | .raise _, w => by
    rw [Action.run]
    exact .fail _
  | .attempt body _, w => by
    rw [Action.run]
    refine .bind (outcomeText (actions k hr body w)) fun _ w₁ _ _ => ?_
    refine .bind (withHandle _ fun _ => k.onLoans _ w₁) fun _ _ _ _ => .pure trivial
  | .pushFrame frame, w => by
    rw [Action.run]
    refine withHandle _ fun _ => .bind (k.buildFrame frame w) fun _ w₁ _ _ => ?_
    exact .bind (k.onLoans _ w₁) fun _ _ _ _ => .pure trivial
  | .popFrame, w => by
    rw [Action.run]
    exact withHandle _ fun _ => .bind (k.onLoans _ w) fun _ _ _ _ => .pure trivial
  | .updateFrame frame, w => by
    rw [Action.run]
    refine withHandle _ fun _ => .bind (k.buildFrame frame w) fun _ w₁ _ _ => ?_
    exact .bind (k.onLoans _ w₁) fun _ _ _ _ => .pure trivial
  | .detach, w => by
    rw [Action.run]
    exact withHandle _ fun _ => .get_bind (.bind (k.onLoans _ w) fun _ _ _ _ => .pure trivial)
  | .holdLock, w => by
    rw [Action.run]
    exact withHandle _ fun _ => .get_bind (.bind (k.onLoans _ w) fun _ _ _ _ => .pure trivial)
  | .registerTag _ _ _, w => by
    rw [Action.run]
    exact withEnvironment _ fun e => .bind (k.registerTag e _ _ _ w) fun _ _ _ _ => .pure trivial
  | .eraseFilter _, w => by
    rw [Action.run]
    exact withEnvironment _ fun e => .bind (k.eraseFilter e _ w) fun _ _ _ _ => .pure trivial

theorem actions (k : ScriptsWithin R) (hr : ∀ t ns w, (render t ns).Keeps R w) :
    ∀ (as : List Action) (w : World), (runActions render c as).Keeps R w
  | [], w => by
    rw [runActions]
    exact .pure trivial
  | a :: rest, w => by
    rw [runActions]
    refine .bind (action k hr a w) fun v w₁ _ _ => ?_
    split
    · exact .pure trivial
    · exact actions k hr rest w₁

end

end ScriptsWithin

end Stencil
