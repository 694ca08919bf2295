/-
Stencil/Proofs/Value/Settle.lean

Runs that settle.  A run settles when it ends from every state, with a result or
with a failure that can be caught.  There is a rule for each way of building
runs, so each part of a copy settles when the copies of its own parts do, and
by induction on the depth a deep copy does.

A copy of a context catches what can be caught.  So with a clone that settles it
succeeds whatever the context holds, as long as its names are texts: a name
that is no text may be too long to be written into the record of what is shared.
-/
import Stencil.Proofs.Scope.Faithful

namespace Stencil

variable {σ α β : Type}

/-- The run ends, with a result or with a failure that can be caught. -/
def Run.Settles (act : Run σ α) : Prop := ∀ s, cutShort (act.exec s).1 = false

namespace Run.Settles

variable {act : Run σ α} {f : α → Run σ β}

theorem pure (a : α) : (Pure.pure a : Run σ α).Settles := fun _ => rfl

theorem fail {e : Fault} (h : e.catchable = true) : (Run.fail e : Run σ α).Settles := fun _ => by
  show (!e.catchable) = false
  rw [h]
  rfl

theorem change (g : σ → σ) : (modify g : Run σ PUnit).Settles := fun _ => rfl

theorem bind (h : act.Settles) (hf : ∀ a, (f a).Settles) : (act >>= f).Settles := by
  intro s
  have hs := h s
  rw [Run.exec_bind]
  rcases e : act.exec s with ⟨r | a, s'⟩
  · rw [e] at hs
    exact hs
  · exact hf a s'

theorem get_bind {f : σ → Run σ β} (hf : ∀ s, (f s).Settles) :
    ((MonadState.get : Run σ σ) >>= f).Settles := by
  intro s
  rw [Run.exec_get_bind]
  exact hf s s

end Run.Settles

/-! ### Copies of values -/

namespace Copying

variable {copy : Value → Run Copying Value}

theorem settles_begin (i : Nat) (o : Object) : (begin i o).Settles := fun _ => rfl

theorem settles_put (i : Nat) (o : Object) : (put i o).Settles := fun _ => rfl

theorem settles_make (o : Object) : (make o).Settles := fun _ => rfl

section Parts

variable (hc : ∀ v, (copy v).Settles)
include hc

theorem settles_copyAll (vs : List Value) : (copyAll copy vs).Settles := by
  induction vs with
  | nil => exact .pure _
  | cons v rest ih => exact .bind (hc v) fun _ => .bind ih fun _ => .pure _

theorem settles_fillList (i : Nat) (vs : List Value) : (fillList copy i vs).Settles := by
  induction vs with
  | nil => exact .pure _
  | cons v rest ih => exact .bind (hc v) fun _ => .bind (.change _) fun _ => ih

theorem settles_fillDict (i : Nat) (es : List (Value × Value)) : (fillDict copy i es).Settles := by
  induction es with
  | nil => exact .pure _
  | cons e rest ih =>
    exact .bind (hc e.2) fun _ => .bind (hc e.1) fun _ => .bind (.change _) fun _ => ih

theorem settles_copyAttributes (es : List (String × Value)) :
    (copyAttributes copy es).Settles := by
  induction es with
  | nil => exact .pure _
  | cons e rest ih => exact .bind (hc e.2) fun _ => .bind ih fun _ => .pure _

theorem settles_copyEntries (es : List (Value × Value)) : (copyEntries copy es).Settles := by
  induction es with
  | nil => exact .pure _
  | cons e rest ih =>
    exact .bind (hc e.2) fun _ => .bind (hc e.1) fun _ => .bind ih fun _ => .pure _

theorem settles_copyObject (i : Nat) (o : Option Object) : (copyObject copy i o).Settles := by
  rcases o with - | o
  · exact .pure _
  cases o with
  | list xs =>
    exact .bind (settles_begin i _) fun j => .bind (settles_fillList hc j xs) fun _ => .pure _
  | dict es =>
    exact .bind (settles_begin i _) fun j => .bind (settles_fillDict hc j es) fun _ => .pure _
  | tuple xs =>
    refine .bind (settles_copyAll hc xs) fun ys => .get_bind fun s => ?_
    split
    · exact .pure _
    · split
      · exact .pure _
      · exact .bind (settles_begin i _) fun _ => .pure _
  | thing t =>
    refine .bind (settles_begin i _) fun j => ?_
    rcases t with ⟨name, attributes, - | es, raising⟩
    · refine .bind (.pure _) fun _ => .bind (settles_copyAttributes hc attributes) fun _ => ?_
      exact .bind (settles_put j _) fun _ => .pure _
    · refine .bind (settles_copyEntries hc es) fun _ => .bind (.pure _) fun _ => ?_
      refine .bind (settles_copyAttributes hc attributes) fun _ => ?_
      exact .bind (settles_put j _) fun _ => .pure _
  | loop l =>
    rcases l with - | l
    · exact .bind (settles_begin i _) fun _ => .pure _
    · refine .bind (settles_begin i _) fun j => .bind (hc _) fun v => ?_
      cases v with
      | object items => exact .bind (settles_put j _) fun _ => .pure _
      | atom a => exact .pure _
      | method v name => exact .pure _
  | generator items => exact .fail rfl
  | «sealed» text => exact .fail rfl

end Parts

/-- Induction on the depth. -/
theorem settles_deepCopyIn (depth : Nat) (v : Value) : (deepCopyIn depth v).Settles := by
  induction depth generalizing v with
  | zero =>
    cases v with
    | atom a => exact .pure _
    | object i => exact .fail rfl
    | method v name => exact .fail rfl
  | succ depth ih =>
    cases v with
    | atom a => exact .pure _
    | object i =>
      refine .get_bind fun s => ?_
      split
      · exact .pure _
      · exact settles_copyObject ih i _
    | method v name =>
      rw [deepCopyIn]
      split
      · exact .bind (ih v) fun _ => .pure _
      · exact .pure _

theorem settles_deepCopy (v : Value) : (deepCopy v).Settles :=
  .get_bind fun s => settles_deepCopyIn s.heap.deepest v

end Copying

/-- A clone that ends for each value, with a copy or with a failure that can be caught. -/
def Clone.Settles (clone : Clone) : Prop := ∀ v, (clone v).Settles

/-- All rules for copying values settle. -/
theorem CloneRule.settles (rule : CloneRule) : Clone.Settles rule.apply := by
  intro v
  cases rule with
  | deep => exact Copying.settles_deepCopy v
  | identity => exact .pure v
  | picky =>
    refine .get_bind fun s => ?_
    split
    · exact .fail rfl
    · exact Copying.settles_make _
    · exact Copying.settles_make _
    · exact .pure _
  | logged => exact .bind (.change _) fun _ => Copying.settles_deepCopy v

end Stencil
