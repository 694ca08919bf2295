/-
Stencil/Proofs/Value/Filling.lean

How a copy is filled.  Suppose that values are copied along a relation between
states, and from states of a kind to states of that kind.  Then parts are copied
one after the other along the relation too, and if objects at a number may be
replaced along it, an object of every kind is filled there.
-/
import Stencil.Proofs.Value.Copy

namespace Stencil.Copying

variable {R : Copying → Copying → Prop} {K : Copying → Prop} {copy : Value → Run Copying Value}
  {s : Copying} {j : Nat}

/-- Values are copied along a relation, in states of a kind. -/
def Along (R : Copying → Copying → Prop) (K : Copying → Prop)
    (copy : Value → Run Copying Value) : Prop :=
  ∀ v s, K s → (copy v).Leads R s fun s' _ => K s'

/-- The object at a number is replaced along a relation, in states of a kind. -/
def Replaces (R : Copying → Copying → Prop) (K : Copying → Prop) (j : Nat) : Prop :=
  ∀ (s : Copying) o, K s →
    R s { s with heap := s.heap.put j o } ∧ K { s with heap := s.heap.put j o }

variable [IsPreorder Copying R] (along : Along R K copy)
include along

theorem leads_copyAll (xs : List Value) (hs : K s) :
    (copyAll copy xs).Leads R s fun s' _ => K s' := by
  induction xs generalizing s with
  | nil => exact .pure hs
  | cons v rest ih =>
    rw [copyAll]
    exact .bind (along v s hs) fun w s' _ hs' => .bind (ih hs') fun ws s'' _ hs'' => .pure hs''

theorem leads_copyAttributes (as : List (String × Value)) (hs : K s) :
    (copyAttributes copy as).Leads R s fun s' _ => K s' := by
  induction as generalizing s with
  | nil => exact .pure hs
  | cons a rest ih =>
    rw [copyAttributes]
    exact .bind (along a.2 s hs) fun w s' _ hs' => .bind (ih hs') fun ws s'' _ hs'' => .pure hs''

theorem leads_copyEntries (es : List (Value × Value)) (hs : K s) :
    (copyEntries copy es).Leads R s fun s' _ => K s' := by
  induction es generalizing s with
  | nil => exact .pure hs
  | cons e rest ih =>
    rw [copyEntries]
    refine .bind (along e.2 s hs) fun w s₁ _ h₁ => ?_
    refine .bind (along e.1 s₁ h₁) fun l s₂ _ h₂ => ?_
    exact .bind (ih h₂) fun ws s₃ _ h₃ => .pure h₃

theorem leads_copyItems (items : Option (List (Value × Value))) (hs : K s) :
    (copyItems copy items).Leads R s fun s' _ => K s' := by
  rcases items with - | es
  · exact .pure hs
  · exact .bind (leads_copyEntries along es hs) fun _ _ _ h₁ => .pure h₁

variable (replaces : Replaces R K j)
include replaces

theorem leads_fillList (xs : List Value) (hs : K s) :
    (fillList copy j xs).Leads R s fun s' _ => K s' := by
  induction xs generalizing s with
  | nil => exact .pure hs
  | cons v rest ih =>
    rw [fillList]
    refine .bind (along v s hs) fun w s₁ _ h₁ => ?_
    obtain ⟨hR, hK⟩ := replaces s₁ (.list (s₁.heap.listItems j ++ [w])) h₁
    exact .modify_bind hR (ih hK)

theorem leads_fillDict (es : List (Value × Value)) (hs : K s) :
    (fillDict copy j es).Leads R s fun s' _ => K s' := by
  induction es generalizing s with
  | nil => exact .pure hs
  | cons e rest ih =>
    rw [fillDict]
    refine .bind (along e.2 s hs) fun w s₁ _ h₁ => ?_
    refine .bind (along e.1 s₁ h₁) fun l s₂ _ h₂ => ?_
    obtain ⟨hR, hK⟩ := replaces s₂ (.dict (s₂.heap.setKey l w (dictEntries s₂.heap j))) h₂
    exact .modify_bind hR (ih hK)

theorem leads_fillThing (t : Thing) (hs : K s) :
    (fillThing copy t j).Leads R s fun s' _ => K s' := by
  rw [fillThing]
  refine .bind (leads_copyItems along t.items hs) fun items s₁ _ h₁ => ?_
  refine .bind (leads_copyAttributes along t.attributes h₁) fun attributes s₂ _ h₂ => ?_
  obtain ⟨hR, hK⟩ := replaces s₂ (.thing { t with attributes, items }) h₂
  exact .of_ok rfl hR hK

theorem leads_fillLoop (l : LoopState) (hs : K s) :
    (fillLoop copy l j).Leads R s fun s' _ => K s' := by
  rw [fillLoop]
  refine .bind (along (.object l.items) s hs) fun v s₁ _ h₁ => ?_
  cases v with
  | object items =>
    obtain ⟨hR, hK⟩ := replaces s₁ (.loop (some { l with items })) h₁
    exact .of_ok rfl hR hK
  | _ => exact .pure h₁

end Stencil.Copying
