/-
Stencil/Proofs/Render/Respect.lean

What a whole render keeps.  A render changes the world in a few ways only: it
notes lines, evaluates filters and goes through items, begins loops and moves
them, changes the context that the slot holds, and calls tags.  A relation
between worlds that these *respect* is kept by every expression and every node,
by induction on the tree.

The relation may be one that is known to hold only from worlds with an
invariant (`Inv`).  The change that depends on what came before is the move of a
loop: it is made only while the loop runs over its list (`Runs`).
-/
import Stencil.Proofs.Run
import Stencil.Render.Body

namespace Stencil

variable {host : Host} {r : Renderer} {Inv : World → Prop} {R : World → World → Prop}
  {Runs : Nat → Nat → World → Prop}

/-! ### Steps -/

namespace World

/-- The world when a loop over items was begun. -/
def withLoop (items : List Value) (w : World) : World :=
  { w with
    heap := ((w.heap.add (.list items)).2.add (.loop (some ⟨w.heap.objects.size, 0⟩))).2 }

/-- The world when a loop was moved. -/
def withTurn (items loop position : Nat) (w : World) : World :=
  { w with heap := w.heap.put loop (.loop (some ⟨items, position⟩)) }

/-- The world when the context that a slot holds was changed. -/
def changeIn (slot : Nat) (f : Context Value → Context Value) (w : World) : World :=
  { w with loans := w.loans.changeContext (w.loans.slotAt slot).context f }

end World

/-- Takes the innermost frame off the context that a slot holds. -/
def leaveScope (slot : Nat) : Run World Unit := do
  let w ← get
  let _ ← onLoans (Loans.popFrame (w.loans.slotAt slot).context)
  pure ()

theorem exec_leaveScope (slot : Nat) (w : World) :
    (leaveScope slot).exec w =
      match (w.contextIn slot).pop? with
      | none => (.error (.failed (.of Context.popBase)), w)
      | some (_, rest) => (.ok (), w.changeIn slot fun _ => rest) := by
  rw [leaveScope, Run.exec_get_bind, Run.exec_bind, onLoans, Run.exec_within, Loans.popFrame,
    Run.exec_get_bind, ← World.contextIn]
  rcases (w.contextIn slot).pop? with - | ⟨frame, rest⟩ <;> rfl

theorem exec_inScope {β : Type} (slot : Nat) (frame : Frame Value) (act : Run World β) (w : World) :
    (inScope slot frame act).exec w =
      (Run.ensuring act (leaveScope slot)).exec (w.changeIn slot (·.push frame)) := rfl

theorem exec_runLoop (host : Host) (slot : Nat) (target : String) (items : List Value)
    (body : Run World String) (w : World) :
    (runLoop host slot target items body).exec w =
      (runRounds slot target w.heap.objects.size (w.heap.objects.size + 1) body
        (items.length + host.growth) 0).exec (w.withLoop items) := rfl

/-- The steps of a render respect a relation between worlds. -/
structure Renderer.Respects (r : Renderer) (host : Host) (Inv : World → Prop)
    (R : World → World → Prop) (Runs : Nat → Nat → World → Prop) : Prop where
  inv : ∀ {w w'}, Inv w → R w w' → Inv w'
  assume : ∀ {w w'}, (Inv w → R w w') → R w w'
  line : ∀ w line, R w (w.changeRendering fun r => { r with line })
  filters : ∀ f vs w, R w { w with heap := ((host.filter f vs).exec w.heap).2 }
  items : ∀ v w, R w { w with heap := ((Heap.itemsOf v).exec w.heap).2 }
  begins : ∀ items {w}, Inv w → R w (w.withLoop items) ∧
    Runs w.heap.objects.size (w.heap.objects.size + 1) (w.withLoop items)
  turns : ∀ {items loop w} position, Runs items loop w → R w (w.withTurn items loop position)
  runs : ∀ {items loop w w'}, Runs items loop w → R w w' → Runs items loop w'
  changes : ∀ f w, R w (w.changeIn r.slot f)
  calls : ∀ {tag entry}, r.tags.get? tag = some entry → ∀ vs ns w,
    R w ((renderTag entry r.slot (host.clone r.clone)
      fun body lent => host.call body lent vs ns).exec w).2

variable [IsPreorder World R]

/-! ### Expressions -/

theorem keeps_undefined (slot : Nat) (name : String) (w : World) :
    (undefined slot name).Keeps R w :=
  .get_bind (.bind (.ofExcept _) fun _ _ _ _ => .fail _)

theorem keeps_unknown {β : Type} (what name : String) (line : Int) (advice : Option String)
    (code : Code) (w : World) : (unknown (β := β) what name line advice code).Keeps R w :=
  .get_bind (.fail _)

theorem keeps_memberOf (v : Value) (segment : String) (w : World) :
    (memberOf v segment).Keeps R w := by
  rw [memberOf]
  split
  · exact .pure trivial
  · exact .get_bind (.ofExcept _)

theorem keeps_holds (v : Value) (w : World) : (holds v).Keeps R w := .get_bind (.pure trivial)

/-- What filters do to a world is within a relation. -/
def Host.FiltersWithin (host : Host) (R : World → World → Prop) : Prop :=
  ∀ f vs w, R w { w with heap := ((host.filter f vs).exec w.heap).2 }

mutual

/-- An expression changes nothing but by its filters.  Induction on the expression. -/
theorem evaluate_keeps (filters : host.FiltersWithin R) (strict : Bool) :
    ∀ (e : Expr Value) (w : World), (evaluate host r strict e).Keeps R w
  | .const _ _, w => by
    rw [evaluate]
    exact .pure trivial
  | .name _ name, w => by
    rw [evaluate]
    refine .get_bind ?_
    split
    · exact .pure trivial
    · split
      · exact keeps_undefined r.slot name w
      · exact .pure trivial
  | .member _ object segment, w => by
    rw [evaluate]
    refine .bind (evaluate_keeps filters strict object w) fun v w₁ _ _ => ?_
    refine .bind (keeps_memberOf v segment w₁) fun found w₂ _ _ => ?_
    split
    · exact .pure trivial
    · split
      · exact .get_bind (.bind (.ofExcept _) fun _ _ _ _ => keeps_undefined r.slot _ _)
      · exact .pure trivial
  | .not _ operand, w => by
    rw [evaluate]
    exact .bind (evaluate_keeps filters strict operand w) fun _ _ _ _ => .get_bind (.pure trivial)
  | .filter place value name args, w => by
    rw [evaluate]
    split
    · exact keeps_unknown "filter" name place.line none .filterError w
    · refine .bind (evaluate_keeps filters _ value w) fun v w₁ _ _ => ?_
      refine .bind (evaluateAll_keeps filters strict args w₁) fun vs w₂ _ _ => ?_
      exact .of_exec rfl (filters _ _ w₂) fun _ _ => trivial
  | .bare _, w => by
    rw [evaluate]
    exact .fail _
  | .node _, w => by
    rw [evaluate]
    exact .fail _

theorem evaluateAll_keeps (filters : host.FiltersWithin R) (strict : Bool) :
    ∀ (es : List (Expr Value)) (w : World), (evaluateAll host r strict es).Keeps R w
  | [], w => by
    rw [evaluateAll]
    exact .pure trivial
  | e :: rest, w => by
    rw [evaluateAll]
    refine .bind (evaluate_keeps filters strict e w) fun v w₁ _ _ => ?_
    exact .bind (evaluateAll_keeps filters strict rest w₁) fun _ _ _ _ => .pure trivial

end

theorem evaluateNamed_keeps (filters : host.FiltersWithin R) (es : List (String × Expr Value))
    (w : World) : (evaluateNamed host r es).Keeps R w := by
  induction es generalizing w with
  | nil => exact .pure trivial
  | cons e rest ih =>
    rw [evaluateNamed]
    refine .bind (evaluate_keeps filters r.strict e.2 w) fun v w₁ _ _ => ?_
    exact .bind (ih w₁) fun _ _ _ _ => .pure trivial

namespace Renderer.Respects

theorem keeps_evaluate (k : r.Respects host Inv R Runs) (strict : Bool) (e : Expr Value)
    (w : World) : (evaluate host r strict e).Keeps R w := evaluate_keeps k.filters strict e w

theorem keeps_evaluateAll (k : r.Respects host Inv R Runs) (strict : Bool)
    (es : List (Expr Value)) (w : World) : (evaluateAll host r strict es).Keeps R w :=
  evaluateAll_keeps k.filters strict es w

variable (k : r.Respects host Inv R Runs)
include k

theorem keeps_evaluateNamed (es : List (String × Expr Value)) (w : World) :
    (evaluateNamed host r es).Keeps R w := evaluateNamed_keeps k.filters es w

/-! ### Single steps -/

omit [IsPreorder World R] in
theorem keeps_atLine (line : Int) (w : World) : (atLine line).Keeps R w :=
  .of_exec rfl (k.line w line) fun _ _ => trivial

omit [IsPreorder World R] in
theorem keeps_items (v : Value) (w : World) : (onHeap (Heap.itemsOf v)).Keeps R w :=
  .of_exec rfl (k.items v w) fun _ _ => trivial

omit [IsPreorder World R] in
theorem keeps_assign (name : String) (v : Value) (w : World) :
    (assign r.slot name v).Keeps R w :=
  .of_exec rfl (k.changes (·.set name v) w) fun _ _ => trivial

/-- The frame is taken off the context that the slot holds then. -/
theorem keeps_leaveScope (w : World) : (leaveScope r.slot).Keeps R w := by
  have e := exec_leaveScope r.slot w
  rcases ep : (w.contextIn r.slot).pop? with - | ⟨frame, rest⟩ <;> rw [ep] at e
  · exact .of_error e (refl_of R w)
  · exact .of_ok e (k.changes _ w) trivial

/-! ### Scopes and loops -/

theorem keeps_inScope (frame : Frame Value) {act : Run World String}
    (hact : ∀ w, R w (w.changeIn r.slot (·.push frame)) →
      act.Keeps R (w.changeIn r.slot (·.push frame))) (w : World) :
    (inScope r.slot frame act).Keeps R w := by
  have hpush := k.changes (·.push frame) w
  refine .of_step (exec_inScope r.slot frame act w) hpush ?_
  exact .keeps_ensuring (hact w hpush) fun w₂ _ => k.keeps_leaveScope w₂

/-- Induction on the number of rounds. -/
theorem keeps_runRounds (target : String) {items loop : Nat} {body : Run World String}
    (hbody : ∀ w, body.Keeps R w) (rounds position : Nat) {w : World} (hr : Runs items loop w) :
    (runRounds r.slot target items loop body rounds position).Keeps R w := by
  induction rounds generalizing position w with
  | zero =>
    rw [runRounds]
    refine .get_bind ?_
    split
    · exact .pure trivial
    · exact .of_error rfl (refl_of R w)
  | succ rounds ih =>
    rw [runRounds]
    refine .get_bind ?_
    split
    · exact .pure trivial
    · next item _ =>
      have hturn : R w (w.withTurn items loop position) := k.turns position hr
      have hr₁ := k.runs hr hturn
      refine .set_bind hturn ?_
      refine .bind (k.keeps_inScope _ (fun w _ => hbody _) _) fun text w₁ h₁ _ => ?_
      exact .bind (ih (position + 1) (k.runs hr₁ h₁)) fun _ _ _ _ => .pure trivial

theorem keeps_runLoop (target : String) (items : List Value) {body : Run World String}
    (hbody : ∀ w, body.Keeps R w) (w : World) :
    (runLoop host r.slot target items body).Keeps R w where
  state := k.assume fun hw => by
    obtain ⟨hbegin, hr⟩ := k.begins items hw
    rw [exec_runLoop]
    exact trans_of R hbegin (k.keeps_runRounds target hbody _ _ hr).state
  result _ _ _ := trivial

theorem keeps_renderCall (line : Int) (tag : String) (args : List (Expr Value))
    (named : List (String × Expr Value)) (w : World) :
    (renderCall host r line tag args named).Keeps R w := by
  rw [renderCall]
  split
  · exact keeps_unknown ..
  · next entry hentry =>
    refine .bind (keeps_evaluateAll k r.strict args w) fun vs w₁ _ _ => ?_
    refine .bind (k.keeps_evaluateNamed named w₁) fun ns w₂ _ _ => ?_
    exact ⟨k.calls hentry vs (.ofList ns) w₂, fun _ _ _ => trivial⟩

omit k

/-! ### Nodes -/

mutual

/-- Induction on the node. -/
theorem keeps_renderNode (k : r.Respects host Inv R Runs) :
    ∀ (node : Node Value) (w : World), (renderNode host r node).Keeps R w
  | .data _ _, w => by
    rw [renderNode]
    exact .pure trivial
  | .output _ value, w => by
    rw [renderNode]
    refine .bind (keeps_evaluate k r.strict value w) fun v w₁ _ _ => ?_
    exact .get_bind (.ofExcept _)
  | .choice _ test body others otherwise, w => by
    rw [renderNode]
    refine .bind (keeps_evaluate k r.strict test w) fun v w₁ _ _ => ?_
    refine .bind (keeps_holds v w₁) fun b w₂ _ _ => ?_
    split
    · exact keeps_renderNodes k body w₂
    · exact keeps_renderBranches k (fun w => keeps_renderNodes k otherwise w) others w₂
  | .loop _ target items body empty, w => by
    rw [renderNode]
    refine .bind (keeps_evaluate k r.strict items w) fun v w₁ _ _ => ?_
    refine .bind (k.keeps_items v w₁) fun vs w₂ _ _ => ?_
    split
    · exact keeps_renderNodes k empty w₂
    · exact k.keeps_runLoop target vs (fun w => keeps_renderNodes k body w) w₂
  | .scope _ bindings body, w => by
    rw [renderNode]
    refine .bind (k.keeps_evaluateNamed bindings w) fun es w₁ _ _ => ?_
    exact k.keeps_inScope _ (fun w _ => keeps_renderNodes k body _) w₁
  | .assign _ target value, w => by
    rw [renderNode]
    refine .bind (keeps_evaluate k r.strict value w) fun v w₁ _ _ => ?_
    exact .bind (k.keeps_assign target v w₁) fun _ _ _ _ => .pure trivial
  | .call place tag args named target, w => by
    rw [renderNode]
    refine .bind (k.keeps_renderCall place.line tag args named w) fun text w₁ _ _ => ?_
    split
    · exact .bind (k.keeps_assign _ _ w₁) fun _ _ _ _ => .pure trivial
    · exact .pure trivial
  | .bare _ _, w => by
    rw [renderNode]
    exact .fail _
  | .tree _ _ _, w => by
    rw [renderNode]
    exact .fail _
  | .expr _ _, w => by
    rw [renderNode]
    exact .fail _

theorem keeps_renderNodes (k : r.Respects host Inv R Runs) :
    ∀ (nodes : List (Node Value)) (w : World), (renderNodes host r nodes).Keeps R w
  | [], w => by
    rw [renderNodes]
    exact .pure trivial
  | node :: rest, w => by
    rw [renderNodes]
    refine .bind (k.keeps_atLine node.place.line w) fun _ w₁ _ _ => ?_
    refine .bind (keeps_renderNode k node w₁) fun text w₂ _ _ => ?_
    exact .bind (keeps_renderNodes k rest w₂) fun _ _ _ _ => .pure trivial

theorem keeps_renderBranches (k : r.Respects host Inv R Runs) {otherwise : Run World String}
    (hotherwise : ∀ w, otherwise.Keeps R w) :
    ∀ (branches : List (Branch Value)) (w : World),
      (renderBranches host r otherwise branches).Keeps R w
  | [], w => by
    rw [renderBranches]
    exact hotherwise w
  | .mk test body :: rest, w => by
    rw [renderBranches]
    refine .bind (keeps_evaluate k r.strict test w) fun v w₁ _ _ => ?_
    refine .bind (keeps_holds v w₁) fun b w₂ _ _ => ?_
    split
    · exact keeps_renderNodes k body w₂
    · exact keeps_renderBranches k hotherwise rest w₂

end

end Renderer.Respects

end Stencil
