/-
Stencil/Proofs/Render/Alike.lean

Two renders side by side.  They start in worlds that differ in contexts only,
and not in the context that the slot holds (`Alike`).  What a render looks at is
the heap, its own place, and the context in its slot; so as long as the tags of
both do alike, both give the same text or the same fault, and leave worlds that
are alike again (`Renderer.Concurs.agree_renderNodes`).

The slot may come to hold another context, a copy.  After a tag that did not
fail no handle that was kept reaches the context that the slot holds then
(`World.Parted`); a render that has failed calls no tag any more, so nothing of
that kind is needed from there on (`Agree`).
-/
import Stencil.Proofs.Render.Discipline

namespace Stencil

variable {α β : Type} {host host' : Host} {r : Renderer} {slot c : Nat} {w w' v v' : World}

/-! ### Worlds that are alike -/

/-- The loans with other contexts. -/
def Loans.withContexts (t : Table (Context Value)) (l : Loans Value) : Loans Value :=
  { l with contexts := t }

/-- The world with other contexts. -/
def World.withContexts (t : Table (Context Value)) (w : World) : World :=
  { w with loans := w.loans.withContexts t }

/-- The worlds differ in contexts only, and not in the context `c`. -/
inductive Alike (c : Nat) (w : World) : World → Prop
  | contexts (t : Table (Context Value)) (size : t.size = w.loans.contexts.size)
      (same : t.get? c = w.loans.contexts.get? c) : Alike c w (w.withContexts t)

theorem Alike.eq_withContexts (a : Alike c w v) : v = w.withContexts v.loans.contexts := by
  obtain ⟨x, -, -⟩ := a
  rfl

theorem Alike.kept (a : Alike c w v) : v.kept = w.kept := by
  obtain ⟨x, -, -⟩ := a
  rfl

/-- The kept handles are on cells that are not locked and do not hold the context of the slot. -/
def World.Parted (slot : Nat) (w : World) : Prop :=
  ∀ h ∈ w.kept, (w.loans.cellOf h).locked = false ∧
    (w.loans.cellOf h).context ≠ some (w.loans.slotAt slot).context

theorem World.Parted.congr (p : w.Parted slot) (hl : w'.loans = w.loans) (hk : w'.kept = w.kept) :
    w'.Parted slot := by
  intro h hh
  rw [hl]
  exact p h (hk ▸ hh)

/-- Two worlds that are alike but for contexts that the slot does not hold. -/
structure Twins (slot : Nat) (w v : World) : Prop where
  fit : w.Fit slot
  alike : Alike (w.loans.slotAt slot).context w v

namespace Twins

theorem refl (f : w.Fit slot) : Twins slot w w := ⟨f, .contexts w.loans.contexts rfl rfl⟩

theorem contextIn (t : Twins slot w v) : v.contextIn slot = w.contextIn slot := by
  obtain ⟨-, ⟨x, -, same⟩⟩ := t
  exact congrArg (·.getD .empty) same

/-- The same was done in both worlds, and nothing to what is on loan. -/
theorem step (t : Twins slot w v) (hl : w'.loans = w.loans) (hk : w'.kept = w.kept) :
    Twins slot w' (w'.withContexts v.loans.contexts) := by
  obtain ⟨f, ⟨x, size, same⟩⟩ := t
  refine ⟨f.congr hl hk, .contexts x ?_ ?_⟩
  · rw [hl]
    exact size
  · rw [hl]
    exact same

/-- The context in the slot was changed in the same way. -/
theorem changeIn (t : Twins slot w v) (g : Context Value → Context Value) :
    Twins slot (w.changeIn slot g) (v.changeIn slot g) := by
  obtain ⟨f, ⟨x, size, same⟩⟩ := t
  refine ⟨f.changeIn g, .contexts (x.modify (w.loans.slotAt slot).context g) ?_ ?_⟩
  · rw [Table.size_modify, size]
    exact (Table.size_modify ..).symm
  · let c := (w.loans.slotAt slot).context
    show (x.modify c g).get? c = (w.loans.contexts.modify c g).get? c
    rw [Table.get?_modify, Table.get?_modify, same]

end Twins

/-! ### Runs that agree -/

/-- Two runs, from two worlds, end with the same result in worlds that are alike, and in which the
kept handles are parted from the slot unless the runs fail. -/
structure Agree (slot : Nat) (w v : World) (act act' : Run World α) : Prop where
  result : (act'.exec v).1 = (act.exec w).1
  twins : Twins slot (act.exec w).2 (act'.exec v).2
  parted : ∀ a w', act.exec w = (.ok a, w') → w'.Parted slot

namespace Agree

variable {act act' : Run World α}

theorem of_exec {x : Except Stop α} (e : act.exec w = (x, w')) (e' : act'.exec v = (x, v'))
    (t : Twins slot w' v') (p : ∀ a, x = .ok a → w'.Parted slot) : Agree slot w v act act' where
  result := by rw [e, e']
  twins := by
    rw [e, e']
    exact t
  parted a u ea := by
    rw [e] at ea
    obtain ⟨hx, rfl⟩ := Prod.mk.inj ea
    exact p a hx

theorem bind {f f' : α → Run World β} (h : Agree slot w v act act')
    (hf : ∀ a w' v', Twins slot w' v' → w'.Parted slot → Agree slot w' v' (f a) (f' a)) :
    Agree slot w v (act >>= f) (act' >>= f') := by
  have hr := h.result
  have ht := h.twins
  rcases e : act.exec w with ⟨x | a, w'⟩ <;> rcases e' : act'.exec v with ⟨x', v'⟩ <;>
    rw [e, e'] at hr ht <;> obtain rfl : x' = _ := hr
  · exact of_exec (Run.exec_bind_error e) (Run.exec_bind_error e') ht nofun
  · have h' := hf a w' v' ht (h.parted a w' e)
    refine of_exec (x := ((f a).exec w').1) ?_ ?_ h'.twins
      fun b eb => h'.parted b _ (Prod.ext eb rfl)
    · rw [Run.exec_bind_ok e]
    · rw [Run.exec_bind_ok e', ← h'.result]

theorem get_bind {f f' : World → Run World α} (h : Agree slot w v (f w) (f' v)) :
    Agree slot w v ((get : Run World World) >>= f) ((get : Run World World) >>= f') :=
  ⟨h.result, h.twins, h.parted⟩

theorem fail (t : Twins slot w v) (f : Fault) :
    Agree slot w v (Run.fail f : Run World α) (Run.fail f) := of_exec rfl rfl t nofun

/-- A part that does nothing to what is on loan, and the same in both worlds. -/
theorem of_loans {x : Except Stop α} (t : Twins slot w v) (p : w.Parted slot)
    (e : act.exec w = (x, w')) (e' : act'.exec v = (x, w'.withContexts v.loans.contexts))
    (hl : w'.loans = w.loans) (hk : w'.kept = w.kept) : Agree slot w v act act' :=
  of_exec e e' (t.step hl hk) fun _ _ => p.congr hl hk

theorem pure (t : Twins slot w v) (p : w.Parted slot) (a : α) :
    Agree slot w v (Pure.pure a : Run World α) (Pure.pure a) := of_exec rfl rfl t fun _ _ => p

theorem ofExcept (t : Twins slot w v) (p : w.Parted slot) (x : Except Fault α) :
    Agree slot w v (Run.ofExcept x) (Run.ofExcept x) :=
  of_exec (Run.exec_ofExcept x w) (Run.exec_ofExcept x v) t fun _ _ => p

theorem failWith (t : Twins slot w v) (f : Failure) :
    Agree slot w v (Run.failWith f : Run World α) (Run.failWith f) := of_exec rfl rfl t nofun

theorem unfinished (t : Twins slot w v) :
    Agree slot w v (Run.unfinished : Run World α) Run.unfinished := of_exec rfl rfl t nofun

/-- The handlers are left with worlds that are alike; no more is known after a failure. -/
theorem catching {handler handler' : Failure → Run World α} (h : Agree slot w v act act')
    (hh : ∀ f w' v', Twins slot w' v' → Agree slot w' v' (handler f) (handler' f)) :
    Agree slot w v (Run.catching act handler) (Run.catching act' handler') := by
  have hr := h.result
  have ht := h.twins
  rcases e : act.exec w with ⟨(f | -) | a, w'⟩ <;> rcases e' : act'.exec v with ⟨x', v'⟩ <;>
    rw [e, e'] at hr ht <;> obtain rfl : x' = _ := hr
  · have h' := hh f w' v' ht
    by_cases hf : f.fault.catchable = true
    · have ec : (Run.catching act handler).exec w = (handler f).exec w' := by
        rw [Run.exec_catching, e]
        exact if_pos hf
      have ec' : (Run.catching act' handler').exec v = (handler' f).exec v' := by
        rw [Run.exec_catching, e']
        exact if_pos hf
      exact ⟨by rw [ec, ec', h'.result], by rw [ec, ec']; exact h'.twins,
        fun a u eu => h'.parted a u (ec ▸ eu)⟩
    · refine of_exec (x := .error (.failed f)) ?_ ?_ ht nofun
      · rw [Run.exec_catching, e]
        exact if_neg hf
      · rw [Run.exec_catching, e']
        exact if_neg hf
  · exact of_exec (x := .error .unfinished) (by rw [Run.exec_catching, e])
      (by rw [Run.exec_catching, e']) ht nofun
  · exact of_exec (Run.exec_catching_ok e) (Run.exec_catching_ok e') ht fun _ _ => h.parted a w' e

/-- The same change of the context in the slot. -/
theorem changeIn {x : Except Stop α} (t : Twins slot w v) (p : w.Parted slot)
    (g : Context Value → Context Value) (e : act.exec w = (x, w.changeIn slot g))
    (e' : act'.exec v = (x, v.changeIn slot g)) : Agree slot w v act act' :=
  of_exec e e' (t.changeIn g) fun _ _ => p

end Agree

/-- A last step that does nothing to what is on loan. -/
theorem Agree.ensuring_step {act act' : Run World α} {last : Run World Unit} {g : World → World}
    (hlast : ∀ u, last.exec u = (.ok (), g u)) (hl : ∀ u, (g u).loans = u.loans)
    (hk : ∀ u, (g u).kept = u.kept) (hg : ∀ x u, g (u.withContexts x) = (g u).withContexts x)
    (h : Agree slot w v act act') :
    Agree slot w v (Run.ensuring act last) (Run.ensuring act' last) := by
  have ht : Twins slot (g (act.exec w).2) (g (act'.exec v).2) := by
    have ht := h.twins
    generalize (act.exec w).2 = u, (act'.exec v).2 = u' at ht ⊢
    obtain ⟨x, -, -⟩ := ht.alike
    rw [hg]
    exact ht.step (hl u) (hk u)
  refine .of_exec (x := (act.exec w).1) (Run.exec_ensuring_ok (hlast _)) ?_ ht
    fun a ea => (h.parted a (act.exec w).2 (Prod.ext ea rfl)).congr (hl _) (hk _)
  rw [Run.exec_ensuring_ok (hlast _), h.result]

/-! ### Expressions -/

theorem agree_undefined (t : Twins slot w v) (p : w.Parted slot) (name : String) :
    Agree slot w v (undefined slot name) (undefined slot name) := by
  rw [undefined]
  refine .get_bind ?_
  rw [t.contextIn]
  obtain ⟨x, -, -⟩ := t.alike
  exact .bind (.ofExcept t p _) fun _ _ _ t' _ => .fail t' _

theorem agree_unknown (t : Twins slot w v) (what name : String) (line : Int)
    (advice : Option String) (code : Code) :
    Agree slot w v (unknown (β := α) what name line advice code)
      (unknown what name line advice code) := by
  obtain ⟨x, -, -⟩ := t.alike
  exact .get_bind (.fail t _)

theorem agree_memberOf (t : Twins slot w v) (p : w.Parted slot) (a : Value) (segment : String) :
    Agree slot w v (memberOf a segment) (memberOf a segment) := by
  rw [memberOf]
  split
  · exact .pure t p none
  · obtain ⟨x, -, -⟩ := t.alike
    exact .get_bind (.ofExcept t p _)

theorem agree_onHeap (t : Twins slot w v) (p : w.Parted slot) (act : Run Heap α) :
    Agree slot w v (onHeap act) (onHeap act) := by
  obtain ⟨x, -, -⟩ := t.alike
  exact .of_loans t p rfl rfl rfl rfl

mutual

/-- Induction on the expression. -/
theorem agree_evaluate (hf : host'.filter = host.filter) (strict : Bool) :
    ∀ (e : Expr Value) {w v : World}, Twins r.slot w v → w.Parted r.slot →
      Agree r.slot w v (evaluate host r strict e) (evaluate host' r strict e)
  | .const _ value, w, v, t, p => by
    rw [evaluate, evaluate]
    exact .pure t p value
  | .name _ name, w, v, t, p => by
    rw [evaluate, evaluate]
    refine .get_bind ?_
    rw [t.contextIn]
    split
    · exact .pure t p _
    · split
      · exact agree_undefined t p name
      · exact .pure t p _
  | .member _ object segment, w, v, t, p => by
    rw [evaluate, evaluate]
    refine .bind (agree_evaluate hf strict object t p) fun a w₁ v₁ t₁ p₁ => ?_
    refine .bind (agree_memberOf t₁ p₁ a segment) fun found w₂ v₂ t₂ p₂ => ?_
    split
    · exact .pure t₂ p₂ _
    · split
      · refine .get_bind ?_
        obtain ⟨x, -, -⟩ := t₂.alike
        exact .bind (.ofExcept t₂ p₂ _) fun _ _ _ t₃ p₃ => agree_undefined t₃ p₃ _
      · exact .pure t₂ p₂ _
  | .not _ operand, w, v, t, p => by
    rw [evaluate, evaluate]
    refine .bind (agree_evaluate hf strict operand t p) fun a w₁ v₁ t₁ p₁ => .get_bind ?_
    obtain ⟨x, -, -⟩ := t₁.alike
    exact .pure t₁ p₁ _
  | .filter place value name args, w, v, t, p => by
    rw [evaluate, evaluate]
    split
    · exact agree_unknown t "filter" name place.line none .filterError
    · refine .bind (agree_evaluate hf _ value t p) fun a w₁ v₁ t₁ p₁ => ?_
      refine .bind (agree_evaluateAll hf strict args t₁ p₁) fun as w₂ v₂ t₂ p₂ => ?_
      rw [hf]
      exact agree_onHeap t₂ p₂ _
  | .bare _, w, v, t, p => by
    rw [evaluate, evaluate]
    exact .fail t _
  | .node _, w, v, t, p => by
    rw [evaluate, evaluate]
    exact .fail t _

theorem agree_evaluateAll (hf : host'.filter = host.filter) (strict : Bool) :
    ∀ (es : List (Expr Value)) {w v : World}, Twins r.slot w v → w.Parted r.slot →
      Agree r.slot w v (evaluateAll host r strict es) (evaluateAll host' r strict es)
  | [], w, v, t, p => by
    rw [evaluateAll, evaluateAll]
    exact .pure t p _
  | e :: rest, w, v, t, p => by
    rw [evaluateAll, evaluateAll]
    refine .bind (agree_evaluate hf strict e t p) fun a w₁ v₁ t₁ p₁ => ?_
    exact .bind (agree_evaluateAll hf strict rest t₁ p₁) fun as _ _ t₂ p₂ => .pure t₂ p₂ _

end

theorem agree_evaluateNamed (hf : host'.filter = host.filter) (es : List (String × Expr Value))
    (t : Twins r.slot w v) (p : w.Parted r.slot) :
    Agree r.slot w v (evaluateNamed host r es) (evaluateNamed host' r es) := by
  induction es generalizing w v with
  | nil => exact .pure t p _
  | cons e rest ih =>
    rw [evaluateNamed, evaluateNamed]
    refine .bind (agree_evaluate hf r.strict e.2 t p) fun a w₁ v₁ t₁ p₁ => ?_
    exact .bind (ih t₁ p₁) fun as _ _ t₂ p₂ => .pure t₂ p₂ _

/-! ### Scopes and loops -/

/-- A scope is left in both worlds, after runs that agree. -/
theorem Agree.ensuring_leaveScope {act act' : Run World α} (h : Agree slot w v act act') :
    Agree slot w v (Run.ensuring act (leaveScope slot)) (Run.ensuring act' (leaveScope slot)) := by
  have hin := h.twins.contextIn
  have e := exec_leaveScope slot (act.exec w).2
  have e' := exec_leaveScope slot (act'.exec v).2
  rw [hin] at e'
  rcases ep : ((act.exec w).2.contextIn slot).pop? with - | ⟨frame, rest⟩ <;> rw [ep] at e e'
  · refine of_exec (x := .error (.failed (.of Context.popBase))) ?_ ?_ h.twins nofun
    · rw [Run.exec_ensuring, e]
    · rw [Run.exec_ensuring, e']
  · refine of_exec (x := (act.exec w).1) (Run.exec_ensuring_ok e) ?_
      (h.twins.changeIn fun _ => rest) fun a ea => h.parted a (act.exec w).2 (Prod.ext ea rfl)
    rw [Run.exec_ensuring_ok e', h.result]

theorem agree_inScope (t : Twins slot w v) (p : w.Parted slot) (frame : Frame Value)
    {act act' : Run World String}
    (h : ∀ {w v}, Twins slot w v → w.Parted slot → Agree slot w v act act') :
    Agree slot w v (inScope slot frame act) (inScope slot frame act') := by
  have hpush : (w.changeIn slot (·.push frame)).Parted slot := p
  have h' := (h (t.changeIn (·.push frame)) hpush).ensuring_leaveScope
  exact ⟨h'.result, h'.twins, h'.parted⟩

/-- Induction on the number of rounds. -/
theorem agree_runRounds {target : String} {items loop : Nat} {body body' : Run World String}
    (h : ∀ {w v}, Twins slot w v → w.Parted slot → Agree slot w v body body')
    (rounds position : Nat) (t : Twins slot w v) (p : w.Parted slot) :
    Agree slot w v (runRounds slot target items loop body rounds position)
      (runRounds slot target items loop body' rounds position) := by
  have hitems : v.heap.listItems items = w.heap.listItems items := by
    obtain ⟨x, -, -⟩ := t.alike
    rfl
  induction rounds generalizing position w v with
  | zero =>
    rw [runRounds, runRounds]
    refine .get_bind ?_
    rw [hitems]
    split
    · exact .pure t p _
    · exact .unfinished t
  | succ rounds ih =>
    rw [runRounds, runRounds]
    refine .get_bind ?_
    rw [hitems]
    split
    · exact .pure t p _
    · next item _ =>
      have hturn : Agree slot w v (set (w.withTurn items loop position) : Run World PUnit)
          (set (v.withTurn items loop position)) := by
        obtain ⟨x, -, -⟩ := t.alike
        exact .of_loans t p rfl rfl rfl rfl
      refine .bind hturn fun _ w₁ v₁ t₁ p₁ => ?_
      refine .bind (agree_inScope t₁ p₁ (roundFrame target item loop) h) fun text w₂ v₂ t₂ p₂ => ?_
      have hitems₂ : v₂.heap.listItems items = w₂.heap.listItems items := by
        obtain ⟨x, -, -⟩ := t₂.alike
        rfl
      exact .bind (ih (position + 1) t₂ p₂ hitems₂) fun _ _ _ t₃ p₃ => .pure t₃ p₃ _

/-! ### Nodes -/

/-- Two hosts between which a render cannot tell: they differ in what tags do, and there they
agree. -/
structure Renderer.Concurs (r : Renderer) (host host' : Host) : Prop where
  filter : host'.filter = host.filter
  growth : host'.growth = host.growth
  calls : ∀ (entry : TagEntry) vs ns {w v : World}, Twins r.slot w v → w.Parted r.slot →
    Agree r.slot w v
      (renderTag entry r.slot (host.clone r.clone) fun body lent => host.call body lent vs ns)
      (renderTag entry r.slot (host'.clone r.clone) fun body lent => host'.call body lent vs ns)

namespace Renderer.Concurs

section Steps

variable (k : r.Concurs host host') (t : Twins r.slot w v) (p : w.Parted r.slot)
include k t p

omit k in
theorem agree_assign (name : String) (a : Value) :
    Agree r.slot w v (assign r.slot name a) (assign r.slot name a) :=
  .changeIn t p (·.set name a) rfl rfl

theorem agree_renderCall (line : Int) (tag : String) (args : List (Expr Value))
    (named : List (String × Expr Value)) :
    Agree r.slot w v (renderCall host r line tag args named)
      (renderCall host' r line tag args named) := by
  rw [renderCall, renderCall]
  split
  · exact agree_unknown t ..
  · refine .bind (agree_evaluateAll k.filter r.strict args t p) fun vs w₁ v₁ t₁ p₁ => ?_
    refine .bind (agree_evaluateNamed k.filter named t₁ p₁) fun ns w₂ v₂ t₂ p₂ => ?_
    exact k.calls _ vs (.ofList ns) t₂ p₂

/-- A test, and then one of two ways. -/
theorem agree_test (test : Expr Value) {yes yes' no no' : Run World String}
    (hyes : ∀ {w v}, Twins r.slot w v → w.Parted r.slot → Agree r.slot w v yes yes')
    (hno : ∀ {w v}, Twins r.slot w v → w.Parted r.slot → Agree r.slot w v no no') :
    Agree r.slot w v
      (do
        let a ← evaluate host r r.strict test
        if ← holds a then yes else no)
      (do
        let a ← evaluate host' r r.strict test
        if ← holds a then yes' else no') := by
  refine .bind (agree_evaluate k.filter r.strict test t p) fun a w₁ v₁ t₁ p₁ => ?_
  have hholds : Agree r.slot w₁ v₁ (holds a) (holds a) := by
    obtain ⟨x, -, -⟩ := t₁.alike
    exact .get_bind (.pure t₁ p₁ _)
  refine .bind hholds fun b w₂ v₂ t₂ p₂ => ?_
  split
  · exact hyes t₂ p₂
  · exact hno t₂ p₂

end Steps

mutual

/-- Induction on the node. -/
theorem agree_renderNode (k : r.Concurs host host') :
    ∀ (node : Node Value) {w v : World}, Twins r.slot w v → w.Parted r.slot →
      Agree r.slot w v (renderNode host r node) (renderNode host' r node)
  | .data _ _, w, v, t, p => by
    rw [renderNode, renderNode]
    exact .pure t p _
  | .output _ value, w, v, t, p => by
    rw [renderNode, renderNode]
    refine .bind (agree_evaluate k.filter r.strict value t p) fun a w₁ v₁ t₁ p₁ => ?_
    obtain ⟨x, -, -⟩ := t₁.alike
    exact .get_bind (.ofExcept t₁ p₁ _)
  | .choice _ test body others otherwise, w, v, t, p => by
    rw [renderNode, renderNode]
    exact k.agree_test t p test (agree_renderNodes k body) fun t p =>
      agree_renderBranches k (agree_renderNodes k otherwise) others t p
  | .loop _ target items body empty, w, v, t, p => by
    rw [renderNode, renderNode]
    refine .bind (agree_evaluate k.filter r.strict items t p) fun a w₁ v₁ t₁ p₁ => ?_
    refine .bind (agree_onHeap t₁ p₁ _) fun vs w₂ v₂ t₂ p₂ => ?_
    split
    · exact agree_renderNodes k empty t₂ p₂
    · rw [runLoop, runLoop, k.growth]
      have hbegin : Agree r.slot w₂ v₂ (beginLoop vs) (beginLoop vs) := by
        obtain ⟨x, -, -⟩ := t₂.alike
        exact .of_loans t₂ p₂ rfl rfl rfl rfl
      exact .bind hbegin fun _ _ _ t₃ p₃ =>
        agree_runRounds (agree_renderNodes k body) _ 0 t₃ p₃
  | .scope _ bindings body, w, v, t, p => by
    rw [renderNode, renderNode]
    refine .bind (agree_evaluateNamed k.filter bindings t p) fun es w₁ v₁ t₁ p₁ => ?_
    exact agree_inScope t₁ p₁ _ (agree_renderNodes k body)
  | .assign _ target value, w, v, t, p => by
    rw [renderNode, renderNode]
    refine .bind (agree_evaluate k.filter r.strict value t p) fun a w₁ v₁ t₁ p₁ => ?_
    exact .bind (agree_assign t₁ p₁ target a) fun _ _ _ t₂ p₂ => .pure t₂ p₂ _
  | .call place tag args named target, w, v, t, p => by
    rw [renderNode, renderNode]
    refine .bind (k.agree_renderCall t p place.line tag args named) fun text w₁ v₁ t₁ p₁ => ?_
    split
    · exact .bind (agree_assign t₁ p₁ _ _) fun _ _ _ t₂ p₂ => .pure t₂ p₂ _
    · exact .pure t₁ p₁ _
  | .bare _ _, w, v, t, p => by
    rw [renderNode, renderNode]
    exact .fail t _
  | .tree _ _ _, w, v, t, p => by
    rw [renderNode, renderNode]
    exact .fail t _
  | .expr _ _, w, v, t, p => by
    rw [renderNode, renderNode]
    exact .fail t _

theorem agree_renderNodes (k : r.Concurs host host') :
    ∀ (nodes : List (Node Value)) {w v : World}, Twins r.slot w v → w.Parted r.slot →
      Agree r.slot w v (renderNodes host r nodes) (renderNodes host' r nodes)
  | [], w, v, t, p => by
    rw [renderNodes, renderNodes]
    exact .pure t p _
  | node :: rest, w, v, t, p => by
    rw [renderNodes, renderNodes]
    have hline : Agree r.slot w v (atLine node.place.line) (atLine node.place.line) := by
      obtain ⟨x, -, -⟩ := t.alike
      exact .of_loans t p rfl rfl rfl rfl
    refine .bind hline fun _ w₁ v₁ t₁ p₁ => ?_
    refine .bind (agree_renderNode k node t₁ p₁) fun text w₂ v₂ t₂ p₂ => ?_
    exact .bind (agree_renderNodes k rest t₂ p₂) fun more _ _ t₃ p₃ => .pure t₃ p₃ _

theorem agree_renderBranches (k : r.Concurs host host') {otherwise otherwise' : Run World String}
    (h : ∀ {w v}, Twins r.slot w v → w.Parted r.slot → Agree r.slot w v otherwise otherwise') :
    ∀ (branches : List (Branch Value)) {w v : World}, Twins r.slot w v → w.Parted r.slot →
      Agree r.slot w v (renderBranches host r otherwise branches)
        (renderBranches host' r otherwise' branches)
  | [], w, v, t, p => by
    rw [renderBranches, renderBranches]
    exact h t p
  | .mk test body :: rest, w, v, t, p => by
    rw [renderBranches, renderBranches]
    exact k.agree_test t p test (agree_renderNodes k body) fun t p =>
      agree_renderBranches k h rest t p

end

end Renderer.Concurs

/-! ### Whole renders -/

/-- A fault is reported in the same way. -/
theorem agree_converting (t : Template) {act act' : Run World String}
    (h : Agree slot w v act act') : Agree slot w v (converting t act) (converting t act') := by
  refine .catching h fun f w₁ v₁ t₁ => ?_
  split
  · exact .failWith t₁ _
  · split
    · exact .failWith t₁ _
    · obtain ⟨x, -, -⟩ := t₁.alike
      exact .get_bind (.failWith t₁ _)

theorem agree_renderSlot (template : Nat) (t : Twins slot w v) (p : w.Parted slot)
    (k : ∀ e : Environment, (e.renderer slot).Concurs host host') :
    Agree slot w v (renderSlot host template slot) (renderSlot host' template slot) := by
  have htemplate : v.templateAt template = w.templateAt template := by
    obtain ⟨x, -, -⟩ := t.alike
    rfl
  rw [renderSlot, renderSlot]
  refine .get_bind ?_
  rw [htemplate]
  dsimp only
  have hbegin : Agree slot w v (beginRendering (w.templateAt template))
      (beginRendering (w.templateAt template)) := by
    obtain ⟨hl, hk⟩ := w.same_begun (w.templateAt template)
    obtain ⟨x, -, -⟩ := t.alike
    refine .of_loans t p (x := .ok ()) ?_ ?_ hl hk
    · rfl
    rw [World.begun, beginRendering, Run.exec_modify, Run.exec_modify]
    rcases hr : w.renderings with - | ⟨parent, rest⟩ <;>
      simp only [World.withContexts, hr] <;> rfl
  refine .bind hbegin fun _ w₁ v₁ t₁ p₁ => ?_
  refine .ensuring_step (fun _ => rfl) (fun _ => rfl) (fun _ => rfl) (fun _ _ => rfl) ?_
  have henvironment : Agree slot w₁ v₁ (environmentOf (w.templateAt template))
      (environmentOf (w.templateAt template)) := by
    obtain ⟨x, -, -⟩ := t₁.alike
    rw [environmentOf]
    refine .get_bind ?_
    let e := w₁.environmentAt (w.templateAt template).environment
    show Agree slot w₁ _ (if e.collected then Run.fail _ else pure e)
      (if e.collected then Run.fail _ else pure e)
    split
    · exact .fail t₁ _
    · exact .pure t₁ p₁ e
  refine .bind henvironment fun e w₂ v₂ t₂ p₂ => ?_
  exact agree_converting _ ((k e).agree_renderNodes _ t₂ p₂)

end Stencil
