/-
Stencil/Proofs/Render/Chronicle.lean

What is noted of a render at its calls of tags.  Suppose it is said what is to
be noted of one call, by its arguments and the world where it is made.  Then the
notes of a whole render are a list, by recursion like that of the renderer: the
calls come in the order in which the render comes to them, and a loop notes each
of its rounds (`notesOf`).

A relation between worlds that goes with notes is *chronicled* when it holds
along single steps, with no notes, and along calls, with what is noted of them,
and when stretches of it can be put together with their notes.  Then it holds
along every node (`Chronicled.renderNode`), by induction on the tree, and so
along every render (`Chronicled.ended`).
-/
import Stencil.Proofs.Render.Blame

namespace Stencil

variable {ε β : Type} {host : Host} {r : Renderer} {w w' w'' : World}

/-! ### Notes -/

/-- What is noted of a call of a tag, by what it is called with and the world where that is. -/
abbrev Noting (ε : Type) := TagEntry → List Value → Bindings String Value → World → List ε

/-- The notes of what comes after a run, if it gives a result. -/
def notesAfter (act : Run World β) (rest : β → World → List ε) (w : World) : List ε :=
  match act.exec w with
  | (.ok b, w') => rest b w'
  | (.error _, _) => []

theorem notesAfter_ok {act : Run World β} {rest : β → World → List ε} {b : β}
    (h : act.exec w = (.ok b, w')) : notesAfter act rest w = rest b w' := by
  rw [notesAfter, h]

theorem notesAfter_error {act : Run World β} {rest : β → World → List ε} {e : Stop}
    (h : act.exec w = (.error e, w')) : notesAfter act rest w = [] := by
  rw [notesAfter, h]

theorem notesAfter_nil (act : Run World β) (w : World) :
    notesAfter act (fun _ _ => ([] : List ε)) w = [] := by
  rw [notesAfter]
  split <;> rfl

section Nodes

variable (host : Host) (note : Noting ε) (r : Renderer)

/-- The notes of the place of a call: none, unless it comes to the call. -/
def notesOfCall (tag : String) (args : List (Expr Value)) (named : List (String × Expr Value))
    (w : World) : List ε :=
  match r.tags.get? tag with
  | none => []
  | some entry =>
    notesAfter (evaluateAll host r r.strict args)
      (fun vs w => notesAfter (evaluateNamed host r named)
        (fun ns w => note entry vs (.ofList ns) w) w) w

/-- The notes of the rounds of a loop, from a position on. -/
def notesOfRounds (slot : Nat) (target : String) (items loop : Nat) (body : Run World String)
    (notes : World → List ε) : (rounds : Nat) → (position : Nat) → World → List ε
  | 0, _, _ => []
  | rounds + 1, position, w =>
    match (w.heap.listItems items)[position]? with
    | none => []
    | some item =>
      let turned := w.withTurn items loop position
      let frame := roundFrame target item loop
      notes (turned.changeIn slot (·.push frame)) ++
        notesAfter (inScope slot frame body)
          (fun _ w => notesOfRounds slot target items loop body notes rounds (position + 1) w)
          turned

mutual

/-- The notes of a node. -/
def notesOf : Node Value → World → List ε
  | .choice _ test body others otherwise, w =>
    notesAfter (evaluate host r r.strict test)
      (fun v w =>
        if w.heap.truth v then notesOfAll body w
        else notesOfBranches (notesOfAll otherwise) others w) w
  | .loop _ target items body empty, w =>
    notesAfter (evaluate host r r.strict items)
      (fun v w => notesAfter (onHeap (Heap.itemsOf v))
        (fun vs w =>
          if vs.isEmpty then notesOfAll empty w
          else
            notesOfRounds r.slot target w.heap.objects.size (w.heap.objects.size + 1)
              (renderNodes host r body) (notesOfAll body) (vs.length + host.growth) 0
              (w.withLoop vs)) w) w
  | .scope _ bindings body, w =>
    notesAfter (evaluateNamed host r bindings)
      (fun entries w => notesOfAll body (w.changeIn r.slot (·.push (.ofNamed entries)))) w
  | .call _ tag args named _, w => notesOfCall host note r tag args named w
  | .data _ _, _ | .output _ _, _ | .assign _ _ _, _ | .bare _ _, _ | .tree _ _ _, _
  | .expr _ _, _ => []

/-- The notes of nodes, one after the other. -/
def notesOfAll : List (Node Value) → World → List ε
  | [], _ => []
  | node :: rest, w =>
    notesOf node (w.atLine node.place.line) ++
      notesAfter (renderNode host r node) (fun _ w => notesOfAll rest w)
        (w.atLine node.place.line)

/-- The notes of the branch that is taken, else those of what is left. -/
def notesOfBranches (otherwise : World → List ε) : List (Branch Value) → World → List ε
  | [], w => otherwise w
  | .mk test body :: rest, w =>
    notesAfter (evaluate host r r.strict test)
      (fun v w =>
        if w.heap.truth v then notesOfAll body w else notesOfBranches otherwise rest w) w

end

end Nodes

/-- The notes of a render of a template in a slot. -/
def notesOfRender (host : Host) (note : Renderer → Noting ε) (template slot : Nat) (w : World) :
    List ε :=
  let r := w.rendererOf template slot
  let t := w.templateAt template
  if w.Gone template then [] else notesOfAll host (note r) r t.tree.body (w.begun t)

/-- The world when the nodes of a render are done, and before it ends. -/
def World.ended (host : Host) (template slot : Nat) (w : World) : World :=
  let r := w.rendererOf template slot
  let t := w.templateAt template
  if w.Gone template then w.begun t else ((renderNodes host r t.tree.body).exec (w.begun t)).2

/-- All that a render does after its nodes is to take itself off the list. -/
theorem exec_renderSlot_ended (host : Host) (template slot : Nat) (w : World) :
    ((renderSlot host template slot).exec w).2 =
      { w.ended host template slot with
        renderings := (w.ended host template slot).renderings.tail } :=
  exec_renderSlot_state host template slot w

/-! ### Relations with notes -/

/-- A relation between worlds that goes with the notes of what happens between them. -/
structure Chronicled (host : Host) (note : Noting ε) (r : Renderer)
    (R : List ε → World → World → Prop) : Prop where
  rest : ∀ w, R [] w w
  append : ∀ {xs ys w w' w''}, R xs w w' → R ys w' w'' → R (xs ++ ys) w w''
  line : ∀ w line, R [] w (w.atLine line)
  heap : ∀ w h, R [] w { w with heap := h }
  change : ∀ f w, R [] w (w.changeIn r.slot f)
  call : ∀ entry vs ns w, R (note entry vs ns w) w ((entry.render host r vs ns).exec w).2

namespace Chronicled

variable {note : Noting ε} {R : List ε → World → World → Prop} {xs ys : List ε}

section

variable (k : Chronicled host note r R)
include k

theorem preorder : IsPreorder World (R []) where
  refl := k.rest
  trans _ _ _ h h' := k.append h h'

/-! ### Sequences -/

/-- First a step without notes. -/
theorem after (h : R [] w w') (h' : R xs w' w'') : R xs w w'' := k.append h h'

/-- Then a step without notes. -/
theorem before (h : R xs w w') (h' : R [] w' w'') : R xs w w'' := by
  have := k.append h h'
  rwa [List.append_nil] at this

theorem bind {act : Run World β} {f : β → Run World String} {rest : β → World → List ε}
    (h : R xs w (act.exec w).2)
    (h' : ∀ b w', act.exec w = (.ok b, w') → R (rest b w') w' ((f b).exec w').2) :
    R (xs ++ notesAfter act rest w) w ((act >>= f).exec w).2 := by
  rcases e : act.exec w with ⟨e' | b, v⟩ <;> rw [e] at h
  · rw [Run.exec_bind_error e, notesAfter_error e, List.append_nil]
    exact h
  · rw [Run.exec_bind_ok e, notesAfter_ok e]
    exact k.append h (h' b v e)

/-- A sequence whose first part has no notes. -/
theorem bind_silent {act : Run World β} {f : β → Run World String} {rest : β → World → List ε}
    (h : act.Keeps (R []) w)
    (h' : ∀ b w', act.exec w = (.ok b, w') → R (rest b w') w' ((f b).exec w').2) :
    R (notesAfter act rest w) w ((act >>= f).exec w).2 := k.bind h.state h'

/-- A sequence whose second part has no notes. -/
theorem bind_last {act : Run World β} {f : β → Run World String} (h : R xs w (act.exec w).2)
    (h' : ∀ b w', (f b).Keeps (R []) w') : R xs w ((act >>= f).exec w).2 := by
  have hall : R (xs ++ notesAfter act (fun _ _ => []) w) w ((act >>= f).exec w).2 :=
    k.bind h fun b w' _ => (h' b w').state
  rwa [notesAfter_nil, List.append_nil] at hall

/-! ### Single steps -/

theorem filters : host.FiltersWithin (R []) := fun _ _ w => k.heap w _

theorem evaluate (strict : Bool) (e : Expr Value) (w : World) :
    (evaluate host r strict e).Keeps (R []) w :=
  have := k.preorder
  evaluate_keeps k.filters strict e w

theorem evaluateAll (strict : Bool) (es : List (Expr Value)) (w : World) :
    (evaluateAll host r strict es).Keeps (R []) w :=
  have := k.preorder
  evaluateAll_keeps k.filters strict es w

theorem evaluateNamed (es : List (String × Expr Value)) (w : World) :
    (evaluateNamed host r es).Keeps (R []) w :=
  have := k.preorder
  evaluateNamed_keeps k.filters es w

theorem items (v : Value) (w : World) : (onHeap (Heap.itemsOf v)).Keeps (R []) w :=
  .of_exec rfl (k.heap w _) fun _ _ => trivial

theorem assign (name : String) (v : Value) (w : World) : (assign r.slot name v).Keeps (R []) w :=
  .of_exec rfl (k.change (·.set name v) w) fun _ _ => trivial

theorem leaveScope (w : World) : (leaveScope r.slot).Keeps (R []) w := by
  have e := exec_leaveScope r.slot w
  rcases ep : (w.contextIn r.slot).pop? with - | ⟨frame, rest⟩ <;> rw [ep] at e
  · exact .of_error e (k.rest w)
  · exact .of_ok e (k.change _ w) trivial

/-! ### Scopes and loops -/

/-- The notes of a scope are those of its body, where the frame is pushed. -/
theorem inScope (frame : Frame Value) {act : Run World String}
    (h : R xs (w.changeIn r.slot (·.push frame)) (act.exec (w.changeIn r.slot (·.push frame))).2) :
    R xs w ((inScope r.slot frame act).exec w).2 := by
  have hleave := (k.leaveScope (act.exec (w.changeIn r.slot (·.push frame))).2).state
  refine k.after (k.change (·.push frame) w) (k.before h ?_)
  rw [exec_inScope, Run.exec_ensuring]
  split
  · next e => rwa [e] at hleave
  · next e => rwa [e] at hleave

/-- Induction on the number of rounds. -/
theorem runRounds (target : String) {items loop : Nat} {body : Run World String}
    {notes : World → List ε} (hbody : ∀ w, R (notes w) w (body.exec w).2) (rounds position : Nat)
    (w : World) :
    R (notesOfRounds r.slot target items loop body notes rounds position w) w
      ((runRounds r.slot target items loop body rounds position).exec w).2 := by
  induction rounds generalizing position w with
  | zero =>
    rw [Stencil.runRounds, notesOfRounds, Run.exec_get_bind]
    split
    · exact k.rest w
    · exact k.rest w
  | succ rounds ih =>
    rw [Stencil.runRounds, notesOfRounds, Run.exec_get_bind]
    rcases (w.heap.listItems items)[position]? with - | item
    · exact k.rest w
    · dsimp only
      rw [Run.exec_set_bind]
      refine k.after (k.heap w _) (k.bind (k.inScope _ (hbody _)) fun text w₁ _ => ?_)
      have hrest := ih (position + 1) w₁
      have := k.preorder
      exact k.bind_last hrest fun _ _ => .pure trivial

theorem runLoop (target : String) (items : List Value) {body : Run World String}
    {notes : World → List ε} (hbody : ∀ w, R (notes w) w (body.exec w).2) (w : World) :
    R (notesOfRounds r.slot target w.heap.objects.size (w.heap.objects.size + 1) body notes
        (items.length + host.growth) 0 (w.withLoop items)) w
      ((runLoop host r.slot target items body).exec w).2 := by
  rw [exec_runLoop]
  exact k.after (k.heap w _) (k.runRounds target hbody _ _ _)

theorem renderCall (line : Int) (tag : String) (args : List (Expr Value))
    (named : List (String × Expr Value)) (w : World) :
    R (notesOfCall host note r tag args named w) w
      ((renderCall host r line tag args named).exec w).2 := by
  have := k.preorder
  rw [Stencil.renderCall, notesOfCall]
  rcases r.tags.get? tag with - | entry
  · exact (keeps_unknown (R := R []) ..).state
  · refine k.bind_silent (k.evaluateAll r.strict args w) fun vs w₁ _ => ?_
    refine k.bind_silent (k.evaluateNamed named w₁) fun ns w₂ _ => ?_
    exact k.call entry vs (.ofList ns) w₂

/-! ### Nodes -/

/-- A test, and then one of two ways. -/
theorem test {test : Expr Value} {body otherwise : Run World String} {yes no : World → List ε}
    (hbody : ∀ w, R (yes w) w (body.exec w).2)
    (hotherwise : ∀ w, R (no w) w (otherwise.exec w).2) (w : World) :
    R (notesAfter (Stencil.evaluate host r r.strict test)
        (fun v w => if w.heap.truth v then yes w else no w) w) w
      (Run.exec (do
        let v ← Stencil.evaluate host r r.strict test
        if ← holds v then body else otherwise) w).2 := by
  refine k.bind_silent (k.evaluate r.strict test w) fun v w₁ _ => ?_
  rw [Run.exec_bind_ok (exec_holds v w₁)]
  split
  · exact hbody w₁
  · exact hotherwise w₁

end

mutual

/-- Induction on the node. -/
theorem renderNode (k : Chronicled host note r R) :
    ∀ (node : Node Value) (w : World),
      R (notesOf host note r node w) w ((renderNode host r node).exec w).2
  | .data _ _, w => by
    rw [Stencil.renderNode, notesOf]
    exact k.rest w
  | .output _ value, w => by
    have := k.preorder
    rw [Stencil.renderNode, notesOf]
    have hvalue := (k.evaluate r.strict value w).state
    exact k.bind_last hvalue fun _ _ => .get_bind (.ofExcept _)
  | .choice _ test body others otherwise, w => by
    rw [Stencil.renderNode, notesOf]
    exact k.test (fun w => renderNodes k body w)
      (fun w => renderBranches k (fun w => renderNodes k otherwise w) others w) w
  | .loop _ target items body empty, w => by
    rw [Stencil.renderNode, notesOf]
    refine k.bind_silent (k.evaluate r.strict items w) fun v w₁ _ => ?_
    refine k.bind_silent (k.items v w₁) fun vs w₂ _ => ?_
    split
    · exact renderNodes k empty w₂
    · exact k.runLoop target vs (fun w => renderNodes k body w) w₂
  | .scope _ bindings body, w => by
    rw [Stencil.renderNode, notesOf]
    refine k.bind_silent (k.evaluateNamed bindings w) fun entries w₁ _ => ?_
    exact k.inScope _ (renderNodes k body _)
  | .assign _ target value, w => by
    have := k.preorder
    rw [Stencil.renderNode, notesOf]
    have hvalue := (k.evaluate r.strict value w).state
    refine k.bind_last hvalue fun v w₁ => ?_
    exact .bind (k.assign target v w₁) fun _ _ _ _ => .pure trivial
  | .call place tag args named target, w => by
    have := k.preorder
    rw [Stencil.renderNode, notesOf]
    refine k.bind_last (k.renderCall place.line tag args named w) fun text w₁ => ?_
    split
    · exact .bind (k.assign _ _ w₁) fun _ _ _ _ => .pure trivial
    · exact .pure trivial
  | .bare _ _, w => by
    rw [Stencil.renderNode, notesOf]
    exact k.rest w
  | .tree _ _ _, w => by
    rw [Stencil.renderNode, notesOf]
    exact k.rest w
  | .expr _ _, w => by
    rw [Stencil.renderNode, notesOf]
    exact k.rest w

theorem renderNodes (k : Chronicled host note r R) :
    ∀ (nodes : List (Node Value)) (w : World),
      R (notesOfAll host note r nodes w) w ((renderNodes host r nodes).exec w).2
  | [], w => by
    rw [Stencil.renderNodes, notesOfAll]
    exact k.rest w
  | node :: rest, w => by
    have := k.preorder
    rw [exec_renderNodes_cons, notesOfAll]
    refine k.after (k.line w node.place.line) ?_
    refine k.bind (renderNode k node _) fun text w₁ _ => ?_
    exact k.bind_last (renderNodes k rest w₁) fun _ _ => .pure trivial

theorem renderBranches (k : Chronicled host note r R) {otherwise : Run World String}
    {no : World → List ε} (h : ∀ w, R (no w) w (otherwise.exec w).2) :
    ∀ (branches : List (Branch Value)) (w : World),
      R (notesOfBranches host note r no branches w) w
        ((renderBranches host r otherwise branches).exec w).2
  | [], w => by
    rw [Stencil.renderBranches, notesOfBranches]
    exact h w
  | .mk test body :: rest, w => by
    rw [Stencil.renderBranches, notesOfBranches]
    exact k.test (fun w => renderNodes k body w) (fun w => renderBranches k h rest w) w

end

/-- Between its beginning and its end a render does what its nodes do. -/
theorem ended {note : Renderer → Noting ε} {template slot : Nat}
    (k : Chronicled host (note (w.rendererOf template slot)) (w.rendererOf template slot) R) :
    R (notesOfRender host note template slot w) (w.begun (w.templateAt template))
      (w.ended host template slot) := by
  rw [notesOfRender, World.ended]
  split
  · exact k.rest _
  · exact k.renderNodes _ _

end Chronicled

end Stencil
