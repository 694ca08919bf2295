/-
Stencil/Proofs/Render/Arrival.lean

Where a render fails.  `Arrives` says that the rendering of nodes arrives at a
node, and what is left to do then; `Node.Raises` says that the rendering of that
node fails before it comes to a body in it, with the failure `E` that arises and
the failure `F` that leaves the node.

A failure that leaves a node leaves all that is left, and nothing is done but
that open scopes are closed; when such a scope has no frame of its own any more,
that is the failure from then on (`Arrives.fails`).  Conversely a render that
fails otherwise has arrived at a node that does (`nodes_raise_of_fails`), by
induction on the tree.
-/
import Stencil.Proofs.Render.Failing
import Stencil.Proofs.Render.Position

namespace Stencil

variable {host : Host} {r : Renderer} {w w' : World} {o : Origin} {E F X : Failure}

/-! ### Arriving -/

/-- The rendering of nodes arrives at a node. -/
inductive Arrives (host : Host) (r : Renderer) :
    List (Node Value) → World → Node Value → List Rest → World → Prop
  | here (node : Node Value) (rest : List (Node Value)) (w : World) :
      Arrives host r (node :: rest) w node [.nodes rest] (w.atLine node.place.line)
  | inside {node inner : Node Value} {rest body : List (Node Value)} {ks ks' : List Rest}
      {w w' w'' : World} (e : Enters host r node (w.atLine node.place.line) body ks w')
      (h : Arrives host r body w' inner ks' w'') :
      Arrives host r (node :: rest) w inner (ks' ++ (ks ++ [.nodes rest])) w''
  | later {node next : Node Value} {rest : List (Node Value)} {ks : List Rest} {text : String}
      {w w' w'' : World}
      (e : (renderNode host r node).exec (w.atLine node.place.line) = (.ok text, w'))
      (h : Arrives host r rest w' next ks w'') :
      Arrives host r (node :: rest) w next (ks ++ [.after text]) w''

/-- From a node on, a render is that node and what is left. -/
theorem Arrives.exec_eq {nodes : List (Node Value)} {node : Node Value} {ks : List Rest}
    (h : Arrives host r nodes w node ks w') :
    (renderNodes host r nodes).exec w = (finishAll host r ks (renderNode host r node)).exec w' := by
  induction h with
  | here node rest w => exact exec_renderNodes_cons node rest w
  | inside e h ih =>
    rw [exec_renderNodes_cons, finishAll_append, finishAll_append]
    exact Rest.finish_congr host (e.exec_eq.trans (finishAll_congr ih _)) (.nodes _)
  | later e h ih =>
    rw [exec_renderNodes_cons, finishAll_append, Rest.finish, Run.exec_bind_ok e]
    exact Rest.finish_congr (r := r) host ih (.after _)

/-! ### Failing at a node -/

/-- Of some branches, the rendering comes to a test. -/
inductive Tests (host : Host) (r : Renderer) :
    List (Branch Value) → World → Expr Value → World → Prop
  | test (e : Expr Value) (body : List (Node Value)) (rest : List (Branch Value)) (w : World) :
      Tests host r (.mk e body :: rest) w e w
  | skip {test e : Expr Value} {body : List (Node Value)} {rest : List (Branch Value)} {v : Value}
      {w w' w'' : World} (ok : (evaluate host r r.strict test).exec w = (.ok v, w'))
      (no : w'.heap.truth v = false) (t : Tests host r rest w' e w'') :
      Tests host r (.mk test body :: rest) w e w''

/-- The rendering of a node comes to expressions of its own. -/
inductive Node.Evaluates (host : Host) (r : Renderer) :
    Node Value → World → List (Expr Value) → World → Prop
  | output (place : Position) (value : Expr Value) (w : World) :
      Evaluates host r (.output place value) w [value] w
  | choice {place : Position} {test e : Expr Value} {body otherwise : List (Node Value)}
      {others : List (Branch Value)} {w w' : World}
      (t : Tests host r (.mk test body :: others) w e w') :
      Evaluates host r (.choice place test body others otherwise) w [e] w'
  | loop (place : Position) (target : String) (items : Expr Value)
      (body empty : List (Node Value)) (w : World) :
      Evaluates host r (.loop place target items body empty) w [items] w
  | scope (place : Position) (bindings : List (String × Expr Value)) (body : List (Node Value))
      (w : World) : Evaluates host r (.scope place bindings body) w (bindings.map (·.2)) w
  | assign (place : Position) (target : String) (value : Expr Value) (w : World) :
      Evaluates host r (.assign place target value) w [value] w
  | arguments {place : Position} {tag : String} {args : List (Expr Value)}
      {named : List (String × Expr Value)} {target : Option String} {entry : TagEntry} {w : World}
      (known : r.tags.get? tag = some entry) :
      Evaluates host r (.call place tag args named target) w args w
  | named {place : Position} {tag : String} {args : List (Expr Value)}
      {named : List (String × Expr Value)} {target : Option String} {entry : TagEntry}
      {vs : List Value} {w w' : World} (known : r.tags.get? tag = some entry)
      (oks : (evaluateAll host r r.strict args).exec w = (.ok vs, w')) :
      Evaluates host r (.call place tag args named target) w (named.map (·.2)) w'

/-- A node calls an entry of the tags with values. -/
inductive Node.Calls (host : Host) (r : Renderer) :
    Node Value → World → TagEntry → List Value → Bindings String Value → World → Prop
  | mk {place : Position} {tag : String} {args : List (Expr Value)}
      {named : List (String × Expr Value)} {target : Option String} {entry : TagEntry}
      {vs : List Value} {ns : List (String × Value)} {w w₁ w' : World}
      (known : r.tags.get? tag = some entry)
      (oks : (evaluateAll host r r.strict args).exec w = (.ok vs, w₁))
      (okn : (evaluateNamed host r named).exec w₁ = (.ok ns, w')) :
      Calls host r (.call place tag args named target) w entry vs (.ofList ns) w'

/-- What is in a tree but cannot be rendered. -/
def Node.alien? : Node Value → Option String
  | .bare title _ | .tree title _ _ | .expr title _ => some title
  | _ => none

/-- The rendering of a node fails before it comes to a body in it: a failure `E` comes out of `o`,
and `F` leaves the node. -/
inductive Node.Raises (host : Host) (r : Renderer) :
    Node Value → World → Origin → Failure → Failure → Prop
  | expression {node : Node Value} {es : List (Expr Value)} {w w' : World} {o : Origin}
      {E : Failure} (comes : node.Evaluates host r w es w')
      (h : AllRaise host r r.strict es w' o E) : Raises host r node w o E E
  | text {place : Position} {value : Expr Value} {v : Value} {w w' : World} {E : Failure}
      (ok : (evaluate host r r.strict value).exec w = (.ok v, w'))
      (fails : (Stencil.printed v).Fails w' E) : Raises host r (.output place value) w .operation E E
  | items {place : Position} {target : String} {items : Expr Value}
      {body empty : List (Node Value)} {v : Value} {w w' : World} {E : Failure}
      (ok : (evaluate host r r.strict items).exec w = (.ok v, w'))
      (fails : (onHeap (Heap.itemsOf v)).Fails w' E) :
      Raises host r (.loop place target items body empty) w .operation E E
  | unknownTag {place : Position} {tag : String} {args : List (Expr Value)}
      {named : List (String × Expr Value)} {target : Option String} {w : World} {E : Failure}
      (notKnown : r.tags.get? tag = none)
      (fails : (renderCall host r place.line tag args named).Fails w E) :
      Raises host r (.call place tag args named target) w .operation E E
  | tag {node : Node Value} {entry : TagEntry} {vs : List Value} {ns : Bindings String Value}
      {w w' : World} {o : Origin} {E F : Failure} (calls : node.Calls host r w entry vs ns w')
      (h : entry.Raises host r vs ns w' o E F) : Raises host r node w o E F
  | alien {node : Node Value} {title : String} {w : World} (h : node.alien? = some title) :
      Raises host r node w .operation (.of (noRenderer title)) (.of (noRenderer title))

/-! ### What is left of a failure -/

/-- Nothing has changed but contexts and what is not of the render. -/
structure Unwound (w w' : World) : Prop where
  renderings : w'.renderings = w.renderings
  slots : w'.loans.slots = w.loans.slots

instance : IsPreorder World Unwound where
  refl _ := ⟨rfl, rfl⟩
  trans _ _ _ h h' := ⟨h'.renderings.trans h.renderings, h'.slots.trans h.slots⟩

/-- A failure leaves what is left to do as it is, or a scope cannot be left. -/
inductive Escapes (ks : List Rest) (F : Failure) : Failure → Prop
  | itself : Escapes ks F F
  | unscoped (h : Rest.scope ∈ ks) : Escapes ks F (.of Context.popBase)

theorem Escapes.trans {ks ks' : List Rest} (h : Escapes ks F E) (h' : Escapes ks' E X) :
    Escapes (ks ++ ks') F X := by
  cases h' with
  | itself =>
    cases h with
    | itself => exact .itself
    | unscoped h => exact .unscoped (List.mem_append_left _ h)
  | unscoped h => exact .unscoped (List.mem_append_right _ h)

theorem keeps_leaveScope_unwound (slot : Nat) (w : World) : (leaveScope slot).Keeps Unwound w := by
  have e := exec_leaveScope slot w
  rcases ep : (w.contextIn slot).pop? with - | ⟨frame, rest⟩ <;> rw [ep] at e
  · exact .of_error e ⟨rfl, rfl⟩
  · exact .of_ok e ⟨rfl, rfl⟩ trivial

/-- A part that fails, and the scope around it. -/
theorem fails_in_scope {act : Run World String} (slot : Nat) (h : act.Fails w F) :
    (Run.ensuring act (leaveScope slot)).Fails w F ∨
      (Run.ensuring act (leaveScope slot)).Fails w (.of Context.popBase) := by
  rw [Run.Fails, Run.Fails, Run.exec_ensuring, exec_leaveScope]
  rcases ((act.exec w).2.contextIn slot).pop? with - | ⟨frame, rest⟩
  · exact .inr rfl
  · exact .inl h

/-- One thing that is left. -/
theorem Rest.finish_fails (host : Host) (r : Renderer) {act : Run World String} (x : Rest)
    (h : act.Fails w F) :
    ∃ X, (x.finish host r act).Fails w X ∧ Escapes [x] F X ∧
      Unwound (act.exec w).2 ((x.finish host r act).exec w).2 := by
  have stays : ∀ f : String → Run World String, (act >>= f).Fails w F ∧
      Unwound (act.exec w).2 ((act >>= f).exec w).2 := fun f => by
    rw [Run.Fails, Run.exec_bind_error h.exec]
    exact ⟨rfl, ⟨rfl, rfl⟩⟩
  cases x with
  | scope =>
    have hleave : Unwound (act.exec w).2 ((Run.ensuring act (leaveScope r.slot)).exec w).2 := by
      have hk := (keeps_leaveScope_unwound r.slot (act.exec w).2).state
      rw [Run.exec_ensuring]
      rcases e : (leaveScope r.slot).exec (act.exec w).2 with ⟨f | u, w'⟩ <;> rw [e] at hk
      · exact hk
      · exact hk
    rcases fails_in_scope r.slot h with hf | hf
    · exact ⟨F, hf, .itself, hleave⟩
    · exact ⟨_, hf, .unscoped (.head _), hleave⟩
  | bind name => exact ⟨F, (stays _).1, .itself, (stays _).2⟩
  | nodes rest => exact ⟨F, (stays _).1, .itself, (stays _).2⟩
  | after text => exact ⟨F, (stays _).1, .itself, (stays _).2⟩
  | rounds _ _ _ _ _ _ => exact ⟨F, (stays _).1, .itself, (stays _).2⟩

/-- All that is left.  Induction on it. -/
theorem finishAll_fails (host : Host) (r : Renderer) {act : Run World String} (ks : List Rest)
    (h : act.Fails w F) :
    ∃ X, (finishAll host r ks act).Fails w X ∧ Escapes ks F X ∧
      Unwound (act.exec w).2 ((finishAll host r ks act).exec w).2 := by
  induction ks generalizing act F with
  | nil => exact ⟨F, h, .itself, ⟨rfl, rfl⟩⟩
  | cons x ks ih =>
    obtain ⟨F', h', hx, hu⟩ := x.finish_fails host r h
    obtain ⟨X, hX, hks, hu'⟩ := ih h'
    exact ⟨X, hX, hx.trans hks, trans_of Unwound hu hu'⟩

/-- When a render arrives at a node that fails, it fails, by that failure or in leaving a scope. -/
theorem Arrives.fails {nodes : List (Node Value)} {node : Node Value} {ks : List Rest}
    (h : Arrives host r nodes w node ks w') (hF : (renderNode host r node).Fails w' F) :
    ∃ X, (renderNodes host r nodes).Fails w X ∧ Escapes ks F X ∧
      Unwound ((renderNode host r node).exec w').2 ((renderNodes host r nodes).exec w).2 := by
  have he := h.exec_eq
  obtain ⟨X, hX, hks, hu⟩ := finishAll_fails host r ks hF
  refine ⟨X, ?_, hks, ?_⟩
  · rw [Run.Fails, he]
    exact hX
  · rw [he]
    exact hu

/-! ### Failures of nodes -/

theorem Raises.all {e : Expr Value} {strict : Bool} (h : Raises host r strict e w o E) :
    AllRaise host r strict [e] w o E := .head h

theorem AllRaise.one {e : Expr Value} {strict : Bool} (h : AllRaise host r strict [e] w o E) :
    Raises host r strict e w o E := by
  obtain ⟨before, arg, after, vs, w', he, oks, h⟩ := h
  rcases before with - | ⟨first, before⟩
  · rw [evaluateAll] at oks
    cases oks
    cases he
    exact h
  · cases before <;> cases he

theorem renderNode_choice (place : Position) (test : Expr Value)
    (body otherwise : List (Node Value)) (others : List (Branch Value)) :
    renderNode host r (.choice place test body others otherwise) =
      renderBranches host r (renderNodes host r otherwise) (.mk test body :: others) := by
  rw [renderNode, renderBranches]

theorem renderNode_calls {node : Node Value} {entry : TagEntry} {vs : List Value}
    {ns : Bindings String Value} (calls : node.Calls host r w entry vs ns w')
    (h : (entry.render host r vs ns).Fails w' F) :
    (renderNode host r node).Fails w F ∧
      ((renderNode host r node).exec w).2 = ((entry.render host r vs ns).exec w').2 := by
  cases calls with
  | @mk place tag args named target _ _ ns _ _ _ known oks okn =>
    have hcall : (renderCall host r place.line tag args named).exec w =
        (.error (.failed F), ((entry.render host r vs (.ofList ns)).exec w').2) := by
      rw [renderCall, known]
      dsimp only
      rw [Run.exec_bind_ok oks, Run.exec_bind_ok okn]
      exact h.exec
    rw [Run.Fails, renderNode, Run.exec_bind_error hcall]
    exact ⟨rfl, rfl⟩

/-! ### A failing render has arrived -/

/-- The rendering of nodes arrives at a node that fails. -/
def NodesRaise (host : Host) (r : Renderer) (nodes : List (Node Value)) (w : World) (o : Origin)
    (E F : Failure) : Prop :=
  ∃ node ks w', Arrives host r nodes w node ks w' ∧ node.Raises host r w' o E F

/-- The rendering of a node fails before it comes to a body in it, or arrives at a node in one that
fails. -/
def NodeRaises (host : Host) (r : Renderer) (node : Node Value) (w : World) (o : Origin)
    (E F : Failure) : Prop :=
  node.Raises host r w o E F ∨
    ∃ body ks w', Enters host r node w body ks w' ∧ NodesRaise host r body w' o E F

/-- A scope fails by its body, or in being left. -/
theorem inScope_fails {act : Run World String} {slot : Nat} {frame : Frame Value}
    (h : (inScope slot frame act).Fails w X) :
    X = .of Context.popBase ∨ act.Fails (w.changeIn slot (·.push frame)) X := by
  rw [Run.Fails, exec_inScope, Run.exec_ensuring, exec_leaveScope] at h
  rcases hp : ((act.exec (w.changeIn slot (·.push frame))).2.contextIn slot).pop? with
    - | ⟨frame, rest⟩ <;> rw [hp] at h
  · cases h
    exact .inl rfl
  · exact .inr h

/-- A loop fails in the body of some round.  Induction on the number of rounds. -/
theorem runRounds_fails {target : String} {items loop n p : Nat} {body : List (Node Value)}
    (h : (runRounds r.slot target items loop (renderNodes host r body) n p).Fails w X) :
    X = .of Context.popBase ∨ ∃ ks w', Turns host r target items loop body n p w ks w' ∧
      (renderNodes host r body).Fails w' X := by
  induction n generalizing p w with
  | zero =>
    rw [runRounds, Run.fails_get_bind] at h
    split at h
    · cases h
    · cases h
  | succ n ih =>
    rw [runRounds, Run.fails_get_bind] at h
    split at h
    · cases h
    · next item hitem =>
      dsimp only at h
      rw [Run.Fails, Run.exec_set_bind, ← Run.Fails, Run.fails_bind] at h
      rcases h with h | ⟨text, w₁, round, h⟩
      · exact (inScope_fails h).imp_right fun h => ⟨_, _, .now hitem, h⟩
      · rcases Run.fails_bind.mp h with h | ⟨_, _, -, h⟩
        · refine (ih h).imp_right ?_
          rintro ⟨ks, w', t, h⟩
          exact ⟨_, w', .later hitem round t, h⟩
        · cases h

/-- Of some branches a test fails, or the body that is picked. -/
def BranchesRaise (host : Host) (r : Renderer) (otherwise : List (Node Value))
    (branches : List (Branch Value)) (w : World) (o : Origin) (E F : Failure) : Prop :=
  (∃ e w', Tests host r branches w e w' ∧ Raises host r r.strict e w' o E ∧ F = E) ∨
    ∃ picked w', Picks host r otherwise branches w picked w' ∧ NodesRaise host r picked w' o E F

/-- A call fails before the tag, or by the tag. -/
theorem call_raises_of_fails {place : Position} {tag : String} {args : List (Expr Value)}
    {named : List (String × Expr Value)} {target : Option String}
    (h : (renderNode host r (.call place tag args named target)).Fails w X) :
    ∃ o E, (Node.call place tag args named target).Raises host r w o E X := by
  rw [renderNode] at h
  have h : (renderCall host r place.line tag args named).Fails w X := by
    rcases Run.fails_bind.mp h with h | ⟨text, w', -, h⟩
    · exact h
    · cases target <;> cases h
  rcases known : r.tags.get? tag with - | entry
  · exact ⟨_, _, .unknownTag known h⟩
  rw [renderCall, known] at h
  rcases Run.fails_bind.mp h with h | ⟨vs, w₁, oks, h⟩
  · obtain ⟨o, h⟩ := allRaise_of_fails _ args h
    exact ⟨o, _, .expression (.arguments known) h⟩
  rcases Run.fails_bind.mp h with h | ⟨ns, w₂, okn, h⟩
  · obtain ⟨o, h⟩ := allRaise_of_fails _ _ (evaluateNamed_fails.mp h)
    exact ⟨o, _, .expression (.named known oks) h⟩
  · obtain ⟨o, E, h⟩ := TagEntry.raises_of_fails h
    exact ⟨o, E, .tag ⟨known, oks, okn⟩ h⟩

mutual

/-- A node that fails, fails in leaving a scope, or itself, or a node in it does.  Induction on the
node. -/
theorem node_raises_of_fails : ∀ (node : Node Value) {w : World} {X : Failure},
    (renderNode host r node).Fails w X →
      X = .of Context.popBase ∨ ∃ o E, NodeRaises host r node w o E X
  | .data _ _, w, X, h => by
    rw [renderNode] at h
    cases h
  | .output place value, w, X, h => by
    rw [renderNode] at h
    rcases Run.fails_bind.mp h with h | ⟨v, w', ok, h⟩
    · obtain ⟨o, h⟩ := raises_of_fails _ value h
      exact .inr ⟨o, X, .inl (.expression (.output ..) h.all)⟩
    · exact .inr ⟨_, X, .inl (.text ok h)⟩
  | .choice place test body others otherwise, w, X, h => by
    rw [renderNode] at h
    rcases Run.fails_bind.mp h with h | ⟨v, w', ok, h⟩
    · obtain ⟨o, h⟩ := raises_of_fails _ test h
      exact .inr ⟨o, X, .inl (.expression (.choice (.test ..)) h.all)⟩
    rw [Run.Fails, Run.exec_bind_ok (exec_holds ..)] at h
    rcases ht : w'.heap.truth v with - | - <;> rw [ht] at h
    · have hotherwise : ∀ {w : World} {X : Failure}, (renderNodes host r otherwise).Fails w X →
          X = .of Context.popBase ∨ ∃ o E, NodesRaise host r otherwise w o E X :=
        fun h => nodes_raise_of_fails otherwise h
      refine (branches_raise_of_fails hotherwise others h).imp_right ?_
      rintro ⟨o, E, ⟨e, w'', t, h, rfl⟩ | ⟨picked, w'', p, h⟩⟩
      · exact ⟨o, X, .inl (.expression (.choice (.skip ok ht t)) h.all)⟩
      · exact ⟨o, E, .inr ⟨_, _, _, .choice (.skip ok ht p), h⟩⟩
    · refine (nodes_raise_of_fails body h).imp_right ?_
      rintro ⟨o, E, h⟩
      exact ⟨o, E, .inr ⟨_, _, _, .choice (.take ok ht), h⟩⟩
  | .loop place target items body empty, w, X, h => by
    rw [renderNode] at h
    rcases Run.fails_bind.mp h with h | ⟨v, w₁, ok, h⟩
    · obtain ⟨o, h⟩ := raises_of_fails _ items h
      exact .inr ⟨o, X, .inl (.expression (.loop ..) h.all)⟩
    rcases Run.fails_bind.mp h with h | ⟨vs, w₂, okv, h⟩
    · exact .inr ⟨_, X, .inl (.items ok h)⟩
    cases vs with
    | nil =>
      refine (nodes_raise_of_fails empty h).imp_right ?_
      rintro ⟨o, E, h⟩
      exact ⟨o, E, .inr ⟨_, _, _, .empty ok okv, h⟩⟩
    | cons x xs =>
      rw [List.isEmpty_cons, if_neg Bool.false_ne_true, Run.Fails, exec_runLoop] at h
      rcases runRounds_fails h with h | ⟨ks, w', t, h⟩
      · exact .inl h
      refine (nodes_raise_of_fails body h).imp_right ?_
      rintro ⟨o, E, h⟩
      exact ⟨o, E, .inr ⟨_, _, _, .round ok okv t, h⟩⟩
  | .scope place bindings body, w, X, h => by
    rw [renderNode] at h
    rcases Run.fails_bind.mp h with h | ⟨es, w', ok, h⟩
    · obtain ⟨o, h⟩ := allRaise_of_fails _ _ (evaluateNamed_fails.mp h)
      exact .inr ⟨o, X, .inl (.expression (.scope ..) h)⟩
    rcases inScope_fails h with h | h
    · exact .inl h
    refine (nodes_raise_of_fails body h).imp_right ?_
    rintro ⟨o, E, h⟩
    exact ⟨o, E, .inr ⟨_, _, _, .scope ok, h⟩⟩
  | .assign place target value, w, X, h => by
    rw [renderNode] at h
    rcases Run.fails_bind.mp h with h | ⟨v, w', ok, h⟩
    · obtain ⟨o, h⟩ := raises_of_fails _ value h
      exact .inr ⟨o, X, .inl (.expression (.assign ..) h.all)⟩
    · cases h
  | .call place tag args named target, w, X, h => by
    obtain ⟨o, E, h⟩ := call_raises_of_fails h
    exact .inr ⟨o, E, .inl h⟩
  | .bare title place, w, X, h => by
    rw [renderNode] at h
    obtain rfl := Run.fails_fail.mp h
    exact .inr ⟨_, _, .inl (.alien rfl)⟩
  | .tree title place body, w, X, h => by
    rw [renderNode] at h
    obtain rfl := Run.fails_fail.mp h
    exact .inr ⟨_, _, .inl (.alien rfl)⟩
  | .expr title e, w, X, h => by
    rw [renderNode] at h
    obtain rfl := Run.fails_fail.mp h
    exact .inr ⟨_, _, .inl (.alien rfl)⟩

/-- A render that fails, fails in leaving a scope, or has arrived at a node that does. -/
theorem nodes_raise_of_fails : ∀ (nodes : List (Node Value)) {w : World} {X : Failure},
    (renderNodes host r nodes).Fails w X →
      X = .of Context.popBase ∨ ∃ o E, NodesRaise host r nodes w o E X
  | [], w, X, h => by
    rw [renderNodes] at h
    cases h
  | node :: rest, w, X, h => by
    rw [Run.Fails, exec_renderNodes_cons, ← Run.Fails, Rest.finish, Run.fails_bind] at h
    rcases h with h | ⟨text, w', ok, h⟩
    · refine (node_raises_of_fails node h).imp_right ?_
      rintro ⟨o, E, h | ⟨body, ks, w', e, inner, ks', w'', a, h⟩⟩
      · exact ⟨o, E, node, _, _, .here node rest w, h⟩
      · exact ⟨o, E, inner, _, w'', .inside e a, h⟩
    rcases Run.fails_bind.mp h with h | ⟨_, _, -, h⟩
    · refine (nodes_raise_of_fails rest h).imp_right ?_
      rintro ⟨o, E, next, ks, w'', a, h⟩
      exact ⟨o, E, next, _, w'', .later ok a, h⟩
    · cases h

theorem branches_raise_of_fails {otherwise : List (Node Value)}
    (hotherwise : ∀ {w : World} {X : Failure}, (renderNodes host r otherwise).Fails w X →
      X = .of Context.popBase ∨ ∃ o E, NodesRaise host r otherwise w o E X) :
    ∀ (branches : List (Branch Value)) {w : World} {X : Failure},
      (renderBranches host r (renderNodes host r otherwise) branches).Fails w X →
        X = .of Context.popBase ∨ ∃ o E, BranchesRaise host r otherwise branches w o E X
  | [], w, X, h => by
    rw [renderBranches] at h
    refine (hotherwise h).imp_right ?_
    rintro ⟨o, E, h⟩
    exact ⟨o, E, .inr ⟨_, _, .last w, h⟩⟩
  | .mk test body :: rest, w, X, h => by
    rw [renderBranches] at h
    rcases Run.fails_bind.mp h with h | ⟨v, w', ok, h⟩
    · obtain ⟨o, h⟩ := raises_of_fails _ test h
      exact .inr ⟨o, X, .inl ⟨test, w, .test .., h, rfl⟩⟩
    rw [Run.Fails, Run.exec_bind_ok (exec_holds ..)] at h
    rcases ht : w'.heap.truth v with - | - <;> rw [ht] at h
    · refine (branches_raise_of_fails hotherwise rest h).imp_right ?_
      rintro ⟨o, E, ⟨e, w'', t, h, rfl⟩ | ⟨picked, w'', p, h⟩⟩
      · exact ⟨o, X, .inl ⟨e, w'', .skip ok ht t, h, rfl⟩⟩
      · exact ⟨o, E, .inr ⟨picked, w'', .skip ok ht p, h⟩⟩
    · refine (nodes_raise_of_fails body h).imp_right ?_
      rintro ⟨o, E, h⟩
      exact ⟨o, E, .inr ⟨body, w', .take ok ht, h⟩⟩

end

end Stencil
