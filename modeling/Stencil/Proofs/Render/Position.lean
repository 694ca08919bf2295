/-
Stencil/Proofs/Render/Position.lean

Where a render is when it calls a tag.  What is left to do then is a list of
*rests*, the innermost first: to bind the text of the call, to render the nodes
that follow, to take off a frame, to go on with a loop.  `Comes` says that the
rendering of nodes comes to a call, and what is left then.

The rendering is then the same as that of the call with everything that is left
after it (`Comes.exec_eq`).  So whatever is shown of the rests from the world
that a call leaves holds of each render from that call on.
-/
import Stencil.Proofs.Render.Respect

namespace Stencil

/-! ### Rests -/

/-- A call of a tag in a template. -/
structure CallSite where
  line : Int
  tag : String
  args : List (Expr Value)
  named : List (String × Expr Value)

/-- Something that is left to do when a part of a render is done. -/
inductive Rest where
  | bind (name : String)
  | nodes (rest : List (Node Value))
  /-- Text that came before. -/
  | after (text : String)
  | scope
  | rounds (target : String) (items loop : Nat) (body : List (Node Value)) (rounds position : Nat)

variable {host : Host} {r : Renderer}

/-- The text of a call. -/
def CallSite.run (host : Host) (r : Renderer) (c : CallSite) : Run World String :=
  renderCall host r c.line c.tag c.args c.named

/-- Does something, and then what is left. -/
def Rest.finish (host : Host) (r : Renderer) : Rest → Run World String → Run World String
  | bind name, act => do
    let text ← act
    assign r.slot name (.str text)
    return ""
  | nodes rest, act => do
    let text ← act
    let more ← renderNodes host r rest
    return text ++ more
  | after text, act => do
    let more ← act
    return text ++ more
  | scope, act => Run.ensuring act (leaveScope r.slot)
  | rounds target items loop body n position, act => do
    let text ← act
    let rest ← runRounds r.slot target items loop (renderNodes host r body) n position
    return text ++ rest

/-- Does something, and then all that is left. -/
def finishAll (host : Host) (r : Renderer) : List Rest → Run World String → Run World String
  | [], act => act
  | k :: ks, act => finishAll host r ks (k.finish host r act)

theorem finishAll_append (ks ks' : List Rest) (act : Run World String) :
    finishAll host r (ks ++ ks') act = finishAll host r ks' (finishAll host r ks act) := by
  induction ks generalizing act with
  | nil => rfl
  | cons k ks ih => exact ih _

/-- What is left depends only on how the part before it ends. -/
theorem Rest.finish_congr (host : Host) {act act' : Run World String} {w w' : World}
    (e : act.exec w = act'.exec w') (k : Rest) :
    (k.finish host r act).exec w = (k.finish host r act').exec w' := by
  cases k with
  | scope => rw [finish, finish, Run.exec_ensuring, Run.exec_ensuring, e]
  | _ => rw [finish, finish, Run.exec_bind, Run.exec_bind, e]

theorem finishAll_congr {act act' : Run World String} {w w' : World}
    (e : act.exec w = act'.exec w') (ks : List Rest) :
    (finishAll host r ks act).exec w = (finishAll host r ks act').exec w' := by
  induction ks generalizing act act' with
  | nil => exact e
  | cons k ks ih => exact ih (k.finish_congr host e)

/-! ### Positions -/

/-- The world when the render is at a line. -/
def World.atLine (line : Int) (w : World) : World := w.changeRendering fun r => { r with line }

/-- Of some branches, or else the last body, the body that is rendered. -/
inductive Picks (host : Host) (r : Renderer) (otherwise : List (Node Value)) :
    List (Branch Value) → World → List (Node Value) → World → Prop
  | last (w : World) : Picks host r otherwise [] w otherwise w
  | take {test : Expr Value} {body : List (Node Value)} {rest : List (Branch Value)} {v : Value}
      {w w' : World} (e : (evaluate host r r.strict test).exec w = (.ok v, w'))
      (h : w'.heap.truth v = true) : Picks host r otherwise (.mk test body :: rest) w body w'
  | skip {test : Expr Value} {body picked : List (Node Value)} {rest : List (Branch Value)}
      {v : Value} {w w' w'' : World} (e : (evaluate host r r.strict test).exec w = (.ok v, w'))
      (h : w'.heap.truth v = false) (p : Picks host r otherwise rest w' picked w'') :
      Picks host r otherwise (.mk test body :: rest) w picked w''

/-- A loop comes to the body of some round. -/
inductive Turns (host : Host) (r : Renderer) (target : String) (items loop : Nat)
    (body : List (Node Value)) : (rounds position : Nat) → World → List Rest → World → Prop
  | now {n p : Nat} {item : Value} {w : World} (e : (w.heap.listItems items)[p]? = some item) :
      Turns host r target items loop body (n + 1) p w
        [.scope, .rounds target items loop body n (p + 1)]
        ((w.withTurn items loop p).changeIn r.slot (·.push (roundFrame target item loop)))
  | later {n p : Nat} {item : Value} {text : String} {ks : List Rest} {w w' w'' : World}
      (e : (w.heap.listItems items)[p]? = some item)
      (round : (inScope r.slot (roundFrame target item loop) (renderNodes host r body)).exec
        (w.withTurn items loop p) = (.ok text, w'))
      (t : Turns host r target items loop body n (p + 1) w' ks w'') :
      Turns host r target items loop body (n + 1) p w (ks ++ [.after text]) w''

/-- The rendering of a node comes to a body in it. -/
inductive Enters (host : Host) (r : Renderer) :
    Node Value → World → List (Node Value) → List Rest → World → Prop
  | choice {place : Position} {test : Expr Value} {body otherwise picked : List (Node Value)}
      {others : List (Branch Value)} {w w' : World}
      (p : Picks host r otherwise (.mk test body :: others) w picked w') :
      Enters host r (.choice place test body others otherwise) w picked [] w'
  | empty {place : Position} {target : String} {items : Expr Value}
      {body empty : List (Node Value)} {v : Value} {w w' w'' : World}
      (e : (evaluate host r r.strict items).exec w = (.ok v, w'))
      (e' : (onHeap (Heap.itemsOf v)).exec w' = (.ok [], w'')) :
      Enters host r (.loop place target items body empty) w empty [] w''
  | round {place : Position} {target : String} {items : Expr Value}
      {body empty : List (Node Value)} {v x : Value} {xs : List Value} {ks : List Rest}
      {w w₁ w₂ w' : World} (e : (evaluate host r r.strict items).exec w = (.ok v, w₁))
      (e' : (onHeap (Heap.itemsOf v)).exec w₁ = (.ok (x :: xs), w₂))
      (t : Turns host r target w₂.heap.objects.size (w₂.heap.objects.size + 1) body
        ((x :: xs).length + host.growth) 0 (w₂.withLoop (x :: xs)) ks w') :
      Enters host r (.loop place target items body empty) w body ks w'
  | scope {place : Position} {bindings : List (String × Expr Value)} {body : List (Node Value)}
      {es : List (String × Value)} {w w' : World}
      (e : (evaluateNamed host r bindings).exec w = (.ok es, w')) :
      Enters host r (.scope place bindings body) w body [.scope]
        (w'.changeIn r.slot (·.push (.ofNamed es)))

/-- The rendering of nodes comes to a call of a tag. -/
inductive Comes (host : Host) (r : Renderer) :
    List (Node Value) → World → CallSite → List Rest → World → Prop
  | call (place : Position) (tag : String) (args : List (Expr Value))
      (named : List (String × Expr Value)) (target : Option String) (rest : List (Node Value))
      (w : World) :
      Comes host r (.call place tag args named target :: rest) w ⟨place.line, tag, args, named⟩
        ((target.map Rest.bind).toList ++ [.nodes rest]) (w.atLine place.line)
  | inside {node : Node Value} {rest body : List (Node Value)} {ks ks' : List Rest} {c : CallSite}
      {w w' w'' : World} (e : Enters host r node (w.atLine node.place.line) body ks w')
      (h : Comes host r body w' c ks' w'') :
      Comes host r (node :: rest) w c (ks' ++ (ks ++ [.nodes rest])) w''
  | later {node : Node Value} {rest : List (Node Value)} {ks : List Rest} {c : CallSite}
      {text : String} {w w' w'' : World}
      (e : (renderNode host r node).exec (w.atLine node.place.line) = (.ok text, w'))
      (h : Comes host r rest w' c ks w'') : Comes host r (node :: rest) w c (ks ++ [.after text]) w''

/-- The rendering of nodes comes to a body, that of one of the nodes or one deeper in it. -/
inductive Reaches (host : Host) (r : Renderer) :
    List (Node Value) → World → List (Node Value) → List Rest → World → Prop
  | here {node : Node Value} {rest body : List (Node Value)} {ks : List Rest} {w w' : World}
      (e : Enters host r node (w.atLine node.place.line) body ks w') :
      Reaches host r (node :: rest) w body (ks ++ [.nodes rest]) w'
  | inside {node : Node Value} {rest body body' : List (Node Value)} {ks ks' : List Rest}
      {w w' w'' : World} (e : Enters host r node (w.atLine node.place.line) body ks w')
      (h : Reaches host r body w' body' ks' w'') :
      Reaches host r (node :: rest) w body' (ks' ++ (ks ++ [.nodes rest])) w''
  | later {node : Node Value} {rest body : List (Node Value)} {ks : List Rest} {text : String}
      {w w' w'' : World}
      (e : (renderNode host r node).exec (w.atLine node.place.line) = (.ok text, w'))
      (h : Reaches host r rest w' body ks w'') :
      Reaches host r (node :: rest) w body (ks ++ [.after text]) w''

/-! ### The rest of a render -/

theorem exec_holds (v : Value) (w : World) : (holds v).exec w = (.ok (w.heap.truth v), w) := rfl

theorem Picks.exec_eq {otherwise picked : List (Node Value)} {branches : List (Branch Value)}
    {w w' : World} (p : Picks host r otherwise branches w picked w') :
    (renderBranches host r (renderNodes host r otherwise) branches).exec w =
      (renderNodes host r picked).exec w' := by
  induction p with
  | last w => rw [renderBranches]
  | take e h =>
    rw [renderBranches, Run.exec_bind_ok e, Run.exec_bind_ok (exec_holds ..), h, if_pos rfl]
  | skip e h p ih =>
    rw [renderBranches, Run.exec_bind_ok e, Run.exec_bind_ok (exec_holds ..), h,
      if_neg Bool.false_ne_true, ih]

theorem Turns.exec_eq {target : String} {items loop n p : Nat} {body : List (Node Value)}
    {ks : List Rest} {w w' : World} (t : Turns host r target items loop body n p w ks w') :
    (runRounds r.slot target items loop (renderNodes host r body) n p).exec w =
      (finishAll host r ks (renderNodes host r body)).exec w' := by
  induction t with
  | now e =>
    rw [runRounds, Run.exec_get_bind, e]
    dsimp only
    rw [Run.exec_set_bind]
    exact Rest.finish_congr host (exec_inScope ..) (.rounds ..)
  | later e round t ih =>
    rw [runRounds, Run.exec_get_bind, e, finishAll_append]
    dsimp only
    rw [Run.exec_set_bind]
    exact (Run.exec_bind_ok round).trans (Rest.finish_congr (r := r) host ih (.after _))

theorem Enters.exec_eq {node : Node Value} {body : List (Node Value)} {ks : List Rest}
    {w w' : World} (h : Enters host r node w body ks w') :
    (renderNode host r node).exec w = (finishAll host r ks (renderNodes host r body)).exec w' := by
  cases h with
  | choice p =>
    rw [renderNode]
    exact p.exec_eq
  | empty e e' =>
    rw [renderNode, Run.exec_bind_ok e, Run.exec_bind_ok e']
    rfl
  | round e e' t =>
    rw [renderNode, Run.exec_bind_ok e, Run.exec_bind_ok e']
    exact (exec_runLoop ..).trans t.exec_eq
  | scope e =>
    rw [renderNode, Run.exec_bind_ok e, exec_inScope]
    rfl

theorem exec_renderNodes_cons (node : Node Value) (rest : List (Node Value)) (w : World) :
    (renderNodes host r (node :: rest)).exec w =
      (Rest.finish host r (.nodes rest) (renderNode host r node)).exec (w.atLine node.place.line) := by
  rw [renderNodes]
  rfl

theorem renderNode_call (place : Position) (tag : String) (args : List (Expr Value))
    (named : List (String × Expr Value)) (target : Option String) :
    renderNode host r (.call place tag args named target) =
      finishAll host r (target.map Rest.bind).toList
        (CallSite.run host r ⟨place.line, tag, args, named⟩) := by
  rw [renderNode]
  cases target with
  | none => exact bind_pure _
  | some name => rfl

/-- From a call on, a render is the call and what is left. -/
theorem Comes.exec_eq {nodes : List (Node Value)} {c : CallSite} {ks : List Rest} {w w' : World}
    (h : Comes host r nodes w c ks w') :
    (renderNodes host r nodes).exec w = (finishAll host r ks (c.run host r)).exec w' := by
  induction h with
  | call place tag args named target rest w =>
    rw [exec_renderNodes_cons, finishAll_append, renderNode_call]
    rfl
  | inside e h ih =>
    rw [exec_renderNodes_cons, finishAll_append, finishAll_append]
    exact Rest.finish_congr host (e.exec_eq.trans (finishAll_congr ih _)) (.nodes _)
  | later e h ih =>
    rw [exec_renderNodes_cons, finishAll_append, Rest.finish, Run.exec_bind_ok e]
    exact Rest.finish_congr (r := r) host ih (.after _)

/-- From a body on, a render is that body and what is left. -/
theorem Reaches.exec_eq {nodes body : List (Node Value)} {ks : List Rest} {w w' : World}
    (h : Reaches host r nodes w body ks w') :
    (renderNodes host r nodes).exec w = (finishAll host r ks (renderNodes host r body)).exec w' := by
  induction h with
  | here e =>
    rw [exec_renderNodes_cons, finishAll_append]
    exact Rest.finish_congr host e.exec_eq (.nodes _)
  | inside e h ih =>
    rw [exec_renderNodes_cons, finishAll_append, finishAll_append]
    exact Rest.finish_congr host (e.exec_eq.trans (finishAll_congr ih _)) (.nodes _)
  | later e h ih =>
    rw [exec_renderNodes_cons, finishAll_append, Rest.finish, Run.exec_bind_ok e]
    exact Rest.finish_congr (r := r) host ih (.after _)

/-! ### On the way -/

/-- Something that is left comes to another call. -/
inductive Rest.Comes (host : Host) (r : Renderer) : Rest → World → CallSite → World → Prop
  | nodes {rest : List (Node Value)} {ks : List Rest} {c : CallSite} {w w' : World}
      (h : Stencil.Comes host r rest w c ks w') : Comes host r (.nodes rest) w c w'
  | rounds {target : String} {items loop n p : Nat} {body : List (Node Value)}
      {ks ks' : List Rest} {c : CallSite} {w w' w'' : World}
      (t : Turns host r target items loop body n p w ks w')
      (h : Stencil.Comes host r body w' c ks' w'') :
      Comes host r (.rounds target items loop body n p) w c w''

/-- A world that the rest of a render passes, after a call that gave a text: some of what is left is
done, or the next of it comes to another call. -/
inductive Passes (host : Host) (r : Renderer) (ks : List Rest) (text : String) (w : World) :
    World → Prop
  | done {first rest : List Rest} (e : ks = first ++ rest) :
      Passes host r ks text w ((finishAll host r first (Run.resume (.ok text))).exec w).2
  | calls {first rest : List Rest} {x : Rest} {before : String} {c : CallSite} {w' w'' : World}
      (e : ks = first ++ x :: rest)
      (h : (finishAll host r first (Run.resume (.ok text))).exec w = (.ok before, w'))
      (comes : x.Comes host r w' c w'') : Passes host r ks text w w''

/-! ### What positions keep -/

/-- A loop that is left runs over its list. -/
def Rest.Valid (Runs : Nat → Nat → World → Prop) (w : World) : Rest → Prop
  | rounds _ items loop _ _ _ => Runs items loop w
  | bind _ | nodes _ | after _ | scope => True

variable {Inv : World → Prop} {R : World → World → Prop} {Runs : Nat → Nat → World → Prop}

namespace Renderer.Respects

variable [IsPreorder World R] (k : r.Respects host Inv R Runs)
include k

omit [IsPreorder World R] in
theorem valid {w w' : World} {ks : List Rest} (hks : ∀ x ∈ ks, x.Valid Runs w) (h : R w w') :
    ∀ x ∈ ks, x.Valid Runs w' := by
  intro x hx
  have hv := hks x hx
  cases x with
  | rounds _ items loop => exact k.runs hv h
  | _ => trivial

theorem keeps_finish {x : Rest} {act : Run World String} {w : World} (hx : x.Valid Runs w)
    (hact : act.Keeps R w) : (x.finish host r act).Keeps R w := by
  cases x with
  | bind name =>
    refine .bind hact fun text w₁ _ _ => ?_
    exact .bind (k.keeps_assign _ _ w₁) fun _ _ _ _ => .pure trivial
  | nodes rest =>
    refine .bind hact fun text w₁ _ _ => ?_
    exact .bind (keeps_renderNodes k rest w₁) fun _ _ _ _ => .pure trivial
  | after text => exact .bind hact fun _ _ _ _ => .pure trivial
  | scope => exact .keeps_ensuring hact fun w₁ _ => k.keeps_leaveScope w₁
  | rounds target items loop body n position =>
    refine .bind hact fun text w₁ h _ => ?_
    have hbody : ∀ w, (renderNodes host r body).Keeps R w := keeps_renderNodes k body
    exact .bind (k.keeps_runRounds target hbody n position (k.runs hx h))
      fun _ _ _ _ => .pure trivial

/-- Induction on what is left. -/
theorem keeps_finishAll {ks : List Rest} {act : Run World String} {w : World}
    (hks : ∀ x ∈ ks, x.Valid Runs w) (hact : act.Keeps R w) :
    (finishAll host r ks act).Keeps R w := by
  induction ks generalizing act with
  | nil => exact hact
  | cons x ks ih =>
    exact ih (fun y hy => hks y (.tail _ hy)) (k.keeps_finish (hks x (.head _)) hact)

theorem picks {otherwise picked : List (Node Value)} {branches : List (Branch Value)}
    {w w' : World} (p : Picks host r otherwise branches w picked w') : R w w' := by
  induction p with
  | last w => exact refl_of R w
  | @take test _ _ _ w _ e _ =>
    have h := (keeps_evaluate k r.strict test w).state
    rw [e] at h
    exact h
  | @skip test _ _ _ _ w _ _ e _ _ ih =>
    have h := (keeps_evaluate k r.strict test w).state
    rw [e] at h
    exact trans_of R h ih

/-- Induction on the rounds that were done. -/
theorem turns_to {target : String} {items loop n p : Nat} {body : List (Node Value)}
    {ks : List Rest} {w w' : World} (t : Turns host r target items loop body n p w ks w')
    (hr : Runs items loop w) : R w w' ∧ ∀ x ∈ ks, x.Valid Runs w' := by
  induction t with
  | @now _ p item w e =>
    have hturn : R w (w.withTurn items loop p) := k.turns p hr
    have h : R w _ := trans_of R hturn (k.changes (·.push (roundFrame target item loop)) _)
    refine ⟨h, ?_⟩
    intro x hx
    rcases List.mem_cons.mp hx with rfl | hx
    · trivial
    · obtain rfl := List.mem_singleton.mp hx
      exact k.runs hr h
  | @later _ p item _ _ w w' _ e round t ih =>
    have hturn : R w (w.withTurn items loop p) := k.turns p hr
    have hround := (k.keeps_inScope (roundFrame target item loop)
      (fun w _ => keeps_renderNodes k body _) (w.withTurn items loop p)).state
    rw [round] at hround
    have h : R w w' := trans_of R hturn hround
    obtain ⟨h', hks⟩ := ih (k.runs hr h)
    refine ⟨trans_of R h h', fun x hx => ?_⟩
    rcases List.mem_append.mp hx with hx | hx
    · exact hks x hx
    · obtain rfl := List.mem_singleton.mp hx
      trivial

theorem enters {node : Node Value} {body : List (Node Value)} {ks : List Rest} {w w' : World}
    (hw : Inv w) (h : Enters host r node w body ks w') :
    R w w' ∧ ∀ x ∈ ks, x.Valid Runs w' := by
  cases h with
  | choice p => exact ⟨k.picks p, nofun⟩
  | @empty _ _ items _ _ v _ w₁ _ e e' =>
    have h₁ := (keeps_evaluate k r.strict items w).state
    have h₂ := (k.keeps_items v w₁).state
    rw [e] at h₁
    rw [e'] at h₂
    exact ⟨trans_of R h₁ h₂, nofun⟩
  | @round _ _ items _ _ v y ys _ _ w₁ w₂ _ e e' t =>
    have h₁ := (keeps_evaluate k r.strict items w).state
    have h₂ := (k.keeps_items v w₁).state
    rw [e] at h₁
    rw [e'] at h₂
    have h₁₂ : R w w₂ := trans_of R h₁ h₂
    obtain ⟨h₃, hr⟩ := k.begins (y :: ys) (k.inv hw h₁₂)
    obtain ⟨h₄, hks⟩ := k.turns_to t hr
    exact ⟨trans_of R h₁₂ (trans_of R h₃ h₄), hks⟩
  | @scope _ bindings _ es _ w₁ e =>
    have h₁ := (k.keeps_evaluateNamed bindings w).state
    rw [e] at h₁
    refine ⟨trans_of R h₁ (k.changes (·.push (.ofNamed es)) w₁), fun x hx => ?_⟩
    obtain rfl := List.mem_singleton.mp hx
    trivial

/-- Up to a call, and in all loops that are left then. -/
theorem comes {nodes : List (Node Value)} {c : CallSite} {ks : List Rest} {w w' : World}
    (hw : Inv w) (h : Comes host r nodes w c ks w') : R w w' ∧ ∀ x ∈ ks, x.Valid Runs w' := by
  induction h with
  | call place tag args named target rest w =>
    refine ⟨k.line w place.line, fun x hx => ?_⟩
    rcases List.mem_append.mp hx with hx | hx
    · obtain ⟨name, -, rfl⟩ := Option.map_eq_some_iff.mp (Option.mem_toList.mp hx)
      trivial
    · obtain rfl := List.mem_singleton.mp hx
      trivial
  | @inside node rest _ _ _ _ w _ _ e h ih =>
    have hline : R w (w.atLine node.place.line) := k.line w node.place.line
    have hw₁ := k.inv hw hline
    obtain ⟨h₁, hks⟩ := k.enters hw₁ e
    obtain ⟨h₂, hks'⟩ := ih (k.inv hw₁ h₁)
    refine ⟨trans_of R hline (trans_of R h₁ h₂), fun x hx => ?_⟩
    rcases List.mem_append.mp hx with hx | hx
    · exact hks' x hx
    · rcases List.mem_append.mp hx with hx | hx
      · exact k.valid hks h₂ x hx
      · obtain rfl := List.mem_singleton.mp hx
        trivial
  | @later node _ _ _ _ w _ _ e h ih =>
    have h₁ := (keeps_renderNode k node (w.atLine node.place.line)).state
    rw [e] at h₁
    have hline : R w (w.atLine node.place.line) := k.line w node.place.line
    obtain ⟨h₂, hks⟩ := ih (k.inv (k.inv hw hline) h₁)
    refine ⟨trans_of R hline (trans_of R h₁ h₂), fun x hx => ?_⟩
    rcases List.mem_append.mp hx with hx | hx
    · exact hks x hx
    · obtain rfl := List.mem_singleton.mp hx
      trivial

/-- From a call on, up to wherever the render passes. -/
theorem passes {ks : List Rest} {text : String} {w w' : World} (hw : Inv w)
    (hks : ∀ x ∈ ks, x.Valid Runs w) (p : Passes host r ks text w w') : R w w' := by
  have hfirst : ∀ first rest, ks = first ++ rest →
      R w ((finishAll host r first (Run.resume (.ok text))).exec w).2 := by
    rintro first rest rfl
    have hact : (Run.resume (.ok text) : Run World String).Keeps R w := .of_same rfl
    exact (k.keeps_finishAll (fun x hx => hks x (List.mem_append_left _ hx)) hact).state
  cases p with
  | done e => exact hfirst _ _ e
  | @calls first rest x _ _ w₁ _ e h comes =>
    have h₁ := hfirst _ _ e
    rw [h] at h₁
    have hx : x.Valid Runs w₁ := k.valid hks h₁ x (by rw [e]; simp)
    have hw₁ := k.inv hw h₁
    cases comes with
    | nodes c => exact trans_of R h₁ (k.comes hw₁ c).1
    | rounds t c =>
      have h₂ := (k.turns_to t hx).1
      exact trans_of R h₁ (trans_of R h₂ (k.comes (k.inv hw₁ h₂) c).1)

end Renderer.Respects

end Stencil
