/-
Stencil/Proofs/Render/Discipline.lean

The scope discipline of a whole render.  However a render ends, and whatever its
tags do with their handles, the context of its slot has the frames that it had.
The frames below the innermost one are as they were, copied at most; and the
innermost one has changed by the writes only that were made from outside every
scope (`outerWritesAll`).  So it is for the body of each scope, too: below the
frame that was pushed for it nothing is written, and there is a frame to take
off at its end (`renderSlot_disciplined`).

The writes from outside are a function of the render, by recursion like that of
the renderer.  That the context evolves by them is an induction on the tree; in
a scope whatever the body writes goes to the frame that is taken off.
-/
import Stencil.Proofs.Render.Fit
import Stencil.Render.Template

namespace Stencil

variable {host : Host} {r : Renderer} {clone : Clone} {slot : Nat} {w w' w'' : World}
  {ws : List Write}

/-- What calls of tags write to a context. -/
abbrev TagWrites :=
  List Action → Option Nat → List Value → Bindings String Value → World → Nat → List Write

variable {writes : TagWrites}

/-! ### Scopes -/

theorem exec_leaveScope_push {y : Context Value} {g : Frame Value}
    (h : w.contextIn slot = y.push g) :
    (leaveScope slot).exec w = (.ok (), w.changeIn slot fun _ => y) := by
  rw [exec_leaveScope, h]
  rfl

/-- A body was done in a scope of its own, between the worlds `w`, before the frame was pushed, and
`done`: what was there before is copied at most, and the frame on top of it can be taken off. -/
def Scoped (clone : Clone) (slot : Nat) (w done : World) : Prop :=
  ∃ y g, done.contextIn slot = y.push g ∧ Disciplined clone [] (w.contextIn slot) y ∧
    (leaveScope slot).exec done = (.ok (), done.changeIn slot fun _ => y)

/-- Whatever a body writes, its scope holds it. -/
theorem Tends.scoped {f : Frame Value} (hw : w.Fit slot)
    (t : Tends clone slot ws (w.changeIn slot (·.push f)) w') : Scoped clone slot w w' := by
  have e := t.evolves
  rw [hw.contextIn_changeIn] at e
  obtain ⟨y, g, hy, e'⟩ := e.pushed
  exact ⟨y, g, hy, e'.disciplined, exec_leaveScope_push hy⟩

theorem tends_inScope {act : Run World String} (hw : w.Fit slot) (frame : Frame Value)
    (h : ∀ v : World, v.Fit slot → ∃ ws, Tends clone slot ws v (act.exec v).2) :
    Tends clone slot [] w ((inScope slot frame act).exec w).2 := by
  obtain ⟨ws, t⟩ := h _ (hw.changeIn (·.push frame))
  obtain ⟨y, g, hy, d, hleave⟩ := t.scoped hw
  rw [exec_inScope, Run.exec_ensuring_ok hleave]
  refine ⟨t.fit.changeIn _, ?_⟩
  rw [t.fit.contextIn_changeIn]
  exact d.evolves

/-- Induction on the number of rounds. -/
theorem tends_runRounds {target : String} {items loop : Nat} {body : Run World String}
    (h : ∀ v : World, v.Fit slot → ∃ ws, Tends clone slot ws v (body.exec v).2)
    (rounds position : Nat) (hw : w.Fit slot) :
    Tends clone slot [] w
      ((runRounds slot target items loop body rounds position).exec w).2 := by
  induction rounds generalizing position w with
  | zero =>
    rw [runRounds, Run.exec_get_bind]
    split
    · exact .refl hw
    · exact .refl hw
  | succ rounds ih =>
    rw [runRounds, Run.exec_get_bind]
    split
    · exact .refl hw
    · next item _ =>
      dsimp only
      rw [Run.exec_set_bind]
      refine .before (w.withTurn items loop position) hw rfl rfl fun hturn => ?_
      have hround := tends_inScope hturn (roundFrame target item loop) h
      exact hround.bind_nil fun text w₁ _ h₁ =>
        (ih (position + 1) h₁).bind_nil fun rest w₂ _ h₂ => .refl h₂

/-! ### Writes from outside -/

/-- What the call of a tag writes, when it comes to the call. -/
def siteWrites (host : Host) (writes : TagWrites) (r : Renderer) (tag : String)
    (args : List (Expr Value)) (named : List (String × Expr Value)) (w : World) : List Write :=
  match r.tags.get? tag with
  | none => []
  | some entry =>
    Conduct.afterwards (evaluateAll host r r.strict args)
      (fun vs w => Conduct.afterwards (evaluateNamed host r named)
        (fun ns w => callWrites writes r.slot vs (.ofList ns) w entry) w) w

mutual

/-- The writes of a node from outside every scope, in order: those of its `set` nodes and `as`
targets, and of its tags.  A body in a scope has none, whatever it does. -/
def outerWrites (host : Host) (writes : TagWrites) (r : Renderer) :
    Node Value → World → List Write
  | .choice _ test body others otherwise, w =>
    Conduct.afterwards (evaluate host r r.strict test)
      (fun v w =>
        if w.heap.truth v then outerWritesAll host writes r body w
        else outerWritesOf host writes r (outerWritesAll host writes r otherwise) others w) w
  | .loop _ _ items _ empty, w =>
    Conduct.afterwards (evaluate host r r.strict items)
      (fun v w => Conduct.afterwards (onHeap (Heap.itemsOf v))
        (fun vs w => if vs.isEmpty then outerWritesAll host writes r empty w else []) w) w
  | .assign _ target value, w =>
    Conduct.afterwards (evaluate host r r.strict value) (fun v _ => [(target, v)]) w
  | .call place tag args named target, w =>
    siteWrites host writes r tag args named w ++
      Conduct.afterwards (renderCall host r place.line tag args named)
        (fun text _ => target.toList.map fun name => (name, .str text)) w
  | .data _ _, _ | .output _ _, _ | .scope _ _ _, _ | .bare _ _, _ | .tree _ _ _, _
  | .expr _ _, _ => []

/-- The writes of nodes. -/
def outerWritesAll (host : Host) (writes : TagWrites) (r : Renderer) :
    List (Node Value) → World → List Write
  | [], _ => []
  | node :: rest, w =>
    outerWrites host writes r node (w.atLine node.place.line) ++
      Conduct.afterwards (renderNode host r node) (fun _ w => outerWritesAll host writes r rest w)
        (w.atLine node.place.line)

/-- The writes of the branch that is taken, else those of what is left. -/
def outerWritesOf (host : Host) (writes : TagWrites) (r : Renderer)
    (otherwise : World → List Write) : List (Branch Value) → World → List Write
  | [], w => otherwise w
  | .mk test body :: rest, w =>
    Conduct.afterwards (evaluate host r r.strict test)
      (fun v w =>
        if w.heap.truth v then outerWritesAll host writes r body w
        else outerWritesOf host writes r otherwise rest w) w

end

/-! ### Single steps -/

theorem filtersWithin_sameLoans (host : Host) : host.FiltersWithin SameLoans :=
  fun _ _ _ => ⟨rfl, rfl⟩

theorem same_evaluate (host : Host) (r : Renderer) (strict : Bool) (e : Expr Value) (w : World) :
    (evaluate host r strict e).Keeps SameLoans w :=
  evaluate_keeps (filtersWithin_sameLoans host) strict e w

theorem same_items (v : Value) (w : World) : (onHeap (Heap.itemsOf v)).Keeps SameLoans w :=
  .of_exec rfl ⟨rfl, rfl⟩ fun _ _ => trivial

theorem tends_assign (hw : w.Fit slot) (name : String) (v : Value) :
    Tends clone slot [(name, v)] w ((assign slot name v).exec w).2 := by
  refine ⟨hw.changeIn (·.set name v), ?_⟩
  have h : ((assign slot name v).exec w).2.contextIn slot = (w.contextIn slot).set name v :=
    hw.contextIn_changeIn (·.set name v)
  rw [h]
  exact .of_writes (w.contextIn slot) [(name, v)]

theorem tends_renderCall (tame : host.Tame writes) (hw : w.Fit r.slot) (line : Int) (tag : String)
    (args : List (Expr Value)) (named : List (String × Expr Value)) :
    Tends (host.clone r.clone) r.slot (siteWrites host writes r tag args named w) w
      ((renderCall host r line tag args named).exec w).2 := by
  rw [renderCall, siteWrites]
  rcases r.tags.get? tag with - | entry
  · exact .of_loans hw rfl rfl
  · dsimp only
    refine .bind_same hw (evaluateAll_keeps (filtersWithin_sameLoans host) _ _ w)
      fun vs w₁ _ h₁ => ?_
    refine .bind_same h₁ (evaluateNamed_keeps (filtersWithin_sameLoans host) _ w₁)
      fun ns w₂ _ h₂ => ?_
    exact tends_renderTag tame h₂ entry

/-! ### Nodes -/

section Branches

variable {test : Expr Value} {body otherwise : Run World String} {yes no : World → List Write}

/-- A test, and then one of two ways. -/
theorem tends_test (hw : w.Fit slot)
    (hbody : ∀ v : World, v.Fit slot → Tends clone slot (yes v) v (body.exec v).2)
    (hotherwise : ∀ v : World, v.Fit slot → Tends clone slot (no v) v (otherwise.exec v).2) :
    Tends clone slot
      (Conduct.afterwards (evaluate host r r.strict test)
        (fun v w => if w.heap.truth v then yes w else no w) w) w
      (Run.exec (do
        let v ← evaluate host r r.strict test
        if ← holds v then body else otherwise) w).2 := by
  refine .bind_same hw (same_evaluate host r r.strict test w) fun v w₁ _ h₁ => ?_
  rw [Run.exec_bind_ok (exec_holds v w₁)]
  split
  · exact hbody w₁ h₁
  · exact hotherwise w₁ h₁

end Branches

mutual

/-- Induction on the node. -/
theorem tends_renderNode (tame : host.Tame writes) :
    ∀ (node : Node Value) (w : World), w.Fit r.slot →
      Tends (host.clone r.clone) r.slot (outerWrites host writes r node w) w
        ((renderNode host r node).exec w).2
  | .data _ _, w, hw => by
    rw [renderNode, outerWrites]
    exact .refl hw
  | .output _ value, w, hw => by
    rw [renderNode, outerWrites]
    have k := same_evaluate host r r.strict value w
    refine (Tends.of_loans hw k.state.1 k.state.2).bind_nil fun v w₁ _ h₁ => ?_
    rw [printed, Run.exec_get_bind, Run.exec_ofExcept]
    exact .refl h₁
  | .choice _ test body others otherwise, w, hw => by
    rw [renderNode, outerWrites]
    exact tends_test hw (fun v hv => tends_renderNodes tame body v hv) fun v hv =>
      tends_renderBranches tame (fun v hv => tends_renderNodes tame otherwise v hv) others v hv
  | .loop _ target items body empty, w, hw => by
    rw [renderNode, outerWrites]
    refine .bind_same hw (same_evaluate host r r.strict items w) fun v w₁ _ h₁ => ?_
    refine .bind_same h₁ (same_items v w₁) fun vs w₂ _ h₂ => ?_
    split
    · exact tends_renderNodes tame empty w₂ h₂
    · rw [exec_runLoop]
      refine .before (w₂.withLoop vs) h₂ rfl rfl fun hloop => ?_
      exact tends_runRounds (fun v hv => ⟨_, tends_renderNodes tame body v hv⟩) _ _ hloop
  | .scope _ bindings body, w, hw => by
    rw [renderNode, outerWrites]
    have k := evaluateNamed_keeps (r := r) (filtersWithin_sameLoans host) bindings w
    refine (Tends.of_loans hw k.state.1 k.state.2).bind_nil fun es w₁ _ h₁ => ?_
    exact tends_inScope h₁ _ fun v hv => ⟨_, tends_renderNodes tame body v hv⟩
  | .assign _ target value, w, hw => by
    rw [renderNode, outerWrites]
    refine .bind_same hw (same_evaluate host r r.strict value w) fun v w₁ _ h₁ => ?_
    exact (tends_assign h₁ target v).bind_nil fun _ w₂ _ h₂ => .refl h₂
  | .call place tag args named target, w, hw => by
    rw [renderNode, outerWrites]
    refine (tends_renderCall tame hw place.line tag args named).bind fun text w₁ _ h₁ => ?_
    cases target with
    | none => exact .refl h₁
    | some name => exact (tends_assign h₁ name _).bind_nil fun _ w₂ _ h₂ => .refl h₂
  | .bare _ _, w, hw => by
    rw [renderNode, outerWrites]
    exact .refl hw
  | .tree _ _ _, w, hw => by
    rw [renderNode, outerWrites]
    exact .refl hw
  | .expr _ _, w, hw => by
    rw [renderNode, outerWrites]
    exact .refl hw

theorem tends_renderNodes (tame : host.Tame writes) :
    ∀ (nodes : List (Node Value)) (w : World), w.Fit r.slot →
      Tends (host.clone r.clone) r.slot (outerWritesAll host writes r nodes w) w
        ((renderNodes host r nodes).exec w).2
  | [], w, hw => by
    rw [renderNodes, outerWritesAll]
    exact .refl hw
  | node :: rest, w, hw => by
    rw [exec_renderNodes_cons, outerWritesAll]
    refine .before (w.atLine node.place.line) hw rfl rfl fun hline => ?_
    refine (tends_renderNode tame node _ hline).bind fun text w₁ _ h₁ => ?_
    exact (tends_renderNodes tame rest w₁ h₁).bind_nil fun _ w₂ _ h₂ => .refl h₂

theorem tends_renderBranches (tame : host.Tame writes) {otherwise : Run World String}
    {no : World → List Write}
    (h : ∀ v : World, v.Fit r.slot → Tends (host.clone r.clone) r.slot (no v) v (otherwise.exec v).2) :
    ∀ (branches : List (Branch Value)) (w : World), w.Fit r.slot →
      Tends (host.clone r.clone) r.slot (outerWritesOf host writes r no branches w) w
        ((renderBranches host r otherwise branches).exec w).2
  | [], w, hw => by
    rw [renderBranches, outerWritesOf]
    exact h w hw
  | .mk test body :: rest, w, hw => by
    rw [renderBranches, outerWritesOf]
    exact tends_test hw (fun v hv => tends_renderNodes tame body v hv) fun v hv =>
      tends_renderBranches tame h rest v hv

end

/-! ### Positions -/

section Positions

variable (tame : host.Tame writes)
include tame

omit tame in
theorem Picks.fit {otherwise picked : List (Node Value)} {branches : List (Branch Value)}
    (p : Picks host r otherwise branches w picked w') (hw : w.Fit slot) : w'.Fit slot := by
  induction p with
  | last w => exact hw
  | @take test _ _ _ w w' e h =>
    have k := (same_evaluate host r r.strict test w).state
    rw [e] at k
    exact hw.congr k.1 k.2
  | @skip test _ _ _ _ w w' _ e h p ih =>
    have k := (same_evaluate host r r.strict test w).state
    rw [e] at k
    exact ih (hw.congr k.1 k.2)

/-- A frame was just pushed, in a fit world. -/
def World.Opened (slot : Nat) (w : World) : Prop :=
  ∃ v : World, ∃ f, v.Fit slot ∧ w = v.changeIn slot (·.push f)

omit tame in
theorem World.Opened.fit (h : w.Opened slot) : w.Fit slot := by
  obtain ⟨v, f, hv, rfl⟩ := h
  exact hv.changeIn _

/-- The body of a round begins in a scope. -/
theorem Turns.opened {target : String} {items loop n p : Nat} {body : List (Node Value)}
    {ks : List Rest} (t : Turns host r target items loop body n p w ks w') (hw : w.Fit r.slot) :
    w'.Opened r.slot := by
  induction t with
  | @now n p item w e => exact ⟨w.withTurn items loop p, _, hw.congr rfl rfl, rfl⟩
  | @later n p item text ks w w₁ w₂ e round t ih =>
    have hturn : (w.withTurn items loop p).Fit r.slot := hw.congr rfl rfl
    have h : Tends (host.clone r.clone) r.slot [] _ _ := tends_inScope hturn
      (roundFrame target item loop) fun v hv => ⟨_, tends_renderNodes tame body v hv⟩
    rw [round] at h
    exact ih h.fit

/-- Where a body begins the world is fit; where the body is in a scope, that was just opened. -/
theorem Enters.fit {node : Node Value} {body : List (Node Value)} {ks : List Rest}
    (e : Enters host r node w body ks w') (hw : w.Fit r.slot) :
    w'.Fit r.slot ∧ (ks.head? = some .scope → w'.Opened r.slot) := by
  have hsame : ∀ {v v' : World}, SameLoans v v' → v.Fit r.slot → v'.Fit r.slot :=
    fun k hv => hv.congr k.1 k.2
  cases e with
  | choice p =>
    refine ⟨p.fit hw, fun h => ?_⟩
    cases h
  | @empty _ _ items _ _ v _ w₁ _ e e' =>
    have k := (same_evaluate host r r.strict items w).state
    have k' := (same_items v w₁).state
    rw [e] at k
    rw [e'] at k'
    refine ⟨hsame k' (hsame k hw), fun h => ?_⟩
    cases h
  | @round _ _ items _ _ v x xs _ _ w₁ w₂ _ e e' t =>
    have k := (same_evaluate host r r.strict items w).state
    have k' := (same_items v w₁).state
    rw [e] at k
    rw [e'] at k'
    have hloop : (w₂.withLoop (x :: xs)).Fit r.slot :=
      (hsame k' (hsame k hw)).congr rfl rfl
    have h := t.opened tame hloop
    exact ⟨h.fit, fun _ => h⟩
  | @scope _ bindings _ es _ w₁ e =>
    have k := (evaluateNamed_keeps (r := r) (filtersWithin_sameLoans host) bindings w).state
    rw [e] at k
    have h : World.Opened r.slot (w₁.changeIn r.slot (·.push (.ofNamed es))) :=
      ⟨w₁, _, hsame k hw, rfl⟩
    exact ⟨h.fit, fun _ => h⟩

omit tame in
theorem Reaches.ne_nil {nodes body : List (Node Value)} {ks : List Rest}
    (h : Reaches host r nodes w body ks w') : ks ≠ [] := by
  cases h <;> simp

/-- So it is for every body that a render comes to. -/
theorem Reaches.opened {nodes body : List (Node Value)} {ks : List Rest}
    (h : Reaches host r nodes w body ks w') (hw : w.Fit r.slot)
    (hscope : ks.head? = some .scope) : w'.Opened r.slot := by
  have hline : ∀ (node : Node Value) {w : World}, w.Fit r.slot →
      (w.atLine node.place.line).Fit r.slot := fun _ _ hw => hw.congr rfl rfl
  induction h with
  | @here node rest body ks w w' e =>
    refine (e.fit tame (hline node hw)).2 ?_
    rcases ks with - | ⟨k, ks⟩
    · cases hscope
    · exact hscope
  | @inside node rest body body' ks₁ ks₂ w w' w'' e h ih =>
    obtain ⟨k, ks, rfl⟩ := List.exists_cons_of_ne_nil h.ne_nil
    exact ih (e.fit tame (hline node hw)).1 hscope
  | @later node rest body ks₁ text w w' w'' e h ih =>
    have t := tends_renderNode (r := r) tame node _ (hline node hw)
    rw [e] at t
    obtain ⟨k, ks, rfl⟩ := List.exists_cons_of_ne_nil h.ne_nil
    exact ih t.fit hscope

end Positions

/-! ### Whole renders -/

/-- The world when the render of a template begins. -/
def World.begun (t : Template) (w : World) : World := ((beginRendering t).exec w).2

theorem World.same_begun (t : Template) (w : World) : SameLoans w (w.begun t) := by
  rw [begun, beginRendering, Run.exec_modify]
  split
  · exact ⟨rfl, rfl⟩
  · exact ⟨rfl, rfl⟩

/-- What a template is rendered with in a slot. -/
def Environment.renderer (e : Environment) (slot : Nat) : Renderer :=
  ⟨slot, e.strict, e.clone, e.filters, e.tags⟩

/-- Reporting a fault changes nothing. -/
theorem exec_converting_state (t : Template) (act : Run World String) (w : World) :
    ((converting t act).exec w).2 = (act.exec w).2 := by
  rw [converting, Run.exec_catching]
  rcases act.exec w with ⟨(f | -) | v, w'⟩
  · dsimp only
    split
    · split
      · rfl
      · split
        · rfl
        · rfl
    · rfl
  · rfl
  · rfl

/-- What a render leaves, whatever becomes of the text. -/
theorem exec_renderSlot_state (host : Host) (template slot : Nat) (w : World) :
    let t := w.templateAt template
    let e := (w.begun t).environmentAt t.environment
    ((renderSlot host template slot).exec w).2 =
      (endRendering.exec
        (if e.collected then w.begun t
          else ((renderNodes host (e.renderer slot) t.tree.body).exec (w.begun t)).2)).2 := by
  intro t e
  have hbegin : (beginRendering t).exec w = (.ok (), w.begun t) := rfl
  rw [renderSlot, Run.exec_get_bind]
  dsimp only
  rw [Run.exec_bind_ok hbegin]
  have hend : ∀ v : World, endRendering.exec v = (.ok (), (endRendering.exec v).2) := fun _ => rfl
  rw [Run.exec_ensuring_ok (hend _)]
  have henv : (environmentOf t).exec (w.begun t) =
      if e.collected then (.error (.failed (.of (environmentGone t))), w.begun t)
      else (.ok e, w.begun t) := by
    rw [environmentOf, Run.exec_get_bind]
    dsimp only
    split <;> rfl
  dsimp only
  split
  · next h =>
    rw [if_pos h] at henv
    rw [Run.exec_bind_error henv]
  · next h =>
    rw [if_neg h] at henv
    rw [Run.exec_bind_ok henv, exec_converting_state]
    rfl

/-- The discipline of scopes.  The tags may be any that get at contexts by handles only, and may
keep handles.  However the render of a template in a slot ends, the context of the slot has evolved
by the writes from outside all scopes; and wherever the render comes to a body in a scope, however
that body ends, what was there before is copied at most, and the scope is left without a fault. -/
theorem renderSlot_disciplined (host : Host)
    (tags : List Action → List Value → Bindings String Value → Errand) (template : Nat)
    {slot : Nat} (fit : w.Fit slot) :
    let h := host.sends tags
    let t := w.templateAt template
    let begun := w.begun t
    let e := begun.environmentAt t.environment
    let r := e.renderer slot
    let written := if e.collected then []
      else outerWritesAll h (errandWrites tags) r t.tree.body begun
    Disciplined (host.clone e.clone) written (w.contextIn slot)
        (((renderSlot h template slot).exec w).2.contextIn slot) ∧
      ∀ body ks w₁, Reaches h r t.tree.body begun body (.scope :: ks) w₁ →
        ∃ before f, w₁ = World.changeIn slot (·.push f) before ∧
          Scoped (host.clone e.clone) slot before ((renderNodes h r body).exec w₁).2 := by
  intro h t begun e r written
  have tame : h.Tame (errandWrites tags) := host.tame_sends tags
  have hbegun : begun.Fit slot := fit.congr (w.same_begun t).1 (w.same_begun t).2
  refine ⟨?_, fun body ks w₁ hreach => ?_⟩
  · refine Evolves.disciplined (Tends.evolves (?_ : Tends _ slot written w _))
    refine .before begun fit (w.same_begun t).1 (w.same_begun t).2 fun _ => ?_
    have hbody : Tends (host.clone e.clone) slot written begun
        (if e.collected then begun else ((renderNodes h r t.tree.body).exec begun).2) := by
      by_cases hc : e.collected = true
      · rw [show written = [] from if_pos hc, if_pos hc]
        exact .refl hbegun
      · rw [show written = _ from if_neg hc, if_neg hc]
        exact tends_renderNodes (r := r) tame t.tree.body begun hbegun
    rw [exec_renderSlot_state]
    exact hbody.after rfl rfl
  · obtain ⟨v, f, hv, rfl⟩ := hreach.opened tame hbegun rfl
    exact ⟨v, f, rfl, (tends_renderNodes (r := r) tame body _ (hv.changeIn _)).scoped hv⟩

/-! ### A render of one template -/

/-- The world with a context in a slot, and a template that can be rendered in it. -/
def World.ofTemplate (x : Context Value) (tags : Bindings String TagEntry)
    (body : List (Node Value)) : World :=
  { World.ofContext x with
    environments := Table.empty.add ⟨true, .empty, .deep, .empty, tags, false⟩
    templates := Table.empty.add ⟨0, ⟨.start, body⟩, none, none⟩ }

theorem World.fit_ofTemplate (x : Context Value) (tags : Bindings String TagEntry)
    (body : List (Node Value)) : (World.ofTemplate x tags body).Fit 0 :=
  ⟨World.sound_ofContext x, ⟨⟨0, false⟩, rfl⟩, fun _ hh => nomatch hh⟩

/-- Tags and filters give nothing; values are copied deeply. -/
def Host.plain : Host where
  call _ _ _ _ := pure .absent
  filter _ _ := pure .absent
  clone _ := Copying.deepCopy
  growth := 0

/-- A tag that binds a name and keeps the handle it was lent. -/
def Errand.keeping (name : String) (v : Value) : Errand :=
  touch (.own 0) (.access (.set name v)) fun _ => keep (.own 0) (finish (.ok .absent))

/-- In a scope a tag binds a name and keeps its handle, so the slot gets a copy; after the scope a
name is set.  That is the only write from outside. -/
theorem renderSlot_disciplined_kept :
    let body : List (Node Value) :=
      [.scope ⟨1, 0⟩ [("y", .const ⟨1, 0⟩ (.int 1))] [.call ⟨1, 0⟩ "k" [] [] none],
        .assign ⟨1, 0⟩ "x" (.const ⟨1, 0⟩ (.int 2))]
    let base : Context Value := (Context.ofBase (.ofNamed [("a", .int 0)])).push .empty
    let w := World.ofTemplate base (.ofList [("k", .tag ⟨"k", [], .context⟩)]) body
    let after := ((renderSlot (Host.plain.sends fun _ _ _ => .keeping "z" (.int 3)) 0 0).exec w).2
    Disciplined Copying.deepCopy [("x", .int 2)] base (after.contextIn 0) ∧
      after.kept = [1] ∧ (after.loans.slotAt 0).context = 2 := by
  intro body base w after
  let tags := fun (_ : List Action) (_ : List Value) (_ : Bindings String Value) =>
    Errand.keeping "z" (.int 3)
  let r : Renderer := ⟨0, true, .deep, .empty, .ofList [("k", .tag ⟨"k", [], .context⟩)]⟩
  have hfit : w.Fit 0 := World.fit_ofTemplate base _ body
  have hwritten : outerWritesAll (Host.plain.sends tags) (errandWrites tags) r body
      (w.begun (w.templateAt 0)) = [("x", .int 2)] := by decide +kernel
  have h := (renderSlot_disciplined Host.plain tags 0 hfit).1
  have hkept : after.kept = [1] := by decide +kernel
  have hslot : (after.loans.slotAt 0).context = 2 := by decide +kernel
  refine ⟨?_, hkept, hslot⟩
  rw [← hwritten]
  exact h

end Stencil
