/-
Stencil/Proofs/Render/Whereabouts.lean

The renders under way.  A render puts itself on the list of renders and takes
itself off at the end; in between only its own line and depth change.  So when
the calls of tags leave the list as they find it (`Host.Orderly`), a whole
render does (`renderSlot_orderly`).

Where a render has arrived at a node its line is that of the node
(`Arrives.rendering?`), and it still is when the node has failed before it came
to a body in it (`Node.Raises.failsInPlace`).

Scripts are orderly, however deep their renders are nested
(`orderly_scriptHost`), by induction on the depth.
-/
import Stencil.Proofs.Render.Arrival
import Stencil.Proofs.Render.Discipline
import Stencil.Proofs.Script.Within

namespace Stencil

variable {β : Type} {host : Host} {r : Renderer} {w w' : World} {vs : List Value}
  {ns : Bindings String Value}

/-! ### Getting a context back -/

/-- A run is mended or not, after it has stopped or not. -/
theorem mending_after {R : World → World → Prop} [IsPreorder World R] {act : Run World β}
    {mend : Run World Unit} (hmend : ∀ w, mend.Keeps R w) (w : World) :
    R (act.exec w).2 ((Run.mending act mend).exec w).2 := by
  rw [Run.exec_mending]
  rcases act.exec w with ⟨e | b, w'⟩
  · have h := (hmend w').state
    dsimp only
    rcases em : mend.exec w' with ⟨e' | u, w''⟩ <;> rw [em] at h
    · exact h
    · exact h
  · exact refl_of R w'

/-- Going on with a run. -/
theorem bind_after {γ : Type} {R : World → World → Prop} [IsPreorder World R] {act : Run World β}
    {f : β → Run World γ} {w w' : World} (h : R w' (act.exec w).2) (hf : ∀ b w, (f b).Keeps R w) :
    R w' ((act >>= f).exec w).2 := by
  rw [Run.exec_bind]
  rcases e : act.exec w with ⟨x | b, w''⟩ <;> rw [e] at h
  · exact h
  · exact trans_of R h (hf b w'').state

/-- What is done once the context is there or not. -/
theorem getBack_afterReclaim {R : World → World → Prop} [IsPreorder World R]
    (hswap : ∀ slot c w, (onLoans (Loans.swapBack slot c)).Keeps R w)
    (hrecord : ∀ x w, (writeRecord x).Keeps R w) (name : String) (slot own : Nat) (clone : Clone)
    (w : World) :
    R ((reclaim own clone).exec w).2 ((getBack name slot own clone).exec w).2 := by
  refine bind_after (bind_after (mending_after (fun w' => .get_bind ?mend) w) ?swap)
    fun _ w' => hrecord _ w'
  case mend =>
    split
    · exact hswap _ _ w'
    · exact .pure trivial
  case swap =>
    rintro ⟨c, path⟩ w'
    exact .bind (hswap _ _ w') fun _ _ _ _ => .pure trivial

/-- A relation that looks at nothing that getting a context back changes, but for the counts. -/
structure LendsWithin (R : World → World → Prop) : Prop where
  heap : ∀ w h, R w { w with heap := h }
  loans : ∀ w l, R w { w with loans := l }
  noted : ∀ w xs, R w { w with noted := xs }
  records : ∀ w xs, R w { w with records := xs }

namespace LendsWithin

variable {R : World → World → Prop} [IsPreorder World R] (k : LendsWithin R)
include k

omit [IsPreorder World R] in
theorem onLoans (act : Run (Loans Value) β) (w : World) : (onLoans act).Keeps R w :=
  .of_exec (Run.exec_within ..) (k.loans w _) fun _ _ => trivial

omit [IsPreorder World R] in
theorem writeRecord (x : Record) (w : World) : (writeRecord x).Keeps R w :=
  .of_exec (Run.exec_modify ..) (k.records w _) fun _ _ => trivial

theorem copying (act : Run Copying β) (w : World) : (copying act).Keeps R w := by
  refine .of_exec (Run.exec_within ..) ?_ fun _ _ => trivial
  exact trans_of R (k.heap w _) (trans_of R (k.noted _ _) (k.records _ _))

theorem copyContext (clone : Clone) (c : Nat) (w : World) : (copyContext clone c).Keeps R w :=
  .get_bind (.bind (k.copying _ w) fun _ w' _ _ => k.onLoans _ w')

theorem reclaimUnique (handle : Nat) (w : World) : (reclaimUnique handle).Keeps R w := by
  rw [Stencil.reclaimUnique]
  refine .get_bind ?_
  split
  · exact .fail _
  · refine .bind (k.onLoans _ w) fun c w' _ _ => ?_
    exact .bind (k.onLoans _ w') fun _ _ _ _ => .pure trivial

theorem reclaimCopy (handle : Nat) (clone : Clone) (w : World) :
    (reclaimCopy handle clone).Keeps R w := by
  refine .bind (k.onLoans _ w) fun cell w₁ _ _ => ?_
  refine .bind (.keeps_ensuring (.bind (k.onLoans _ w₁) fun c w₂ _ _ => k.copyContext clone c w₂)
    fun w₂ _ => k.onLoans _ w₂) fun copy w₂ _ _ => .get_bind ?_
  refine .bind (k.writeRecord _ w₂) fun _ w₃ _ _ => ?_
  exact .bind (k.onLoans _ w₃) fun _ _ _ _ => .pure trivial

theorem reclaim (hcount : ∀ path w, (countPath path).Keeps R w) (handle : Nat) (clone : Clone)
    (w : World) : (reclaim handle clone).Keeps R w := by
  rw [Stencil.reclaim]
  refine .get_bind ?_
  split
  · refine .bind (k.reclaimUnique handle w) fun c w₁ _ _ => ?_
    exact .bind (hcount _ w₁) fun _ _ _ _ => .pure trivial
  · refine .bind (k.reclaimCopy handle clone w) fun c w₁ _ _ => ?_
    exact .bind (hcount _ w₁) fun _ _ _ _ => .pure trivial

theorem getBack (hcount : ∀ path w, (countPath path).Keeps R w) (name : String) (slot own : Nat)
    (clone : Clone) (w : World) : (getBack name slot own clone).Keeps R w :=
  ⟨trans_of R (k.reclaim hcount own clone w).state 
    (getBack_afterReclaim (fun _ _ => k.onLoans _) k.writeRecord name slot own clone w),
    fun _ _ _ => trivial⟩

end LendsWithin

/-! ### Steps that leave the renders alone -/

theorem lendsWithin_sameRenderings : LendsWithin SameRenderings :=
  ⟨fun _ _ => rfl, fun _ _ => rfl, fun _ _ => rfl, fun _ _ => rfl⟩

theorem same_onHeap (act : Run Heap β) (w : World) : (onHeap act).Keeps SameRenderings w :=
  .of_exec (Run.exec_within ..) rfl fun _ _ => trivial

theorem same_countPath (path : ReclaimPath) (w : World) : (countPath path).Keeps SameRenderings w :=
  .of_exec (Run.exec_modify ..) (World.renderings_changeTally ..) fun _ _ => trivial

theorem same_getBack (name : String) (slot own : Nat) (clone : Clone) (w : World) :
    (getBack name slot own clone).Keeps SameRenderings w :=
  lendsWithin_sameRenderings.getBack same_countPath name slot own clone w

/-! ### Calls of tags -/

/-- Calls of tags leave the renders under way as they find them. -/
def Host.Orderly (host : Host) : Prop :=
  ∀ body lent vs ns w, (host.call body lent vs ns).Keeps SameRenderings w

namespace TagDefinition

theorem renderings_entered (t : TagDefinition) (slot : Nat) (w : World) :
    (t.entered slot w).renderings = w.inCall.renderings := by
  rw [entered]
  split
  · rfl
  · exact World.renderings_changeTally ..

theorem same_function (orderly : host.Orderly) (t : TagDefinition) (slot : Nat) (w : World) :
    ((t.function host vs ns w).exec (t.entered slot w)).2.renderings = w.inCall.renderings :=
  (orderly _ _ _ _ _).state.trans (t.renderings_entered slot w)

theorem renderings_callTag (name : String) (body : Run World Value) (w : World) :
    ((callTag name body).exec w).2.renderings = (body.exec w).2.renderings := by
  rw [callTag_rest]

theorem renderings_done (orderly : host.Orderly) (t : TagDefinition) (slot : Nat) (w : World) :
    (t.done host slot vs ns w).renderings = w.inCall.renderings := by
  rw [done, World.endOfCall, renderings_callTag, renderings_giveBack, same_function orderly]

theorem renderings_invoke (orderly : host.Orderly) (t : TagDefinition) (w : World) :
    ((t.invoke host r vs ns).exec w.inCall).2.renderings = w.inCall.renderings := by
  rcases ht : t.mode with - | -
  · rw [exec_invoke_plain ht, renderings_callTag, same_function orderly]
  · rw [exec_invoke_context ht, endCall]
    exact (same_getBack ..).state.trans (renderings_done orderly t r.slot w)

end TagDefinition

theorem World.renderings_outOfCall {w w' : World} (h : w'.renderings = w.inCall.renderings) :
    w'.outOfCall.renderings = w.renderings := by
  show w'.renderings.modifyHead _ = _
  rw [h]
  show (w.renderings.modifyHead _).modifyHead _ = _
  cases w.renderings with
  | nil => rfl
  | cons => rfl

/-- Writing the result of a tag changes nothing. -/
theorem TagEntry.state_render (t : TagDefinition) (w : World) :
    ((TagEntry.render (.tag t) host r vs ns).exec w).2 =
      ((t.invoke host r vs ns).exec w.inCall).2.outOfCall := by
  rw [exec_render]
  dsimp only
  rw [Run.exec_bind, Run.exec_resume]
  rcases ((t.invoke host r vs ns).exec w.inCall).1 with e | v
  · rfl
  · dsimp only
    rw [foldResult, Run.exec_get_bind, Run.exec_ofExcept]

/-- A call of a tag leaves the renders under way as they were. -/
theorem TagEntry.same_render (orderly : host.Orderly) (entry : TagEntry) (w : World) :
    (entry.render host r vs ns).Keeps SameRenderings w := by
  refine ⟨?_, fun _ _ _ => trivial⟩
  cases entry with
  | filter f => exact World.renderings_outOfCall rfl
  | tag t =>
    have hinvoke : ((t.invoke host r vs ns).exec w.inCall).2.renderings = w.inCall.renderings :=
      t.renderings_invoke orderly w
    rw [SameRenderings, state_render]
    exact World.renderings_outOfCall hinvoke

/-! ### Whole renders -/

/-- The renders under way are the same, but for the line of the innermost. -/
def SameButLine (w w' : World) : Prop :=
  w'.renderings.modifyHead (fun r => { r with line := 0 }) =
    w.renderings.modifyHead fun r => { r with line := 0 }

instance : IsPreorder World SameButLine where
  refl _ := rfl
  trans _ _ _ h h' := Eq.trans h' h

theorem SameRenderings.butLine (h : SameRenderings w w') : SameButLine w w' := by
  rw [SameButLine, h]

theorem SameButLine.tail (h : SameButLine w w') : w'.renderings.tail = w.renderings.tail := by
  have ht := congrArg List.tail h
  rwa [List.tail_modifyHead, List.tail_modifyHead] at ht

theorem respects_sameButLine (orderly : host.Orderly) (r : Renderer) :
    r.Respects host (fun _ => True) SameButLine fun _ _ _ => True where
  inv _ _ := trivial
  assume h := h trivial
  line w line := by
    show (w.renderings.modifyHead _).modifyHead _ = _
    cases w.renderings with
    | nil => rfl
    | cons => rfl
  filters _ _ _ := rfl
  items _ _ := rfl
  begins _ _ _ := ⟨rfl, trivial⟩
  turns _ _ := rfl
  runs _ _ := trivial
  changes _ _ := rfl
  calls _ vs ns w := ((TagEntry.same_render orderly _ w).state : SameRenderings _ _).butLine

theorem World.renderings_begun (t : Template) (w : World) :
    ∃ x : Rendering, (w.begun t).renderings = x :: w.renderings ∧ x.templateName = t.name ∧
      x.source = t.source := by
  rw [begun, beginRendering, Run.exec_modify]
  split
  · next h => exact ⟨_, by rw [h], rfl, rfl⟩
  · exact ⟨_, rfl, rfl, rfl⟩

/-- A render leaves the renders under way as they were, however it ends. -/
theorem renderSlot_orderly (orderly : host.Orderly) (template slot : Nat) (w : World) :
    (renderSlot host template slot).Keeps SameRenderings w := by
  refine ⟨?_, fun _ _ _ => trivial⟩
  obtain ⟨x, hx, -, -⟩ := w.renderings_begun (w.templateAt template)
  rw [SameRenderings, exec_renderSlot_state]
  split
  · exact congrArg List.tail hx
  · exact ((respects_sameButLine orderly _).keeps_renderNodes _ _).state.tail.trans
      (congrArg List.tail hx)

theorem render_orderly (orderly : host.Orderly) (template : Nat) (args : List Value)
    (named : List (String × Value)) (w : World) :
    (render host template args named).Keeps SameRenderings w := by
  have henv : (environmentOf (w.templateAt template)).Keeps SameRenderings w := by
    refine .get_bind ?_
    dsimp only
    split
    · exact .fail _
    · exact .pure trivial
  have hbase : ∀ globals w, (baseFrame globals args named).Keeps SameRenderings w := by
    intro globals w
    refine .get_bind ?_
    split
    · exact .pure trivial
    · split
      · exact .pure trivial
      · exact .fail _
    · exact .fail _
  refine .get_bind (.bind henv fun e w₁ _ _ => .bind (hbase e.globals w₁) fun base w₂ _ _ => ?_)
  refine .bind (lendsWithin_sameRenderings.onLoans _ w₂) fun slot w₃ _ _ => ?_
  exact renderSlot_orderly orderly template slot w₃

/-! ### Where a render is -/

/-- What is kept on the way to a node, up to the note of its line. -/
theorem Renderer.Respects.arrives {Inv : World → Prop} {R : World → World → Prop}
    {Runs : Nat → Nat → World → Prop} [IsPreorder World R] (k : r.Respects host Inv R Runs)
    {nodes : List (Node Value)} {node : Node Value} {ks : List Rest} (hw : Inv w)
    (h : Arrives host r nodes w node ks w') : ∃ v, R w v ∧ w' = v.atLine node.place.line := by
  induction h with
  | here node rest w => exact ⟨w, refl_of R w, rfl⟩
  | @inside node _ _ _ _ _ w w₁ _ e h ih =>
    have hline : R w (w.atLine node.place.line) := k.line w node.place.line
    have hw₁ := k.inv hw hline
    have hbody := (k.enters hw₁ e).1
    obtain ⟨v, hv, rfl⟩ := ih (k.inv hw₁ hbody)
    exact ⟨v, trans_of R hline (trans_of R hbody hv), rfl⟩
  | @later node _ _ _ _ w w₁ _ e h ih =>
    have hline : R w (w.atLine node.place.line) := k.line w node.place.line
    have hnode := (k.keeps_renderNode node (w.atLine node.place.line)).state
    rw [e] at hnode
    obtain ⟨v, hv, rfl⟩ := ih (k.inv (k.inv hw hline) hnode)
    exact ⟨v, trans_of R hline (trans_of R hnode hv), rfl⟩

/-- Where a render has arrived at a node, its line is that of the node. -/
theorem Arrives.rendering? (orderly : host.Orderly) {nodes : List (Node Value)} {node : Node Value}
    {ks : List Rest} (h : Arrives host r nodes w node ks w') :
    w'.rendering? = w.rendering?.map fun x => { x with line := node.place.line } := by
  obtain ⟨v, hv, rfl⟩ := (respects_sameButLine orderly r).arrives trivial h
  show (v.renderings.modifyHead _).head? = w.renderings.head?.map _
  have hhead := congrArg List.head? hv
  rw [List.head?_modifyHead, List.head?_modifyHead] at hhead
  rw [List.head?_modifyHead]
  have hline := congrArg (Option.map fun x : Rendering => { x with line := node.place.line }) hhead
  rwa [Option.map_map, Option.map_map] at hline

/-! ### Failing in place -/

/-- The run fails, and the renders under way are still the same. -/
structure FailsInPlace {α : Type} (act : Run World α) (w : World) (F : Failure) : Prop where
  fails : act.Fails w F
  same : SameRenderings w (act.exec w).2

namespace FailsInPlace

variable {α : Type} {act : Run World α} {f : α → Run World β} {F : Failure}

theorem of_keeps (h : act.Fails w F) (k : act.Keeps SameRenderings w) : FailsInPlace act w F :=
  ⟨h, k.state⟩

theorem left (h : FailsInPlace act w F) : FailsInPlace (act >>= f) w F := by
  have e := Run.exec_bind_error (f := f) h.fails.exec
  exact ⟨Run.fails_of_exec e, by rw [e]; exact h.same⟩

theorem right {a : α} (ok : act.exec w = (.ok a, w')) (same : SameRenderings w w')
    (h : FailsInPlace (f a) w' F) : FailsInPlace (act >>= f) w F := by
  have e := Run.exec_bind_ok (f := f) ok
  refine ⟨?_, ?_⟩
  · rw [Run.Fails, e]
    exact h.fails
  · rw [e]
    exact trans_of SameRenderings same h.same

end FailsInPlace

theorem same_renderings_evaluateNamed {es : List (String × Expr Value)}
    {entries : List (String × Value)} (ok : (evaluateNamed host r es).exec w = (.ok entries, w')) :
    SameRenderings w w' := by
  have h := (evaluateNamed_keeps (r := r) (filtersWithin_sameRenderings host) es w).state
  rwa [ok] at h

section

variable {o : Origin} {E F : Failure} {node : Node Value}

theorem Raises.failsInPlace {strict : Bool} {e : Expr Value} (h : Raises host r strict e w o E) :
    FailsInPlace (evaluate host r strict e) w E :=
  .of_keeps h.fails (evaluate_keeps (filtersWithin_sameRenderings host) strict e w)

theorem AllRaise.failsInPlace {strict : Bool} {es : List (Expr Value)}
    (h : AllRaise host r strict es w o E) : FailsInPlace (evaluateAll host r strict es) w E :=
  .of_keeps h.fails (evaluateAll_keeps (filtersWithin_sameRenderings host) strict es w)

theorem AllRaise.failsInPlace_named {es : List (String × Expr Value)}
    (h : AllRaise host r r.strict (es.map (·.2)) w o E) :
    FailsInPlace (evaluateNamed host r es) w E :=
  .of_keeps (evaluateNamed_fails.mpr h.fails)
    (evaluateNamed_keeps (filtersWithin_sameRenderings host) es w)

/-- Induction on the branches before the test. -/
theorem Tests.failsInPlace {branches : List (Branch Value)} {e : Expr Value}
    {otherwise : Run World String} (t : Tests host r branches w e w')
    (h : Raises host r r.strict e w' o E) :
    FailsInPlace (renderBranches host r otherwise branches) w E := by
  induction t with
  | test e body rest w =>
    rw [renderBranches]
    exact h.failsInPlace.left
  | skip ok no t ih =>
    rw [renderBranches]
    refine .right ok (same_renderings_evaluate ok) (.right (exec_holds ..) rfl ?_)
    rw [no, if_neg Bool.false_ne_true]
    exact ih h

/-- Where a node calls a tag, the renders under way are as they were at the node. -/
theorem Node.Calls.same {entry : TagEntry} (calls : node.Calls host r w entry vs ns w') :
    SameRenderings w w' := by
  cases calls with
  | mk known oks okn =>
    exact trans_of SameRenderings (same_renderings_evaluateAll oks)
      (same_renderings_evaluateNamed okn)

/-- Each of the ways makes the node fail, and in place. -/
theorem Node.Raises.failsInPlace (orderly : host.Orderly) (h : node.Raises host r w o E F) :
    FailsInPlace (renderNode host r node) w F := by
  cases h with
  | expression comes h =>
    cases comes with
    | output | loop | assign =>
      rw [renderNode]
      exact h.one.failsInPlace.left
    | choice t =>
      rw [renderNode_choice]
      exact t.failsInPlace h.one
    | scope =>
      rw [renderNode]
      exact h.failsInPlace_named.left
    | arguments known =>
      rw [renderNode, renderCall, known]
      exact h.failsInPlace.left.left
    | named known oks =>
      rw [renderNode, renderCall, known]
      exact (FailsInPlace.right oks (same_renderings_evaluateAll oks) h.failsInPlace_named.left).left
  | text ok fails =>
    rw [renderNode]
    refine .right ok (same_renderings_evaluate ok) (.of_keeps fails ?_)
    exact .get_bind (.ofExcept _)
  | items ok fails =>
    rw [renderNode]
    exact .right ok (same_renderings_evaluate ok)
      (FailsInPlace.of_keeps fails (same_onHeap _ _)).left
  | unknownTag notKnown fails =>
    rw [renderNode]
    refine (FailsInPlace.of_keeps fails ?_).left
    rw [renderCall, notKnown]
    exact keeps_unknown ..
  | @tag _ entry vs ns _ w' _ _ _ calls h =>
    obtain ⟨hfails, hleft⟩ := renderNode_calls calls h.fails
    refine ⟨hfails, ?_⟩
    rw [hleft]
    exact trans_of SameRenderings calls.same (entry.same_render orderly w').state
  | alien h =>
    cases node with
    | bare | tree | expr =>
      cases h
      rw [renderNode]
      exact ⟨rfl, rfl⟩
    | _ => cases h

end

/-! ### Scripts -/

/-- Scripts leave the renders under way as they find them.  Induction on how deep their renders may
be nested. -/
theorem orderly_scriptHost (depth : Nat) : (scriptHost depth).Orderly := by
  have k : ScriptsWithin SameRenderings :=
    ⟨fun _ _ => rfl, fun _ _ => rfl, fun _ _ => rfl, fun _ _ => rfl, fun _ _ => rfl⟩
  induction depth with
  | zero => exact fun _ _ _ _ w => ⟨rfl, fun _ _ _ => trivial⟩
  | succ depth ih =>
    intro body lent vs ns w
    refine .bind (k.actions (fun t ns w => ?_) body w) fun _ _ _ _ => .pure trivial
    exact render_orderly ih t [] ns w

end Stencil
