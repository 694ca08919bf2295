/-
Stencil/Proofs/Render/Persist.lean

What succeeds where an environment is strict goes the same way where it is
lenient.  One run *persists* in another if, whenever it succeeds in a world, the
other gives the same result in the world in which the environment is lenient, and
what they leave differs in nothing else (`Persists`).  There is a rule for each
way of putting runs together; a run that never succeeds persists in any other.

The strictness of a render is looked at in two places, both after a value was
found to be missing: there a strict run stops, and a lenient one has absence.
So expressions persist, by induction, when the leniency of the second is handed
on to all that is evaluated in them (`persists_evaluate`), and then nodes do, by
induction on the tree (`persists_renderNodes`).  Of the tags it is asked that
their functions persist in the calls that the render makes (`CallsPersist`).
-/
import Stencil.Proofs.Render.Arrival
import Stencil.Render.Template

namespace Stencil

variable {α β : Type} {e : Nat} {w : World} {host : Host} {r : Renderer} {strict : Bool}

/-! ### Runs that never succeed -/

/-- The run does not succeed, wherever it starts. -/
def Run.Stops {σ : Type} (act : Run σ α) : Prop := ∀ s a s', act.exec s ≠ (.ok a, s')

namespace Run.Stops

variable {σ : Type} {act : Run σ α} {f : α → Run σ β}

theorem fail (f : Fault) : (Run.fail f : Run σ α).Stops := fun _ _ _ h => by cases h

theorem failWith (E : Failure) : (Run.failWith E : Run σ α).Stops := fun _ _ _ h => by cases h

theorem unfinished : (Run.unfinished : Run σ α).Stops := fun _ _ _ h => by cases h

theorem resume (s : Stop) : (Run.resume (.error s) : Run σ α).Stops := fun _ _ _ h => by cases h

theorem bind (h : ∀ a, (f a).Stops) : (act >>= f).Stops := by
  intro s b s'' ok
  obtain ⟨a, s', -, rest⟩ := Run.exec_bind_eq_ok ok
  exact h a s' b s'' rest

end Run.Stops

theorem stops_undefined (slot : Nat) (name : String) : (undefined slot name).Stops :=
  .bind fun _ => .bind fun _ => .fail _

theorem stops_unknown (what name : String) (line : Int) (advice : Option String) (code : Code) :
    (unknown (β := β) what name line advice code).Stops := .bind fun _ => .fail _

/-! ### Lenient worlds -/

/-- The world in which an environment is lenient. -/
def World.lenient (e : Nat) (w : World) : World :=
  w.changeEnvironment e fun x => { x with strict := false }

@[simp] theorem World.heap_lenient (e : Nat) (w : World) : (w.lenient e).heap = w.heap := rfl

@[simp] theorem World.loans_lenient (e : Nat) (w : World) : (w.lenient e).loans = w.loans := rfl

@[simp] theorem World.contextIn_lenient (e slot : Nat) (w : World) :
    (w.lenient e).contextIn slot = w.contextIn slot := rfl

theorem World.inCall_lenient (e : Nat) (w : World) : (w.lenient e).inCall = w.inCall.lenient e := rfl

theorem World.changeTally_lenient (f : Tally → Tally) (w : World) :
    (w.lenient e).changeTally f = (w.changeTally f).lenient e := by
  -- It goes by the innermost rendering, and no rendering knows of the environments.
  rw [changeTally, changeTally, lenient, changeEnvironment]
  dsimp only
  split <;> rfl

/-! ### Runs that persist -/

/-- When a run succeeds in a world, another has the same result where an environment is lenient, and
leaves the same but for that. -/
def Persists (e : Nat) (w : World) (act act' : Run World α) : Prop :=
  ∀ a w', act.exec w = (.ok a, w') → act'.exec (w.lenient e) = (.ok a, w'.lenient e)

namespace Persists

variable {act act' : Run World α} {f f' : α → Run World β}

theorem of_stops (h : act.Stops) : Persists e w act act' := fun a w' ok => absurd ok (h w a w')

theorem pure (a : α) : Persists e w (Pure.pure a) (Pure.pure a) := by
  intro b w' ok
  cases ok
  rfl

theorem bind_of_ok (h : Persists e w act act')
    (hf : ∀ a w', act.exec w = (.ok a, w') → Persists e w' (f a) (f' a)) :
    Persists e w (act >>= f) (act' >>= f') := by
  intro b w'' ok
  obtain ⟨a, w', ok, rest⟩ := Run.exec_bind_eq_ok ok
  rw [Run.exec_bind_ok (h a w' ok)]
  exact hf a w' ok b w'' rest

theorem bind (h : Persists e w act act') (hf : ∀ a w', Persists e w' (f a) (f' a)) :
    Persists e w (act >>= f) (act' >>= f') := bind_of_ok h fun a w' _ => hf a w'

theorem get_bind {f f' : World → Run World β} (h : Persists e w (f w) (f' (w.lenient e))) :
    Persists e w (get >>= f) (get >>= f') := h

theorem set_bind {t : World} {f f' : PUnit → Run World β} (h : Persists e t (f ⟨⟩) (f' ⟨⟩)) :
    Persists e w (set t >>= f) (set (t.lenient e) >>= f') := h

theorem modify_bind {g : World → World} {f f' : PUnit → Run World β}
    (hg : g (w.lenient e) = (g w).lenient e) (h : Persists e (g w) (f ⟨⟩) (f' ⟨⟩)) :
    Persists e w ((modify g : Run World PUnit) >>= f) ((modify g : Run World PUnit) >>= f') := by
  intro b w' ok
  rw [Run.exec_modify_bind] at ok ⊢
  rw [hg]
  exact h b w' ok

theorem modify {g : World → World} (h : ∀ w, g (w.lenient e) = (g w).lenient e) :
    Persists e w (modify g) (modify g) := by
  intro a w' ok
  cases ok
  exact congrArg (Prod.mk _) (h w)

theorem ofExcept (x : Except Fault α) : Persists e w (Run.ofExcept x) (Run.ofExcept x) := by
  intro a w' ok
  obtain ⟨rfl, rfl⟩ := Run.exec_ofExcept_eq_ok.mp ok
  rfl

/-- A run on a part of the world that has no environments. -/
theorem within {τ : Type} {part : World → τ} {put : τ → World → World} (act : Run τ α)
    (hpart : part (w.lenient e) = part w)
    (hput : ∀ t, put t (w.lenient e) = (put t w).lenient e) :
    Persists e w (Run.within part put act) (Run.within part put act) := by
  intro a w' ok
  rw [Run.exec_within] at ok ⊢
  rw [hpart, hput]
  obtain ⟨hresult, rfl⟩ := Prod.mk.inj ok
  exact Prod.ext hresult rfl

theorem onLoans (act : Run (Loans Value) α) : Persists e w (onLoans act) (onLoans act) :=
  within act rfl fun _ => rfl

theorem onHeap (act : Run Heap α) : Persists e w (onHeap act) (onHeap act) :=
  within act rfl fun _ => rfl

theorem copying (act : Run Copying α) : Persists e w (copying act) (copying act) :=
  within act rfl fun _ => rfl

theorem writeRecord (x : Record) : Persists e w (writeRecord x) (writeRecord x) :=
  modify fun _ => rfl

theorem ensuring {last last' : Run World Unit} (h : Persists e w act act')
    (hlast : ∀ w', Persists e w' last last') :
    Persists e w (Run.ensuring act last) (Run.ensuring act' last') := by
  intro a w'' ok
  rw [Run.exec_ensuring] at ok
  rcases ea : act.exec w with ⟨x, w'⟩
  rcases el : last.exec w' with ⟨s | ⟨⟩, w₁⟩ <;> rw [ea, el] at ok <;> cases ok
  have ea' := h a w' ea
  rw [Run.exec_ensuring, ea', hlast w' () w'' el]

/-- A handler that never succeeds. -/
theorem catching {handler handler' : Failure → Run World α} (h : Persists e w act act')
    (stops : ∀ E, (handler E).Stops) :
    Persists e w (Run.catching act handler) (Run.catching act' handler') := by
  intro a w'' ok
  rw [Run.exec_catching] at ok
  rcases ea : act.exec w with ⟨(E | -) | b, w'⟩ <;> rw [ea] at ok
  · dsimp only at ok
    split at ok
    -- The only way to succeed after a failure would be by the handler.
    · exact absurd ok (stops E w' a w'')
    · cases ok
  · cases ok
  · cases ok
    exact Run.exec_catching_ok (h a w'' ea)

theorem mending {mend mend' : Run World Unit} (h : Persists e w act act') :
    Persists e w (Run.mending act mend) (Run.mending act' mend') := by
  intro a w'' ok
  rw [Run.exec_mending] at ok
  rcases ea : act.exec w with ⟨E | b, w'⟩ <;> rw [ea] at ok
  · dsimp only at ok
    split at ok <;> cases ok
  · cases ok
    exact Run.exec_mending_ok (h a w'' ea)

/-- A run that goes on after another has ended, but stops when that one has stopped. -/
theorem outcome_bind {f f' : Except Stop α → Run World β} (h : Persists e w act act')
    (hf : ∀ a w', Persists e w' (f (.ok a)) (f' (.ok a))) (stops : ∀ s, (f (.error s)).Stops) :
    Persists e w (act.outcome >>= f) (act'.outcome >>= f') := by
  intro b w'' ok
  rw [Run.exec_outcome_bind] at ok ⊢
  rcases ea : act.exec w with ⟨s | a, w'⟩ <;> rw [ea] at ok
  · exact absurd ok (stops s w' b w'')
  · rw [h a w' ea]
    exact hf a w' b w'' ok

end Persists

/-! ### Calls of tags -/

theorem persists_getBack (name : String) (slot own : Nat) (clone : Clone) :
    Persists e w (getBack name slot own clone) (getBack name slot own clone) := by
  have hunique : ∀ w, Persists e w (reclaimUnique own) (reclaimUnique own) := by
    intro w
    refine .get_bind ?_
    rw [World.loans_lenient]
    split
    · exact .of_stops (.fail _)
    · exact .bind (.onLoans _) fun c w' => .bind (.onLoans _) fun _ w' => .pure c
  have hcopy : ∀ w, Persists e w (reclaimCopy own clone) (reclaimCopy own clone) := by
    intro w
    refine .bind (.onLoans _) fun cell w' => .bind (.ensuring ?_ fun _ => .onLoans _) fun c w' => ?_
    · exact .bind (.onLoans _) fun c w' => .get_bind (.bind (.copying _) fun _ _ => .onLoans _)
    · exact .get_bind (.bind (.writeRecord _) fun _ _ => .bind (.onLoans _) fun _ _ => .pure c)
  have hcount : ∀ path w, Persists e w (countPath path) (countPath path) := fun _ _ =>
    .modify (World.changeTally_lenient _)
  have hreclaim : Persists e w (reclaim own clone) (reclaim own clone) := by
    refine .get_bind ?_
    rw [World.loans_lenient]
    split
    · exact .bind (hunique w) fun c w' => .bind (hcount _ w') fun _ _ => .pure _
    · exact .bind (hcopy w) fun c w' => .bind (hcount _ w') fun _ _ => .pure _
  refine .bind (.bind hreclaim.mending fun back w' => ?_) fun path _ => .writeRecord _
  exact .bind (.onLoans _) fun _ _ => .pure _

theorem persists_callTag {act act' : Run World Value} (name : String) (h : Persists e w act act') :
    Persists e w (callTag name act) (callTag name act') := by
  refine .catching h fun E => ?_
  split
  · exact .failWith E
  · exact .bind fun _ => .bind fun _ => .failWith _

theorem persists_giveBack {act act' : Run World Value} (lent : Nat) (h : Persists e w act act') :
    Persists e w (giveBack lent act) (giveBack lent act') := by
  refine .outcome_bind h (fun a _ => .bind (.onLoans _) fun _ _ => .pure a) fun s => ?_
  dsimp only
  split
  · exact .resume s
  · exact .bind fun _ => .resume s

section

variable {t : TagDefinition} {vs : List Value} {ns : Bindings String Value}

theorem TagDefinition.entered_lenient (slot : Nat) (w : World) :
    t.entered slot (w.lenient e) = (t.entered slot w).lenient e := by
  rw [entered, entered]
  split
  · rfl
  · rw [World.startOfCall, World.startOfCall, World.inCall_lenient, World.changeTally_lenient]
    rfl

/-- The function of a tag persists in a call. -/
def TagDefinition.PersistsIn (t : TagDefinition) (host : Host) (e slot : Nat) (vs : List Value)
    (ns : Bindings String Value) (w : World) : Prop :=
  Persists e (t.entered slot w) (t.function host vs ns w) (t.function host vs ns w)

/-- The call of a context tag, when it is known how its function ends. -/
theorem TagDefinition.exec_invoke_of_exec (ht : t.mode = .context) {x : Except Stop Value}
    {w₁ : World} (h : (callTag t.name (giveBack (w.loans.handles.size + 1)
      (t.function host vs ns w))).exec (t.entered r.slot w) = (x, w₁)) :
    (t.invoke host r vs ns).exec w.inCall =
      endCall w.loans.handles.size (w.loans.handles.size + 1) x ((t.recovery host r w).exec w₁) := by
  rw [exec_invoke_context ht, done, World.endOfCall, h]

/-- A call that succeeds is that of a function that does, and the context could be got back. -/
theorem persists_invoke (h : t.PersistsIn host e r.slot vs ns w) :
    Persists e w.inCall (t.invoke host r vs ns) (t.invoke host r vs ns) := by
  intro v w' ok
  rcases ht : t.mode with - | -
  -- A plain tag is lent nothing, so the call is its function.
  · rw [TagDefinition.exec_invoke_plain ht] at ok
    have ok' := persists_callTag t.name h v w' ok
    rw [← TagDefinition.entered_lenient] at ok'
    exact (TagDefinition.exec_invoke_plain (w := w.lenient e) ht).trans ok'
  -- A context tag: the context was got back, or the call would have failed.  How its function ended
  -- and how that went persist one after the other.
  · have hcall := persists_callTag t.name (persists_giveBack (w.loans.handles.size + 1) h)
    rcases ec : (callTag t.name (giveBack (w.loans.handles.size + 1)
      (t.function host vs ns w))).exec (t.entered r.slot w) with ⟨x, w₁⟩
    rw [TagDefinition.exec_invoke_of_exec ht ec, endCall] at ok
    rcases eb : (t.recovery host r w).exec w₁ with ⟨s | ⟨⟩, w₂⟩ <;> rw [eb] at ok <;> cases ok
    have ec' := hcall v w₁ ec
    rw [← TagDefinition.entered_lenient] at ec'
    have eb' : (t.recovery host r w).exec (w₁.lenient e) = (.ok (), w₂.lenient e) :=
      persists_getBack _ _ _ _ () w₂ eb
    exact (TagDefinition.exec_invoke_of_exec (w := w.lenient e) ht ec').trans
      (congrArg (endCall _ _ _) eb')

theorem persists_render (h : t.PersistsIn host e r.slot vs ns w) :
    Persists e w ((TagEntry.tag t).render host r vs ns) ((TagEntry.tag t).render host r vs ns) := by
  intro text w' ok
  rw [TagEntry.exec_render] at ok
  refine (TagEntry.exec_render t (w.lenient e)).trans ?_
  rcases ei : (t.invoke host r vs ns).exec w.inCall with ⟨s | v, w₁⟩ <;> rw [ei] at ok
  · cases ok
  · have ei' : (t.invoke host r vs ns).exec (w.lenient e).inCall = (.ok v, w₁.lenient e) :=
      persists_invoke h v w₁ ei
    rw [ei']
    exact Persists.bind (.pure v) (fun v w => .get_bind (.ofExcept _)) text w' ok

end

/-! ### Expressions -/

/-- What is not there: a strict run stops, a lenient one has absence. -/
theorem persists_missing {act act' : Run World Value} {b b' : Bool} (hb : b' = true → b = true)
    (h : act.Stops) :
    Persists e w (if b = true then act else pure .absent)
      (if b' = true then act' else pure .absent) := by
  cases b with
  | true => exact .of_stops h
  | false =>
    rw [if_neg Bool.false_ne_true, if_neg fun h => Bool.false_ne_true (hb h)]
    exact .pure _

theorem persists_memberOf (v : Value) (segment : String) :
    Persists e w (memberOf v segment) (memberOf v segment) := by
  rw [memberOf]
  split
  · exact .pure none
  · exact .get_bind (.ofExcept _)

mutual

/-- Leniency is handed on.  Induction on the expression. -/
theorem persists_evaluate {b b' : Bool} (hb : b' = true → b = true) : ∀ (x : Expr Value) (w : World),
    Persists e w (evaluate host r b x) (evaluate host { r with strict } b' x)
  | .const _ value, w => by
    rw [evaluate, evaluate]
    exact .pure value
  | .name _ name, w => by
    rw [evaluate, evaluate]
    refine .get_bind ?_
    rw [World.contextIn_lenient]
    rcases (w.contextIn r.slot).lookup? name with - | v
    · exact persists_missing hb (stops_undefined r.slot name)
    · exact .pure v
  | .member _ object segment, w => by
    rw [evaluate, evaluate]
    refine .bind (persists_evaluate hb object w) fun v w => ?_
    refine .bind (persists_memberOf v segment) fun found w => ?_
    split
    · exact .pure _
    · exact persists_missing hb (.bind fun _ => .bind fun _ => stops_undefined r.slot _)
  | .not _ operand, w => by
    rw [evaluate, evaluate]
    exact .bind (persists_evaluate hb operand w) fun v w => .get_bind (.pure _)
  | .filter place value name args, w => by
    rw [evaluate, evaluate]
    dsimp only
    rcases r.filters.get? name with - | f
    · exact .of_stops (stops_unknown _ _ _ _ _)
    -- A filter for missing values makes both evaluations of its value lenient.
    · have hvalue : (b' && !lenientFilters.contains name) = true →
          (b && !lenientFilters.contains name) = true := by
        rw [Bool.and_eq_true, Bool.and_eq_true]
        exact And.imp_left hb
      refine .bind (persists_evaluate hvalue value w) fun v w => ?_
      exact .bind (persists_evaluateAll hb args w) fun vs w => .onHeap _
  | .bare _, w => by
    rw [evaluate]
    exact .of_stops (.fail _)
  | .node _, w => by
    rw [evaluate]
    exact .of_stops (.fail _)

theorem persists_evaluateAll {b b' : Bool} (hb : b' = true → b = true) :
    ∀ (xs : List (Expr Value)) (w : World),
      Persists e w (evaluateAll host r b xs) (evaluateAll host { r with strict } b' xs)
  | [], w => by
    rw [evaluateAll, evaluateAll]
    exact .pure []
  | x :: xs, w => by
    rw [evaluateAll, evaluateAll]
    refine .bind (persists_evaluate hb x w) fun v w => ?_
    exact .bind (persists_evaluateAll hb xs w) fun vs w => .pure _

end

/-! ### Nodes -/

/-- The functions of tags persist in the calls of a node. -/
def Node.CallsPersist (host : Host) (r : Renderer) (e : Nat) (node : Node Value) (w : World) : Prop :=
  ∀ t vs ns w', node.Calls host r w (.tag t) vs ns w' → t.PersistsIn host e r.slot vs ns w'

/-- The functions of tags persist in the calls that are made when nodes are rendered. -/
def CallsPersist (host : Host) (r : Renderer) (e : Nat) (nodes : List (Node Value)) (w : World) :
    Prop :=
  ∀ node ks w', Arrives host r nodes w node ks w' → node.CallsPersist host r e w'

section

variable (hs : strict = true → r.strict = true)
include hs

theorem persists_evaluateNamed (xs : List (String × Expr Value)) :
    Persists e w (evaluateNamed host r xs) (evaluateNamed host { r with strict } xs) := by
  induction xs generalizing w with
  | nil =>
    rw [evaluateNamed, evaluateNamed]
    exact .pure []
  | cons x xs ih =>
    rw [evaluateNamed, evaluateNamed]
    exact .bind (persists_evaluate hs x.2 w) fun v w => .bind ih fun vs w => .pure _

theorem persists_renderCall {place : Position} {tag : String} {args : List (Expr Value)}
    {named : List (String × Expr Value)} {target : Option String}
    (calls : (Node.call place tag args named target).CallsPersist host r e w) :
    Persists e w (renderCall host r place.line tag args named)
      (renderCall host { r with strict } place.line tag args named) := by
  rw [renderCall, renderCall]
  dsimp only
  rcases known : r.tags.get? tag with - | entry
  · exact .of_stops (stops_unknown _ _ _ _ _)
  refine .bind_of_ok (persists_evaluateAll hs args w) fun vs w₁ oks => ?_
  refine .bind_of_ok (persists_evaluateNamed hs named) fun ns w₂ okn => ?_
  cases entry with
  | filter f =>
    refine .of_stops fun v text v' ok => ?_
    cases ok
  | tag t => exact persists_render (calls t vs (.ofList ns) w₂ ⟨known, oks, okn⟩)

end

theorem persists_inScope {act act' : Run World β} (slot : Nat) (frame : Frame Value)
    (h : Persists e (w.changeIn slot (·.push frame)) act act') :
    Persists e w (inScope slot frame act) (inScope slot frame act') :=
  .ensuring h fun _ => .get_bind (.bind (.onLoans _) fun _ _ => .pure ())

theorem persists_assign (slot : Nat) (name : String) (v : Value) :
    Persists e w (assign slot name v) (assign slot name v) := .modify fun _ => rfl

/-- Both go the way that a test says. -/
theorem persists_holds {yes yes' no no' : Run World β} {v : Value}
    (hyes : w.heap.truth v = true → Persists e w yes yes')
    (hno : w.heap.truth v = false → Persists e w no no') :
    Persists e w (do if ← holds v then yes else no) (do if ← holds v then yes' else no') := by
  intro b w' ok
  rw [Run.exec_bind_ok (exec_holds ..)] at ok ⊢
  rw [World.heap_lenient]
  rcases ht : w.heap.truth v with - | - <;> rw [ht] at ok
  · exact hno ht b w' ok
  · exact hyes ht b w' ok

/-- Induction on the number of rounds. -/
theorem persists_runRounds {target : String} {items loop n p : Nat} {body : List (Node Value)}
    {act : Run World String}
    (h : ∀ ks w', Turns host r target items loop body n p w ks w' →
      Persists e w' (renderNodes host r body) act) :
    Persists e w (runRounds r.slot target items loop (renderNodes host r body) n p)
      (runRounds r.slot target items loop act n p) := by
  induction n generalizing p w with
  | zero =>
    rw [runRounds, runRounds]
    refine .get_bind ?_
    rw [World.heap_lenient]
    rcases (w.heap.listItems items)[p]? with - | item
    · exact .pure ""
    -- The list grew past the rounds there are, so the strict run has no result to keep.
    · exact .of_stops .unfinished
  | succ n ih =>
    rw [runRounds, runRounds]
    refine .get_bind ?_
    rw [World.heap_lenient]
    rcases hitem : (w.heap.listItems items)[p]? with - | item
    · exact .pure ""
    · refine .set_bind (t := w.withTurn items loop p) ?_
      refine .bind_of_ok (persists_inScope r.slot _ (h _ _ (.now hitem))) fun text w₁ round => ?_
      exact .bind (ih fun ks w' t => h _ w' (.later hitem round t)) fun rest w => .pure _

theorem persists_runLoop {target : String} {x : Value} {xs : List Value} {body : List (Node Value)}
    {act : Run World String}
    (h : ∀ ks w', Turns host r target w.heap.objects.size (w.heap.objects.size + 1) body
      ((x :: xs).length + host.growth) 0 (w.withLoop (x :: xs)) ks w' →
      Persists e w' (renderNodes host r body) act) :
    Persists e w (runLoop host r.slot target (x :: xs) (renderNodes host r body))
      (runLoop host r.slot target (x :: xs) act) := persists_runRounds h

mutual

/-- Induction on the node. -/
theorem persists_renderNode (hs : strict = true → r.strict = true) :
    ∀ (node : Node Value) (w : World), node.CallsPersist host r e w →
      (∀ body ks w', Enters host r node w body ks w' → CallsPersist host r e body w') →
      Persists e w (renderNode host r node) (renderNode host { r with strict } node)
  | .data _ text, w, _, _ => by
    rw [renderNode, renderNode]
    exact .pure text
  | .output _ value, w, _, _ => by
    rw [renderNode, renderNode]
    exact .bind (persists_evaluate hs value w) fun v w => .get_bind (.ofExcept _)
  | .choice place test body others otherwise, w, _, bodies => by
    rw [renderNode, renderNode]
    refine .bind_of_ok (persists_evaluate hs test w) fun v w₁ ok => persists_holds ?_ ?_
    · exact fun ht => persists_renderNodes hs body w₁ (bodies _ _ _ (.choice (.take ok ht)))
    · exact fun ht => persists_renderBranches hs (persists_renderNodes hs otherwise) others w₁
        fun picked w' p => bodies _ _ _ (.choice (.skip ok ht p))
  | .loop _ target items body empty, w, _, bodies => by
    rw [renderNode, renderNode]
    refine .bind_of_ok (persists_evaluate hs items w) fun v w₁ ok => ?_
    refine .bind_of_ok (.onHeap _) fun vs w₂ okv => ?_
    cases vs with
    | nil => exact persists_renderNodes hs empty w₂ (bodies _ _ _ (.empty ok okv))
    | cons x xs =>
      exact persists_runLoop fun ks w' t =>
        persists_renderNodes hs body w' (bodies _ _ _ (.round ok okv t))
  | .scope _ bindings body, w, _, bodies => by
    rw [renderNode, renderNode]
    refine .bind_of_ok (persists_evaluateNamed hs bindings) fun entries w₁ ok => ?_
    exact persists_inScope r.slot _ (persists_renderNodes hs body _ (bodies _ _ _ (.scope ok)))
  | .assign _ target value, w, _, _ => by
    rw [renderNode, renderNode]
    refine .bind (persists_evaluate hs value w) fun v w => ?_
    exact .bind (persists_assign r.slot target v) fun _ w => .pure ""
  | .call place tag args named target, w, calls, _ => by
    rw [renderNode, renderNode]
    refine .bind (persists_renderCall hs calls) fun text w => ?_
    split
    · exact .bind (persists_assign r.slot _ _) fun _ w => .pure ""
    · exact .pure text
  | .bare _ _, w, _, _ => by
    rw [renderNode]
    exact .of_stops (.fail _)
  | .tree _ _ _, w, _, _ => by
    rw [renderNode]
    exact .of_stops (.fail _)
  | .expr _ _, w, _, _ => by
    rw [renderNode]
    exact .of_stops (.fail _)

theorem persists_renderNodes (hs : strict = true → r.strict = true) :
    ∀ (nodes : List (Node Value)) (w : World), CallsPersist host r e nodes w →
      Persists e w (renderNodes host r nodes) (renderNodes host { r with strict } nodes)
  | [], w, _ => by
    rw [renderNodes, renderNodes]
    exact .pure ""
  | node :: rest, w, calls => by
    have hnode := persists_renderNode hs node (w.atLine node.place.line)
      (calls node _ _ (.here node rest w)) fun body ks w' enters inner ks' w'' arrives =>
        calls inner _ w'' (.inside enters arrives)
    rw [renderNodes, renderNodes]
    -- The rest starts where the strict node ended, so its calls are those of the strict render.
    refine .modify_bind rfl (.bind_of_ok hnode fun text w₁ ok => ?_)
    refine .bind (persists_renderNodes hs rest w₁ fun next ks w' arrives => ?_) fun more w => .pure _
    exact calls next _ w' (.later ok arrives)

theorem persists_renderBranches (hs : strict = true → r.strict = true)
    {otherwise : List (Node Value)} {otherwise' : Run World String}
    (hotherwise : ∀ w, CallsPersist host r e otherwise w →
      Persists e w (renderNodes host r otherwise) otherwise') :
    ∀ (branches : List (Branch Value)) (w : World),
      (∀ picked w', Picks host r otherwise branches w picked w' → CallsPersist host r e picked w') →
      Persists e w (renderBranches host r (renderNodes host r otherwise) branches)
        (renderBranches host { r with strict } otherwise' branches)
  | [], w, bodies => by
    rw [renderBranches, renderBranches]
    exact hotherwise w (bodies _ _ (.last w))
  | .mk test body :: rest, w, bodies => by
    rw [renderBranches, renderBranches]
    refine .bind_of_ok (persists_evaluate hs test w) fun v w₁ ok => persists_holds ?_ ?_
    · exact fun ht => persists_renderNodes hs body w₁ (bodies _ _ (.take ok ht))
    · exact fun ht => persists_renderBranches hs hotherwise rest w₁
        fun picked w' p => bodies _ _ (.skip ok ht p)

end

end Stencil
