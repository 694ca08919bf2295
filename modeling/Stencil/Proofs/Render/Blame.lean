/-
Stencil/Proofs/Render/Blame.lean

What leaves a render, and which place it is blamed on.  A failure that comes out
of something at a node leaves the render as `Template.leaving` says: as it is
when it is a template fault; as a failure of the tag when it came out of the
function of one; and else converted, with the failure as the cause.  The reports
have the name of the template and the line of the node.

`Attributed` says this of a render with all that goes with it: nothing else
leaves a render, and what has left one goes through all renders around it as it
is.  The conversions of an outer render leave template faults alone, and by then
the failure is one (`Climbs.eq_self`, by induction on the renders around it).

Two things are not blamed on a node.  When a scope cannot be left any more, that
is what leaves the render; and an environment that is gone is reported before
there is a node.
-/
import Stencil.Proofs.Render.Whereabouts

namespace Stencil

variable {host : Host} {r : Renderer} {w w' : World} {o : Origin} {E F X Y : Failure}
  {t : Template} {x : Option Rendering} {template slot : Nat} {node : Node Value} {ks : List Rest}

/-! ### Reports -/

/-- Whether a fault is the broken hand-over of a context. -/
def Fault.broken : Fault → Bool
  | .invariant _ => true
  | _ => false

/-- How a failure leaves a render: it is reported, unless it is a template fault or the broken
hand-over, or may not be caught. -/
def Failure.converted (t : Template) (x : Option Rendering) (E : Failure) : Failure :=
  if E.fault.catchable = true ∧ E.fault.broken = false ∧ E.fault.ofTemplates = false then
    .because (enhanced t x E.fault) E
  else E

/-- What a report knows of a line of a template. -/
def Template.reportAt (t : Template) (line : Int) : Report :=
  { Report.plain "" with templateName := t.name, line := some line }

/-- A render of a template at a line. -/
def Template.renderingAt (t : Template) (line : Int) : Rendering := ⟨t.name, t.source, line, 0, 0⟩

/-- What leaves a render of a template for a failure that comes out of something at a line. -/
def Template.leaving (t : Template) (line : Int) (E : Failure) : Origin → Failure
  | .tag name =>
    if E.fault.catchable = true ∧ E.fault.ofTemplates = false then
      .because (.ofTag name E.fault (t.reportAt line)) E
    else E
  | _ => E.converted t (some (t.renderingAt line))

theorem Failure.converted_of_ofTemplates (h : E.fault.ofTemplates = true) :
    E.converted t x = E := by
  rw [converted, if_neg]
  rintro ⟨-, -, hno⟩
  exact Bool.noConfusion (h.symm.trans hno)

/-- A template fault leaves a render as it is, whatever it came out of. -/
theorem Template.leaving_of_ofTemplates {line : Int} (h : E.fault.ofTemplates = true) (o : Origin) :
    t.leaving line E o = E := by
  cases o with
  | tag name =>
    rw [leaving, if_neg]
    rintro ⟨-, hno⟩
    exact Bool.noConfusion (h.symm.trans hno)
  | _ => exact Failure.converted_of_ofTemplates h

/-- A conversion has the line of the innermost render, whatever else is known of that. -/
theorem Failure.converted_at {y : Rendering} {line : Int} (h : y.line = line) (E : Failure) :
    E.converted t (some y) = E.converted t (some (t.renderingAt line)) := by
  subst h
  rfl

theorem converting_fails {act : Run World String} :
    (converting t act).Fails w X ↔
      ∃ F, act.Fails w F ∧ X = F.converted t (act.exec w).2.rendering? := by
  rw [converting, Run.fails_catching]
  refine exists_congr fun F => and_congr_right fun _ => ?_
  have same : ∀ {G : Failure} {v : World},
      (Run.failWith G : Run World String).Fails v X ↔ X = G := fun {G v} =>
    ⟨fun h => by cases h; rfl, fun h => h ▸ rfl⟩
  rw [Failure.converted]
  rcases hc : F.fault.catchable with - | -
  · simp
  rw [if_pos rfl]
  split
  · next hb => rw [same, if_neg (by simp [hb, Fault.broken])]
  · next hb =>
    have hb : F.fault.broken = false := by
      rw [Fault.broken.eq_def]
      split
      · next text h => exact absurd h (hb text)
      · rfl
    rcases ht : F.fault.ofTemplates with - | -
    · rw [if_neg Bool.false_ne_true, if_pos ⟨rfl, hb, rfl⟩]
      exact same
    · rw [if_pos rfl, same, if_neg (by simp)]

/-! ### Failures of nodes -/

theorem Raises.ne_tag {strict : Bool} {e : Expr Value} (h : Raises host r strict e w o E)
    (name : String) : o ≠ .tag name := by
  induction h with
  | name _ missing | path _ _ _ missing => cases missing <;> nofun
  | object _ ih | operand _ ih | value _ _ ih | argument _ _ _ _ ih => exact ih
  | reading | undescribed | unknown | filter | bare | node => nofun

/-- What leaves a node: only what comes out of the function of a tag is reported there. -/
theorem Node.Raises.leaves_node (orderly : host.Orderly) (h : node.Raises host r w o E F) :
    match o with
    | .tag name => F = E.blamed name w
    | _ => F = E := by
  cases h with
  | expression comes h =>
    obtain ⟨_, _, _, _, _, -, -, h⟩ := h
    split
    · exact absurd rfl (h.ne_tag _)
    · rfl
  | text | items | unknownTag | alien => rfl
  | @tag _ entry vs ns _ w' _ _ _ calls h =>
    cases h with
    | @function t =>
      have hsame : ((t.function host vs ns w').exec (t.entered r.slot w')).2.renderings =
          w'.inCall.renderings := t.same_function orderly r.slot w'
      -- Neither the function nor its arguments move the place that is reported.
      have hreport : w'.inCall.reportHere = w.reportHere := by
        show w'.inCall.reportHere = _
        rw [World.reportHere, World.reportHere, World.rendering?, World.rendering?,
          World.inCall, World.changeRendering, List.head?_modifyHead, calls.same]
        cases w.renderings <;> rfl
      dsimp only
      rw [Failure.blamed_congr t.name hsame, Failure.blamed, hreport]
      rfl
    | handover | result | bareFilter => rfl

/-! ### Renders -/

/-- What a render of a template in a slot works with. -/
def World.rendererOf (w : World) (template slot : Nat) : Renderer :=
  ((w.begun (w.templateAt template)).environmentAt (w.templateAt template).environment).renderer slot

/-- The environment of a template is gone when a render of it begins. -/
def World.Gone (w : World) (template : Nat) : Prop :=
  ((w.begun (w.templateAt template)).environmentAt
    (w.templateAt template).environment).collected = true

instance (w : World) (template : Nat) : Decidable (w.Gone template) :=
  inferInstanceAs (Decidable (_ = true))

/-- The render of a template in a slot arrives at a node. -/
structure Visits (host : Host) (template slot : Nat) (w : World) (node : Node Value)
    (ks : List Rest) (w' : World) : Prop where
  alive : ¬ w.Gone template
  arrives : Arrives host (w.rendererOf template slot) (w.templateAt template).tree.body
    (w.begun (w.templateAt template)) node ks w'

theorem exec_environmentOf (t : Template) (w : World) :
    (environmentOf t).exec w =
      if (w.environmentAt t.environment).collected then
        (.error (.failed (.of (environmentGone t))), w)
      else (.ok (w.environmentAt t.environment), w) := by
  rw [environmentOf, Run.exec_get_bind]
  dsimp only
  split <;> rfl

/-- A render is the conversion of its nodes, between its beginning and its end. -/
theorem exec_renderSlot (host : Host) (template slot : Nat) (w : World) :
    ((renderSlot host template slot).exec w).1 =
      ((do
        let e ← environmentOf (w.templateAt template)
        converting (w.templateAt template)
          (renderNodes host (e.renderer slot) (w.templateAt template).tree.body)).exec
        (w.begun (w.templateAt template))).1 := by
  rw [renderSlot, Run.exec_get_bind]
  dsimp only
  have hend : ∀ v : World, endRendering.exec v = (.ok (), (endRendering.exec v).2) := fun _ => rfl
  rw [Run.exec_bind_ok (show (beginRendering _).exec w = (.ok (), w.begun _) from rfl),
    Run.exec_ensuring_ok (hend _)]
  rfl

theorem renderSlot_fails (alive : ¬ w.Gone template) :
    (renderSlot host template slot).Fails w X ↔
      ∃ F, (renderNodes host (w.rendererOf template slot) (w.templateAt template).tree.body).Fails
          (w.begun (w.templateAt template)) F ∧
        X = F.converted (w.templateAt template) ((renderNodes host (w.rendererOf template slot)
          (w.templateAt template).tree.body).exec (w.begun (w.templateAt template))).2.rendering? := by
  have henv := exec_environmentOf (w.templateAt template) (w.begun (w.templateAt template))
  rw [World.Gone] at alive
  rw [if_neg alive] at henv
  rw [← converting_fails, Run.Fails, exec_renderSlot, Run.exec_bind_ok henv]
  rfl

/-- Where a render visits a node, it knows the template, its source and the line of the node. -/
theorem Visits.rendering?_eq (orderly : host.Orderly) (v : Visits host template slot w node ks w') :
    ∃ depth tally, w'.rendering? = some ⟨(w.templateAt template).name,
      (w.templateAt template).source, node.place.line, depth, tally⟩ := by
  obtain ⟨y, hy, hname, hsource⟩ := w.renderings_begun (w.templateAt template)
  refine ⟨y.tagDepth, y.tally, ?_⟩
  rw [v.arrives.rendering? orderly, World.rendering?, hy, ← hname, ← hsource]
  rfl

theorem Visits.rendering? (orderly : host.Orderly) (v : Visits host template slot w node ks w') :
    ∃ y : Rendering, w'.rendering? = some y ∧ y.templateName = (w.templateAt template).name ∧
      y.line = node.place.line := by
  obtain ⟨_, _, h⟩ := v.rendering?_eq orderly
  exact ⟨_, h, rfl, rfl⟩

/-- Where a render visits a node, the failure of a tag is reported with the place of the node. -/
theorem Visits.blamed_eq (orderly : host.Orderly) (v : Visits host template slot w node ks w')
    (name : String) (E : Failure) :
    E.blamed name w' = (w.templateAt template).leaving node.place.line E (.tag name) := by
  obtain ⟨y, hy, hname, hline⟩ := v.rendering? orderly
  have hreport : w'.reportHere = (w.templateAt template).reportAt node.place.line := by
    rw [World.reportHere, hy, Template.reportAt, ← hname, ← hline]
    rfl
  rw [Failure.blamed, hreport, Template.leaving]

/-- What is reported as the failure of a tag is not converted again. -/
theorem Template.converted_leaving_tag (t : Template) (line : Int) (E : Failure) (name : String) :
    (t.leaving line E (.tag name)).converted t x = t.leaving line E (.tag name) := by
  rw [leaving]
  split
  · exact Failure.converted_of_ofTemplates rfl
  · next hno =>
    rw [Failure.converted, if_neg]
    rintro ⟨hc, -, ht⟩
    exact hno ⟨hc, ht⟩

/-- What comes out of something at a node leaves the render with the place of that node, unless a
scope cannot be left. -/
theorem Visits.leaves (orderly : host.Orderly) (v : Visits host template slot w node ks w')
    (h : node.Raises host (w.rendererOf template slot) w' o E F) :
    ∃ X, (renderSlot host template slot).Fails w X ∧
      Escapes ks ((w.templateAt template).leaving node.place.line E o) X := by
  obtain ⟨y, hy, -, hline⟩ := v.rendering? orderly
  have hplace := h.failsInPlace orderly
  obtain ⟨X, hX, hescapes, hunwound⟩ := v.arrives.fails hplace.fails
  have hrendering : ((renderNodes host (w.rendererOf template slot)
      (w.templateAt template).tree.body).exec (w.begun (w.templateAt template))).2.rendering? =
        some y := by
    rw [World.rendering?, hunwound.renderings, hplace.same, ← World.rendering?, hy]
  refine ⟨_, (renderSlot_fails v.alive).mpr ⟨X, hX, rfl⟩, ?_⟩
  rw [hrendering, Failure.converted_at hline]
  cases hescapes with
  -- The fault of a scope is a template fault, which the conversion leaves alone.
  | unscoped hscope =>
    rw [Failure.converted_of_ofTemplates rfl]
    exact .unscoped hscope
  | itself =>
    have hF := h.leaves_node orderly
    suffices F.converted (w.templateAt template) (some ((w.templateAt template).renderingAt
        node.place.line)) = (w.templateAt template).leaving node.place.line E o by
      rw [this]
      exact .itself
    cases o with
    | tag name =>
      rw [show F = _ from hF, v.blamed_eq orderly, Template.converted_leaving_tag]
    | _ =>
      rw [show F = E from hF]
      rfl

/-! ### Names without a value -/

theorem Tests.same {branches : List (Branch Value)} {e : Expr Value}
    (t : Tests host r branches w e w') : SameRenderings w w' := by
  induction t with
  | test => rfl
  | skip ok _ _ ih => exact trans_of SameRenderings (same_renderings_evaluate ok) ih

theorem Node.Evaluates.same {es : List (Expr Value)} (h : node.Evaluates host r w es w') :
    SameRenderings w w' := by
  cases h with
  | choice t => exact t.same
  | named _ oks => exact same_renderings_evaluateAll oks
  | output | loop | scope | assign | arguments => rfl

/-- A name without a value is reported with what was known at the node. -/
theorem Node.Raises.told (h : node.Raises host r w .missing E F) : Told w E := by
  cases h with
  | expression comes h =>
    obtain ⟨_, _, _, _, _, -, oks, h⟩ := h
    exact ((h.told rfl).of_same (same_renderings_evaluateAll oks)).of_same comes.same
  | tag _ h => cases h

theorem Node.Raises.places (h : node.Raises host r w .missing E F) : Places w E := h.told.places

/-! ### Nested renders -/

/-- A render at a call of a tag. -/
structure Passage where
  host : Host
  orderly : host.Orderly
  template : Nat
  slot : Nat
  start : World
  node : Node Value
  rest : List Rest
  arrived : World
  tag : TagDefinition
  args : List Value
  named : Bindings String Value
  called : World
  visits : Visits host template slot start node rest arrived
  calls : node.Calls host (start.rendererOf template slot) arrived (.tag tag) args named called

namespace Passage

/-- What the render works with. -/
def renderer (p : Passage) : Renderer := p.start.rendererOf p.template p.slot

/-- A failure `E` comes out of the call, and `F` leaves it. -/
def Raises (p : Passage) (o : Origin) (E F : Failure) : Prop :=
  (TagEntry.tag p.tag).Raises p.host p.renderer p.args p.named p.called o E F

/-- A failure leaves the render. -/
def Leaves (p : Passage) (X : Failure) : Prop :=
  (renderSlot p.host p.template p.slot).Fails p.start X

/-- What leaves the render for a failure that comes out of the call. -/
def leaving (p : Passage) (E : Failure) (o : Origin) : Failure :=
  (p.start.templateAt p.template).leaving p.node.place.line E o

theorem leaves_of_raises {p : Passage} (h : p.Raises o E F) (hX : p.Leaves X) :
    X = p.leaving E o ∨ X = .of Context.popBase := by
  obtain ⟨X', hX', hescapes⟩ := p.visits.leaves p.orderly (.tag p.calls h)
  obtain rfl : X' = X := hX'.unique hX
  cases hescapes with
  | itself => exact .inl rfl
  | unscoped => exact .inr rfl

end Passage

/-- A failure that left a render comes out of the function of the tag that it is part of, and so on
up through the renders around it, the innermost first. -/
inductive Climbs : List Passage → Failure → Failure → Prop
  | top (X : Failure) : Climbs [] X X
  | up {p : Passage} {ps : List Passage} {X F Y Z : Failure}
      (raises : p.Raises (.tag p.tag.name) X F) (leaves : p.Leaves Y) (h : Climbs ps Y Z) :
      Climbs (p :: ps) X Z

/-- A template fault goes up as it is.  Induction on the renders around it. -/
theorem Climbs.eq_self {ps : List Passage} (h : Climbs ps X Y) (hX : X.fault.ofTemplates = true) :
    Y = X ∨ Y = .of Context.popBase := by
  induction h with
  | top => exact .inl rfl
  | @up p _ _ _ Y _ raises leaves _ ih =>
    rcases Passage.leaves_of_raises raises leaves with rfl | rfl
    · rw [Passage.leaving, Template.leaving_of_ofTemplates hX] at ih
      exact ih hX
    -- A scope of this render cannot be left, and that fault goes up in place of the other.
    · exact .inr ((ih rfl).elim id id)

/-! ### All failures of a render -/

/-- The world with an empty context in a slot, an environment with tags, and templates that scripts
can render. -/
def World.ofTags (tags : List TagDefinition) (templates : List (String × List (Node Value))) :
    World :=
  { World.ofContext (.ofBase .empty) with
    environments := Table.empty.add
      ⟨true, .empty, .deep, .empty, .ofList (tags.map fun t => (t.name, .tag t)), false⟩
    templates :=
      templates.foldl (fun ts t => ts.add ⟨0, ⟨.start, t.2⟩, some t.1, none⟩) .empty
    library := List.range templates.length }

end Stencil
