/-
Stencil/Proofs/Render/Course.lean

The course of a render: what it evaluates, filters, goes through, calls and
binds, and in which worlds, in the order in which it comes to it.  A *moment* is
a world and what is about to be done there; the course of a node is the list of
its moments, by recursion like that of the renderer (`nodeCourse`), with those
of each round of a loop and without those inside the functions of tags.

Suppose that some moments spare an invariant: what is done there keeps it.  All
other steps of a render keep it too (`Renderer.Upholds`).  Then it holds at each
moment of a course if all moments before that one spare it (`HoldsAlong.holds`).
This is an induction on the tree (`Renderer.Upholds.renderNodes`), where it is
also carried along that the invariant holds at the end, if there is one and all
moments spare it.  The invariant may depend on the loops that are running and on
the number of frames that are to be taken off again.
-/
import Stencil.Proofs.Render.Chronicle

namespace Stencil

variable {β γ : Type} {host : Host} {r : Renderer} {w w' : World}

/-! ### Moments -/

/-- What a render is about to do. -/
inductive Doing where
  | asks (strict : Bool) (e : Expr Value)
  | filters (f : Filter) (vs : List Value)
  /-- A loop is to be made of the items of a value. -/
  | goes (v : Value)
  | calls (entry : TagEntry) (vs : List Value) (ns : Bindings String Value)
  /-- A name is to be bound in the innermost frame. -/
  | binds (name : String) (v : Value)

/-- What a render is about to do, and the world where it does. -/
structure Moment where
  world : World
  doing : Doing

section Courses

variable (host : Host) (r : Renderer)

mutual

/-- The course of evaluating an expression. -/
def exprCourse (strict : Bool) : Expr Value → World → List Moment
  | .const place value, w => [⟨w, .asks strict (.const place value)⟩]
  | .name place name, w => [⟨w, .asks strict (.name place name)⟩]
  | .member place object segment, w =>
    ⟨w, .asks strict (.member place object segment)⟩ :: exprCourse strict object w
  | .not place operand, w => ⟨w, .asks strict (.not place operand)⟩ :: exprCourse strict operand w
  | .filter place value name args, w =>
    ⟨w, .asks strict (.filter place value name args)⟩ ::
      match r.filters.get? name with
      | none => []
      | some f =>
        let strict' := strict && !lenientFilters.contains name
        exprCourse strict' value w ++
          notesAfter (evaluate host r strict' value)
            (fun v w => exprsCourse strict args w ++
              notesAfter (evaluateAll host r strict args)
                (fun vs w => [⟨w, .filters f (v :: vs)⟩]) w) w
  | .bare place, w => [⟨w, .asks strict (.bare place)⟩]
  | .node n, w => [⟨w, .asks strict (.node n)⟩]

/-- The course of evaluating expressions, in order. -/
def exprsCourse (strict : Bool) : List (Expr Value) → World → List Moment
  | [], _ => []
  | e :: rest, w =>
    exprCourse strict e w ++
      notesAfter (evaluate host r strict e) (fun _ w => exprsCourse strict rest w) w

end

/-- The course of a call: the arguments, and then the call itself. -/
def callCourse (tag : String) (args : List (Expr Value)) (named : List (String × Expr Value))
    (w : World) : List Moment :=
  match r.tags.get? tag with
  | none => []
  | some entry =>
    exprsCourse host r r.strict args w ++
      notesAfter (evaluateAll host r r.strict args)
        (fun vs w => exprsCourse host r r.strict (named.map (·.2)) w ++
          notesAfter (evaluateNamed host r named)
            (fun ns w => [⟨w, .calls entry vs (.ofList ns)⟩]) w) w

mutual

/-- The course of rendering a node. -/
def nodeCourse : Node Value → World → List Moment
  | .output _ value, w => exprCourse host r r.strict value w
  | .choice _ test body others otherwise, w =>
    exprCourse host r r.strict test w ++
      notesAfter (evaluate host r r.strict test)
        (fun v w =>
          if w.heap.truth v then nodesCourse body w
          else branchesCourse (nodesCourse otherwise) others w) w
  | .loop _ target items body empty, w =>
    exprCourse host r r.strict items w ++
      notesAfter (evaluate host r r.strict items)
        (fun v w => ⟨w, .goes v⟩ :: notesAfter (onHeap (Heap.itemsOf v))
          (fun vs w =>
            if vs.isEmpty then nodesCourse empty w
            else
              notesOfRounds r.slot target w.heap.objects.size (w.heap.objects.size + 1)
                (renderNodes host r body) (nodesCourse body) (vs.length + host.growth) 0
                (w.withLoop vs)) w) w
  | .scope _ bindings body, w =>
    exprsCourse host r r.strict (bindings.map (·.2)) w ++
      notesAfter (evaluateNamed host r bindings)
        (fun entries w => nodesCourse body (w.changeIn r.slot (·.push (.ofNamed entries)))) w
  | .assign _ target value, w =>
    exprCourse host r r.strict value w ++
      notesAfter (evaluate host r r.strict value) (fun v w => [⟨w, .binds target v⟩]) w
  | .call place tag args named target, w =>
    callCourse host r tag args named w ++
      notesAfter (renderCall host r place.line tag args named)
        (fun text w => target.toList.map fun name => ⟨w, .binds name (.str text)⟩) w
  | .data _ _, _ | .bare _ _, _ | .tree _ _ _, _ | .expr _ _, _ => []

/-- The course of rendering nodes, one after the other. -/
def nodesCourse : List (Node Value) → World → List Moment
  | [], _ => []
  | node :: rest, w =>
    nodeCourse node (w.atLine node.place.line) ++
      notesAfter (renderNode host r node) (fun _ w => nodesCourse rest w)
        (w.atLine node.place.line)

/-- The course of the branch that is taken, else that of what is left. -/
def branchesCourse (otherwise : World → List Moment) : List (Branch Value) → World → List Moment
  | [], w => otherwise w
  | .mk test body :: rest, w =>
    exprCourse host r r.strict test w ++
      notesAfter (evaluate host r r.strict test)
        (fun v w =>
          if w.heap.truth v then nodesCourse body w else branchesCourse otherwise rest w) w

end

end Courses

theorem nodesCourse_singleton (node : Node Value) (w : World) :
    nodesCourse host r [node] w = nodeCourse host r node (w.atLine node.place.line) := by
  rw [nodesCourse]
  simp only [nodesCourse, notesAfter_nil, List.append_nil]

/-- A call whose text is not bound to a name. -/
theorem nodeCourse_call (place : Position) (tag : String) (args : List (Expr Value))
    (named : List (String × Expr Value)) (w : World) :
    nodeCourse host r (.call place tag args named none) w = callCourse host r tag args named w := by
  rw [nodeCourse]
  exact (congrArg _ (notesAfter_nil _ _)).trans (List.append_nil _)

/-! ### Along a course -/

section Along

variable {P : World → Prop} {S : Moment → Prop} {J J' : World → Prop} {ms ms' : List Moment}

/-- The worlds of a course are all good, up to a moment that does not spare what is good. -/
def HoldsAlong (P : World → Prop) (S : Moment → Prop) : List Moment → Prop
  | [] => True
  | m :: ms => P m.world ∧ (S m → HoldsAlong P S ms)

theorem holdsAlong_append :
    HoldsAlong P S (ms ++ ms') ↔
      HoldsAlong P S ms ∧ ((∀ m ∈ ms, S m) → HoldsAlong P S ms') := by
  induction ms with
  | nil => exact ⟨fun h => ⟨trivial, fun _ => h⟩, fun h => h.2 nofun⟩
  | cons m ms ih =>
    rw [List.cons_append, HoldsAlong, HoldsAlong, ih]
    constructor
    · rintro ⟨hm, hms⟩
      refine ⟨⟨hm, fun hs => (hms hs).1⟩, fun hall => ?_⟩
      obtain ⟨hs, hrest⟩ := List.forall_mem_cons.mp hall
      exact (hms hs).2 hrest
    · rintro ⟨⟨hm, hms⟩, hlast⟩
      exact ⟨hm, fun hs => ⟨hms hs, fun hall => hlast (List.forall_mem_cons.mpr ⟨hs, hall⟩)⟩⟩

/-- If all moments before it spare what is good, the world of a moment is good. -/
theorem HoldsAlong.holds {before after : List Moment} {m : Moment}
    (h : HoldsAlong P S (before ++ m :: after)) (hs : ∀ q ∈ before, S q) : P m.world :=
  ((holdsAlong_append.mp h).2 hs).1

/-- A run has a course along which the worlds are good; and if all its moments spare that, and it
gives a result, it leaves a world of a kind. -/
structure Sustains (P : World → Prop) (S : Moment → Prop) (w : World) (act : Run World β)
    (ms : List Moment) (J : World → Prop) : Prop where
  along : HoldsAlong P S ms
  last : (∀ m ∈ ms, S m) → ∀ b w', act.exec w = (.ok b, w') → J w'

namespace Sustains

/-- A run whose course is empty. -/
theorem silent {act : Run World β} (h : ∀ b w', act.exec w = (.ok b, w') → J w') :
    Sustains P S w act [] J := ⟨trivial, fun _ => h⟩

theorem pure {b : β} (h : J w) : Sustains P S w (pure b) [] J :=
  silent fun _ _ e => by
    cases e
    exact h

theorem fail (f : Fault) : Sustains P S w (Run.fail f : Run World β) [] J :=
  silent fun _ _ e => by cases e

/-- A run that only looks. -/
theorem looks {act : Run World β} (h : J w) (hact : act.Keeps Eq w) : Sustains P S w act [] J :=
  silent fun b w' e => by
    have hstate := hact.state
    rw [e] at hstate
    exact Eq.mp (congrArg J hstate) h

/-- One step. -/
theorem step {act : Run World β} {d : Doing} (hw : P w)
    (h : S ⟨w, d⟩ → ∀ b w', act.exec w = (.ok b, w') → J w') :
    Sustains P S w act [⟨w, d⟩] J :=
  ⟨⟨hw, fun _ => trivial⟩, fun hall => h (hall _ (List.mem_singleton_self _))⟩

/-- First a moment, whatever it is. -/
theorem moment {act : Run World β} {d : Doing} (hw : P w) (h : Sustains P S w act ms J) :
    Sustains P S w act (⟨w, d⟩ :: ms) J :=
  ⟨⟨hw, fun _ => h.along⟩, fun hall => h.last (List.forall_mem_cons.mp hall).2⟩

theorem imp {act : Run World β} (h : Sustains P S w act ms J) (hJ : ∀ w, J w → J' w) :
    Sustains P S w act ms J' := ⟨h.along, fun hall b w' e => hJ w' (h.last hall b w' e)⟩

/-- The course of a run may be looked at by another that does the same. -/
theorem congr {act act' : Run World β} {v : World} (h : Sustains P S w act ms J)
    (e : act'.exec v = act.exec w) : Sustains P S v act' ms J :=
  ⟨h.along, fun hall b w' e' => h.last hall b w' (e.symm.trans e')⟩

theorem bind {act : Run World β} {f : β → Run World γ} {rest : β → World → List Moment}
    (h : Sustains P S w act ms J)
    (h' : ∀ b w', act.exec w = (.ok b, w') → J w' → Sustains P S w' (f b) (rest b w') J') :
    Sustains P S w (act >>= f) (ms ++ notesAfter act rest w) J' := by
  rcases e : act.exec w with ⟨e' | b, w₁⟩
  · rw [notesAfter_error e, List.append_nil]
    refine ⟨h.along, fun _ b w' e'' => ?_⟩
    rw [Run.exec_bind_error e] at e''
    cases e''
  · rw [notesAfter_ok e]
    refine ⟨holdsAlong_append.mpr ⟨h.along, fun hall => ?_⟩, fun hall c w' e' => ?_⟩
    · exact (h' b w₁ e (h.last hall b w₁ e)).along
    · obtain ⟨hms, hrest⟩ := List.forall_mem_append.mp hall
      rw [Run.exec_bind_ok e] at e'
      exact (h' b w₁ e (h.last hms b w₁ e)).last hrest c w' e'

/-- A sequence whose second part has an empty course. -/
theorem bind_last {act : Run World β} {f : β → Run World γ} (h : Sustains P S w act ms J)
    (h' : ∀ b w', act.exec w = (.ok b, w') → J w' → Sustains P S w' (f b) [] J') :
    Sustains P S w (act >>= f) ms J' := by
  have hall : Sustains P S w (act >>= f) (ms ++ notesAfter act (fun _ _ => []) w) J' := h.bind h'
  rwa [notesAfter_nil, List.append_nil] at hall

/-- A sequence whose first part is a step of the renderer's own, with its moment. -/
theorem step_bind {act : Run World β} {f : β → Run World γ} {d : Doing}
    {rest : β → World → List Moment} (hw : P w)
    (h : S ⟨w, d⟩ → ∀ b w', act.exec w = (.ok b, w') → J w')
    (h' : ∀ b w', act.exec w = (.ok b, w') → J w' → Sustains P S w' (f b) (rest b w') J') :
    Sustains P S w (act >>= f) (⟨w, d⟩ :: notesAfter act rest w) J' := (step hw h).bind h'

end Sustains

end Along

/-! ### What a render upholds -/

/-- An invariant, by the loops that are running and the number of frames that are to be taken off,
is kept by all steps of a render; by some of them if they spare it. -/
structure Renderer.Upholds (host : Host) (r : Renderer) (S : Moment → Prop)
    (Inv : List Nat → Nat → World → Prop) : Prop where
  line : ∀ {a d w}, Inv a d w → ∀ n, Inv a d (w.atLine n)
  filters : ∀ {a d w f vs v h}, Inv a d w → S ⟨w, .filters f vs⟩ →
    (host.filter f vs).exec w.heap = (.ok v, h) → Inv a d { w with heap := h }
  goes : ∀ {a d w v vs h}, Inv a d w → S ⟨w, .goes v⟩ →
    (Heap.itemsOf v).exec w.heap = (.ok vs, h) → Inv a d { w with heap := h }
  binds : ∀ {a d w name v}, Inv a d w → S ⟨w, .binds name v⟩ →
    Inv a d (w.changeIn r.slot (·.set name v))
  calls : ∀ {a d w entry vs ns text w'}, Inv a d w → S ⟨w, .calls entry vs ns⟩ →
    (TagEntry.render entry host r vs ns).exec w = (.ok text, w') → Inv a d w'
  begins : ∀ {a d w}, Inv a d w → ∀ vs,
    Inv ((w.heap.objects.size + 1) :: a) d (w.withLoop vs)
  turns : ∀ {a d w loop}, Inv a d w → loop ∈ a →
    ∀ items position, Inv a d (w.withTurn items loop position)
  ends : ∀ {a d w loop}, Inv (loop :: a) d w → Inv a d w
  push : ∀ {a d w}, Inv a d w → ∀ frame, Inv a (d + 1) (w.changeIn r.slot (·.push frame))
  pop : ∀ {a d w frame rest}, Inv a (d + 1) w → (w.contextIn r.slot).pop? = some (frame, rest) →
    Inv a d (w.changeIn r.slot fun _ => rest)

namespace Renderer.Upholds

variable {S : Moment → Prop} {Inv : List Nat → Nat → World → Prop} {a : List Nat} {d : Nat}

/-- Moments that spare more spare it too. -/
theorem imp {S' : Moment → Prop} (k : r.Upholds host S Inv) (hS : ∀ m, S' m → S m) :
    r.Upholds host S' Inv :=
  { k with
    filters := fun o hs => k.filters o (hS _ hs)
    goes := fun o hs => k.goes o (hS _ hs)
    binds := fun o hs => k.binds o (hS _ hs)
    calls := fun o hs => k.calls o (hS _ hs) }

/-- The invariant holds, for whatever loops and frames. -/
abbrev Good (Inv : List Nat → Nat → World → Prop) (w : World) : Prop := ∃ a d, Inv a d w

/-- A run on the heap that gives a result. -/
theorem ended_onHeap {act : Run Heap β} {b : β} {J : World → Prop}
    (h : ∀ {b h}, act.exec w.heap = (.ok b, h) → J { w with heap := h })
    (e : (onHeap act).exec w = (.ok b, w')) : J w' := by
  rw [onHeap, Run.exec_within] at e
  obtain ⟨eb, rfl⟩ := Prod.mk.inj e
  exact h (Prod.ext eb rfl)

/-! ### Expressions -/

mutual

/-- Induction on the expression. -/
theorem evaluate (k : r.Upholds host S Inv) (strict : Bool) : ∀ (e : Expr Value) (w : World),
    Inv a d w →
    Sustains (Good Inv) S w (evaluate host r strict e) (exprCourse host r strict e w) (Inv a d)
  | .const _ _, w, hw => by
    rw [Stencil.evaluate, exprCourse]
    exact (Sustains.pure hw).moment ⟨a, d, hw⟩
  | .name _ name, w, hw => by
    rw [Stencil.evaluate, exprCourse]
    refine (Sustains.looks hw (.get_bind ?_)).moment ⟨a, d, hw⟩
    split
    · exact .pure trivial
    · split
      · exact keeps_undefined r.slot name w
      · exact .pure trivial
  | .member _ object segment, w, hw => by
    rw [Stencil.evaluate, exprCourse]
    refine Sustains.moment ⟨a, d, hw⟩ ((evaluate k strict object w hw).bind_last ?_)
    intro v w₁ _ hw₁
    refine .looks hw₁ (.bind (keeps_memberOf v segment w₁) fun found w₂ _ _ => ?_)
    split
    · exact .pure trivial
    · split
      · exact .get_bind (.bind (.ofExcept _) fun _ _ _ _ => keeps_undefined r.slot _ _)
      · exact .pure trivial
  | .not _ operand, w, hw => by
    rw [Stencil.evaluate, exprCourse]
    refine Sustains.moment ⟨a, d, hw⟩ ((evaluate k strict operand w hw).bind_last ?_)
    exact fun v w₁ _ hw₁ => .looks hw₁ (.get_bind (.pure trivial))
  | .filter place value name args, w, hw => by
    rw [Stencil.evaluate, exprCourse]
    refine Sustains.moment ⟨a, d, hw⟩ ?_
    rcases r.filters.get? name with - | f
    · exact .looks hw (keeps_unknown "filter" name place.line none .filterError w)
    · refine (evaluate k _ value w hw).bind fun v w₁ _ hw₁ => ?_
      refine (evaluateAll k strict args w₁ hw₁).bind fun vs w₂ _ hw₂ => ?_
      exact .step ⟨a, d, hw₂⟩ fun hs u w' e => ended_onHeap (k.filters hw₂ hs) e
  | .bare place, w, hw => by
    rw [Stencil.evaluate, exprCourse]
    exact (Sustains.fail _).moment ⟨a, d, hw⟩
  | .node n, w, hw => by
    rw [Stencil.evaluate, exprCourse]
    exact (Sustains.fail _).moment ⟨a, d, hw⟩

theorem evaluateAll (k : r.Upholds host S Inv) (strict : Bool) :
    ∀ (es : List (Expr Value)) (w : World), Inv a d w →
      Sustains (Good Inv) S w (evaluateAll host r strict es) (exprsCourse host r strict es w)
        (Inv a d)
  | [], w, hw => by
    rw [Stencil.evaluateAll, exprsCourse]
    exact .pure hw
  | e :: rest, w, hw => by
    rw [Stencil.evaluateAll, exprsCourse]
    refine (evaluate k strict e w hw).bind fun v w₁ _ hw₁ => ?_
    exact (evaluateAll k strict rest w₁ hw₁).bind_last fun _ _ _ h => .pure h

end

variable (k : r.Upholds host S Inv)
include k

/-- Induction on the expressions. -/
theorem evaluateNamed (es : List (String × Expr Value)) (hw : Inv a d w) :
    Sustains (Good Inv) S w (evaluateNamed host r es)
      (exprsCourse host r r.strict (es.map (·.2)) w) (Inv a d) := by
  induction es generalizing w with
  | nil =>
    rw [Stencil.evaluateNamed, List.map_nil, exprsCourse]
    exact .pure hw
  | cons e rest ih =>
    rw [Stencil.evaluateNamed, List.map_cons, exprsCourse]
    refine (k.evaluate r.strict e.2 w hw).bind fun v w₁ _ hw₁ => ?_
    exact (ih hw₁).bind_last fun _ _ _ h => .pure h

/-! ### Scopes, loops and calls -/

/-- In a scope there is one frame more. -/
theorem inScope (frame : Frame Value) {act : Run World β} {ms : List Moment} (hw : Inv a d w)
    (h : Inv a (d + 1) (w.changeIn r.slot (·.push frame)) →
      Sustains (Good Inv) S (w.changeIn r.slot (·.push frame)) act ms (Inv a (d + 1))) :
    Sustains (Good Inv) S w (inScope r.slot frame act) ms (Inv a d) := by
  have hact := h (k.push hw frame)
  refine ⟨hact.along, fun hall b w' e => ?_⟩
  rw [exec_inScope, Run.exec_ensuring, exec_leaveScope] at e
  rcases eact : act.exec (w.changeIn r.slot (·.push frame)) with ⟨f | b', w₁⟩ <;>
    rw [eact] at e <;> dsimp only at e
  · -- a failure goes on
    rcases epop : (w₁.contextIn r.slot).pop? with - | p <;> rw [epop] at e <;> cases e
  · rcases epop : (w₁.contextIn r.slot).pop? with - | ⟨frame', rest⟩ <;> rw [epop] at e
    · cases e
    · obtain rfl := (Prod.mk.inj e).2
      exact k.pop (hact.last hall b' w₁ eact) epop

/-- Induction on the number of rounds. -/
theorem runRounds (target : String) {items loop : Nat} {body : Run World String}
    {course : World → List Moment} (hloop : loop ∈ a)
    (hbody : ∀ w, Inv a (d + 1) w → Sustains (Good Inv) S w body (course w) (Inv a (d + 1)))
    (rounds position : Nat) (hw : Inv a d w) :
    Sustains (Good Inv) S w (runRounds r.slot target items loop body rounds position)
      (notesOfRounds r.slot target items loop body course rounds position w) (Inv a d) := by
  induction rounds generalizing position w with
  | zero =>
    rw [Stencil.runRounds, notesOfRounds]
    refine .looks hw (.get_bind ?_)
    split
    · exact .pure trivial
    · exact .of_same rfl
  | succ rounds ih =>
    rw [Stencil.runRounds, notesOfRounds]
    refine Sustains.congr ?_ (Run.exec_get_bind _ w)
    rcases (w.heap.listItems items)[position]? with - | item
    · exact .pure hw
    · dsimp only
      refine Sustains.congr ?_ (Run.exec_set_bind _ _ w)
      have hturn := k.turns hw hloop items position
      refine (k.inScope _ hturn (hbody _)).bind fun text w₁ _ hw₁ => ?_
      exact (ih (position + 1) hw₁).bind_last fun _ _ _ h => .pure h

theorem runLoop (target : String) (vs : List Value) {body : Run World String}
    {course : World → List Moment}
    (hbody : ∀ a d w, Inv a d w → Sustains (Good Inv) S w body (course w) (Inv a d))
    (hw : Inv a d w) :
    Sustains (Good Inv) S w (runLoop host r.slot target vs body)
      (notesOfRounds r.slot target w.heap.objects.size (w.heap.objects.size + 1) body course
        (vs.length + host.growth) 0 (w.withLoop vs)) (Inv a d) := by
  refine Sustains.congr ?_ (exec_runLoop host r.slot target vs body w)
  exact (k.runRounds target (List.mem_cons_self ..) (hbody _ _) _ _ (k.begins hw vs)).imp
    fun _ => k.ends

theorem renderCall (line : Int) (tag : String) (args : List (Expr Value))
    (named : List (String × Expr Value)) (hw : Inv a d w) :
    Sustains (Good Inv) S w (renderCall host r line tag args named)
      (callCourse host r tag args named w) (Inv a d) := by
  rw [Stencil.renderCall, callCourse]
  rcases r.tags.get? tag with - | entry
  · exact .looks hw (keeps_unknown ..)
  · refine (k.evaluateAll r.strict args w hw).bind fun vs w₁ _ hw₁ => ?_
    refine (k.evaluateNamed named hw₁).bind fun ns w₂ _ hw₂ => ?_
    exact .step ⟨a, d, hw₂⟩ fun hs text w' e => k.calls hw₂ hs e

/-- A test, and then one of two ways. -/
theorem test {test : Expr Value} {body otherwise : Run World String}
    {yes no : World → List Moment}
    (hbody : ∀ w, Inv a d w → Sustains (Good Inv) S w body (yes w) (Inv a d))
    (hotherwise : ∀ w, Inv a d w → Sustains (Good Inv) S w otherwise (no w) (Inv a d))
    (hw : Inv a d w) :
    Sustains (Good Inv) S w
      (do
        let v ← Stencil.evaluate host r r.strict test
        if ← holds v then body else otherwise)
      (exprCourse host r r.strict test w ++ notesAfter (Stencil.evaluate host r r.strict test)
        (fun v w => if w.heap.truth v then yes w else no w) w) (Inv a d) := by
  refine (k.evaluate r.strict test w hw).bind fun v w₁ _ hw₁ => ?_
  refine Sustains.congr ?_ (Run.exec_bind_ok (exec_holds v w₁))
  split
  · exact hbody w₁ hw₁
  · exact hotherwise w₁ hw₁

omit k

/-! ### Nodes -/

mutual

/-- Induction on the node. -/
theorem renderNode (k : r.Upholds host S Inv) (a : List Nat) (d : Nat) :
    ∀ (node : Node Value) (w : World), Inv a d w →
      Sustains (Good Inv) S w (renderNode host r node) (nodeCourse host r node w) (Inv a d)
  | .data _ _, w, hw => by
    rw [Stencil.renderNode, nodeCourse]
    exact .pure hw
  | .output _ value, w, hw => by
    rw [Stencil.renderNode, nodeCourse]
    exact (k.evaluate r.strict value w hw).bind_last fun _ _ _ hw₁ =>
      .looks hw₁ (.get_bind (.ofExcept _))
  | .choice _ test body others otherwise, w, hw => by
    rw [Stencil.renderNode, nodeCourse]
    exact k.test (renderNodes k a d body)
      (renderBranches k a d (renderNodes k a d otherwise) others) hw
  | .loop _ target items body empty, w, hw => by
    rw [Stencil.renderNode, nodeCourse]
    refine (k.evaluate r.strict items w hw).bind fun v w₁ _ hw₁ => ?_
    refine Sustains.step_bind ⟨a, d, hw₁⟩
      (fun hs vs w₂ e => ended_onHeap (k.goes hw₁ hs) e) fun vs w₂ _ hw₂ => ?_
    split
    · exact renderNodes k a d empty w₂ hw₂
    · exact k.runLoop target vs (fun a d => renderNodes k a d body) hw₂
  | .scope _ bindings body, w, hw => by
    rw [Stencil.renderNode, nodeCourse]
    refine (k.evaluateNamed bindings hw).bind fun entries w₁ _ hw₁ => ?_
    exact k.inScope _ hw₁ (renderNodes k a (d + 1) body _)
  | .assign _ target value, w, hw => by
    rw [Stencil.renderNode, nodeCourse]
    refine (k.evaluate r.strict value w hw).bind fun v w₁ _ hw₁ => ?_
    refine .step ⟨a, d, hw₁⟩ fun hs text w' e => ?_
    obtain rfl := (Prod.mk.inj e).2
    exact k.binds hw₁ hs
  | .call place tag args named target, w, hw => by
    rw [Stencil.renderNode, nodeCourse]
    refine (k.renderCall place.line tag args named hw).bind fun text w₁ _ hw₁ => ?_
    rcases target with - | name
    · exact .pure hw₁
    · refine .step ⟨a, d, hw₁⟩ fun hs text w' e => ?_
      obtain rfl := (Prod.mk.inj e).2
      exact k.binds hw₁ hs
  | .bare _ _, w, hw => by
    rw [Stencil.renderNode, nodeCourse]
    exact .fail _
  | .tree _ _ _, w, hw => by
    rw [Stencil.renderNode, nodeCourse]
    exact .fail _
  | .expr _ _, w, hw => by
    rw [Stencil.renderNode, nodeCourse]
    exact .fail _

theorem renderNodes (k : r.Upholds host S Inv) (a : List Nat) (d : Nat) :
    ∀ (nodes : List (Node Value)) (w : World), Inv a d w →
      Sustains (Good Inv) S w (renderNodes host r nodes) (nodesCourse host r nodes w) (Inv a d)
  | [], w, hw => by
    rw [Stencil.renderNodes, nodesCourse]
    exact .pure hw
  | node :: rest, w, hw => by
    rw [nodesCourse]
    refine Sustains.congr ?_ (exec_renderNodes_cons node rest w)
    refine (renderNode k a d node _ (k.line hw _)).bind fun text w₁ _ hw₁ => ?_
    exact (renderNodes k a d rest w₁ hw₁).bind_last fun _ _ _ h => .pure h

theorem renderBranches (k : r.Upholds host S Inv) (a : List Nat) (d : Nat)
    {otherwise : Run World String} {no : World → List Moment}
    (h : ∀ w, Inv a d w → Sustains (Good Inv) S w otherwise (no w) (Inv a d)) :
    ∀ (branches : List (Branch Value)) (w : World), Inv a d w →
      Sustains (Good Inv) S w (renderBranches host r otherwise branches)
        (branchesCourse host r no branches w) (Inv a d)
  | [], w, hw => by
    rw [Stencil.renderBranches, branchesCourse]
    exact h w hw
  | .mk test body :: rest, w, hw => by
    rw [Stencil.renderBranches, branchesCourse]
    exact k.test (renderNodes k a d body) (renderBranches k a d h rest) hw

end

end Renderer.Upholds

end Stencil
