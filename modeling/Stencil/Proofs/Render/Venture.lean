/-
Stencil/Proofs/Render/Venture.lean

Tags that render templates in turn.  The function of a tag is taken to be a
*venture*: it makes steps of its own and has templates rendered, in an order
that may depend on how these ended and on all there is to see, and in the end it
returns or raises.  A step of its own may do anything but to count hand-overs,
to touch the list of renders, and to get at handles that it does not have
(`Discreet`).  So it may keep handles, make further ones, detach a cell or leave
its lock taken; what it cannot do is to get a context back itself.

What happens in a render is written down as *events*, by recursion on ventures
and on how deep renders may be nested: the calls of tags, the moments at which
one runs, the hand-overs that are asked back, and the renders that end.
-/
import Stencil.Proofs.Handle.Count
import Stencil.Proofs.Render.Chronicle

namespace Stencil

variable {host : Host} {w w' w'' : World} {given : List Nat} {n : Nat}

/-! ### Steps of a tag -/

/-- What the render under way has of the books: the number of its counts, and how many calls are
active. -/
def World.books (w : World) : Option (Nat × Nat) :=
  w.rendering?.map fun x => (x.tally, x.tagDepth)

/-- Counts of handles are exact, the kept handles are there, and so are the counts of the render
under way. -/
structure World.InOrder (w : World) : Prop where
  balanced : w.loans.Balanced
  kept : ∀ h ∈ w.kept, h < w.loans.handles.size
  counted : ∀ i d, w.books = some (i, d) → i < w.tallies.size

/-- A handle that nobody keeps stays as live as it is, and nobody comes to keep it. -/
def Spares (h : Nat) (w w' : World) : Prop :=
  h < w.loans.handles.size → h ∉ w.kept →
    h < w'.loans.handles.size ∧ h ∉ w'.kept ∧ ∀ k, h ∈ w.loans.live k → h ∈ w'.loans.live k

instance (h : Nat) : IsPreorder World (Spares h) where
  refl _ hlt hkept := ⟨hlt, hkept, fun _ hmem => hmem⟩
  trans _ _ _ s s' hlt hkept := by
    obtain ⟨hlt', hkept', hlive⟩ := s hlt hkept
    obtain ⟨hlt'', hkept'', hlive'⟩ := s' hlt' hkept'
    exact ⟨hlt'', hkept'', fun k hmem => hlive' k (hlive k hmem)⟩

/-- What a tag may do in one step that has the handles `given`, those that are kept, and those with
numbers from `n` on. -/
structure Discreet (given : List Nat) (n : Nat) (w w' : World) : Prop where
  renderings : SameRenderings w w'
  tallies : w'.tallies = w.tallies
  grows : w.loans.handles.size ≤ w'.loans.handles.size
  order : w.InOrder → (∀ h ∈ given, h < w.loans.handles.size) → w'.InOrder
  spares : ∀ h, h < n → h ∉ given → Spares h w w'

/-- The function of a tag. -/
inductive Venture (given : List Nat) (n : Nat) where
  /-- It returns or raises. -/
  | finish (r : Except Stop Value)
  | step (act : Run World Value) (discreet : ∀ w, Discreet given n w (act.exec w).2)
      (next : Except Stop Value → World → Venture given n)
  /-- It has a template rendered in a slot. -/
  | render (template slot : Nat) (next : Except Stop String → World → Venture given n)

/-- Runs a venture, whose templates are rendered with a host. -/
def Venture.run (below : Host) : Venture given n → Run World Value
  | finish r => Run.resume r
  | step act _ next => do
    let r ← Run.outcome act
    let w ← get
    (next r w).run below
  | render template slot next => do
    let r ← Run.outcome (renderSlot below template slot)
    let w ← get
    (next r w).run below

namespace Venture

variable {below : Host}

theorem exec_step {act : Run World Value} {discreet : ∀ w, Discreet given n w (act.exec w).2}
    {next : Except Stop Value → World → Venture given n} :
    ((step act discreet next).run below).exec w =
      ((next (act.exec w).1 (act.exec w).2).run below).exec (act.exec w).2 := by
  rw [run, Run.exec_outcome_bind, Run.exec_get_bind]

theorem exec_render {template slot : Nat}
    {next : Except Stop String → World → Venture given n} :
    ((render template slot next).run below).exec w =
      let done := (renderSlot below template slot).exec w
      ((next done.1 done.2).run below).exec done.2 := by
  rw [run, Run.exec_outcome_bind, Run.exec_get_bind]

/-- Induction on the venture. -/
theorem orderly (hbelow : below.Orderly) (v : Venture given n) (w : World) :
    (v.run below).Keeps SameRenderings w := by
  refine ⟨?_, fun _ _ _ => trivial⟩
  induction v generalizing w with
  | finish r => rfl
  | step act discreet next ih =>
    rw [exec_step]
    exact trans_of SameRenderings (discreet w).renderings (ih _ _ _)
  | render template slot next ih =>
    rw [exec_render]
    exact trans_of SameRenderings (renderSlot_orderly hbelow template slot w).state (ih _ _ _)

end Venture

/-! ### Hosts -/

/-- What the functions of tags do, by what they are called with and the world where they begin. -/
abbrev Ventures :=
  List Action → (lent : Option Nat) → List Value → Bindings String Value → (w : World) →
    Venture lent.toList w.loans.handles.size

/-- The host whose tags go on ventures, with at most `depth` renders inside one another. -/
def Host.venturing (host : Host) (tags : Ventures) : (depth : Nat) → Host
  | 0 => { host with call := fun _ _ _ _ => Run.unfinished }
  | depth + 1 =>
    { host with
      call := fun body lent vs ns => do
        let w ← get
        (tags body lent vs ns w).run (host.venturing tags depth) }

/-- Induction on the depth. -/
theorem orderly_venturing (host : Host) (tags : Ventures) (depth : Nat) :
    (host.venturing tags depth).Orderly := by
  induction depth with
  | zero => exact fun _ _ _ _ w => .of_error rfl (refl_of SameRenderings w)
  | succ depth ih => exact fun _ _ _ _ w => .get_bind (Venture.orderly ih _ w)

/-! ### Events -/

/-- A hand-over that is asked back: by which handle of the render, how values are cloned, and the
world then. -/
structure Handoff where
  own : Nat
  clone : Clone
  asked : World

namespace Handoff

/-- Somebody else has a live handle on the cell. -/
def Held (h : Handoff) : Prop :=
  ∃ i ∈ h.asked.loans.live (h.asked.loans.handleAt h.own).cell, i ≠ h.own

instance (h : Handoff) : Decidable h.Held := inferInstanceAs (Decidable (∃ i ∈ _, _))

/-- Getting the context back stops. -/
def Raises (h : Handoff) : Prop := ((reclaim h.own h.clone).exec h.asked).1.isOk = false

instance (h : Handoff) : Decidable h.Raises := inferInstanceAs (Decidable (_ = _))

end Handoff

/-- A call of a tag in a render, whose tags go on ventures. -/
structure TagCall where
  host : Host
  tags : Ventures
  depth : Nat
  renderer : Renderer
  entry : TagEntry
  args : List Value
  named : Bindings String Value
  start : World

namespace TagCall

/-- The host of the render. -/
def below (c : TagCall) : Host := c.host.venturing c.tags c.depth

/-- The world when the call is over. -/
def finish (c : TagCall) : World :=
  ((c.entry.render c.below c.renderer c.args c.named).exec c.start).2

end TagCall

/-- Something that happens in a render. -/
inductive Event where
  | called (c : TagCall)
  /-- The function of a tag is running, and so many calls are active. -/
  | runs (active : Nat) (w : World)
  | asked (h : Handoff)
  /-- A render is over. -/
  | rendered (before after : World)

/-- An event in a render that a tag has made: one more call is active. -/
def Event.within : Event → Event
  | runs active w => runs (active + 1) w
  | e => e

/-- The events in a function of a tag, when the events in renders are known. -/
def Venture.events (below : Host) (renders : Nat → Nat → World → List Event) :
    Venture given n → World → List Event
  | finish _, w => [.runs 1 w]
  | step act _ next, w =>
    .runs 1 w :: (next (act.exec w).1 (act.exec w).2).events below renders (act.exec w).2
  | render template slot next, w =>
    let done := (renderSlot below template slot).exec w
    .runs 1 w :: (renders template slot w).map .within ++
      (next done.1 done.2).events below renders done.2

/-- The events in functions of tags, by what these are called with. -/
abbrev Extents := List Action → Option Nat → List Value → Bindings String Value → World → List Event

/-- The events in a call, when those in functions of tags are known. -/
def TagCall.eventsBy (inside : Extents) (c : TagCall) : List Event :=
  match c.entry with
  | .filter _ => []
  | .tag t =>
    inside t.body (t.lent c.start) c.args c.named (t.entered c.renderer.slot c.start) ++
      match t.mode with
      | .plain => []
      | .context =>
        [.asked ⟨c.start.loans.handles.size, c.below.clone c.renderer.clone,
          t.done c.below c.renderer.slot c.args c.named c.start⟩]

section

variable (host : Host) (tags : Ventures)

/-- What is noted of a call, when the events in functions of tags are known. -/
def notingCalls (depth : Nat) (inside : Extents) (r : Renderer) : Noting Event :=
  fun entry vs ns w =>
    let c : TagCall := ⟨host, tags, depth, r, entry, vs, ns, w⟩
    .called c :: c.eventsBy inside

/-- The events in a render, when those in functions of tags are known. -/
def eventsOfRender (depth : Nat) (inside : Extents) (template slot : Nat) (w : World) :
    List Event :=
  let below := host.venturing tags depth
  notesOfRender below (notingCalls host tags depth inside) template slot w ++
    [.rendered w ((renderSlot below template slot).exec w).2]

/-- The events in functions of tags, where renders are nested at most so deep. -/
def extents : (depth : Nat) → Extents
  | 0 => fun _ _ _ _ _ => []
  | depth + 1 => fun body lent vs ns w =>
    (tags body lent vs ns w).events (host.venturing tags depth)
      (eventsOfRender host tags depth (extents depth)) w

/-- The events in a render of a template in a slot. -/
def eventsIn (depth template slot : Nat) (w : World) : List Event :=
  eventsOfRender host tags depth (extents host tags depth) template slot w

end

/-- The events in a call of a tag. -/
def TagCall.extent (c : TagCall) : List Event := c.eventsBy (extents c.host c.tags c.depth)

end Stencil
