/-
Stencil/Proofs/Render/Unseen.lean

Whether tags keep the handles they are lent cannot be seen in a render.  From a
world with plain data in the slot, a render with tags that keep handles comes to
the same text or the same fault as one with tags that keep none, and leaves
frames that look the same (`renderSlot_unseen`).  No more than the ways in which
contexts came back can be told apart.

The exception is the state of a loop.  A `for` over it, or a filter that goes
through it, moves it; after a copy the loop that is under way and the frame have
a state each, so the move shows in one place only.  The theorem asks that there
be no such node on the way of the render that keeps nothing (`Node.allCalm`).
-/
import Stencil.Proofs.Render.Following
import Stencil.Proofs.Value.Plain
import Stencil.Render.Status

namespace Stencil

variable {ρ : Nat → Nat} {g : Pairing} {slot : Nat} {w v : World} {host host' : Host}

/-! ### Whole renders -/

/-- A fault is reported in the same way. -/
theorem echoes_converting {K : Context Value → Context Value → Prop} [IsPreorder (Context Value) K]
    (t : Template) {act act' : Run World String} (h : Echoes ρ g slot K SameResult w v act act') :
    Echoes ρ g slot K SameResult w v (converting t act) (converting t act') := by
  refine h.catching fun f g₁ w₁ v₁ m => ?_
  split
  · exact .failWith m _
  · split
    · exact .failWith m _
    · refine .get_bind ?_
      rw [m.rendering?]
      exact .failWith m _

theorem World.Mirrors.begun (m : w.Mirrors ρ g slot w) (t : Template) :
    (w.begun t).Mirrors ρ g slot (w.begun t) := by
  obtain ⟨hl, hk⟩ := w.same_begun t
  have hheap : (w.begun t).heap = w.heap := by
    rw [World.begun, beginRendering, Run.exec_modify]
    split <;> rfl
  refine ⟨m.fit.congr hl hk, m.fit.congr hl hk, ?_, ?_, rfl, rfl⟩
  · rw [hheap]
    exact m.heap
  · rw [World.contextIn, hl]
    exact m.context

/-- From one and the same world the renders of a source echo. -/
theorem echoes_renderSlot (template : Nat) {body : List (Node Atom)} (m : w.Mirrors ρ g slot w)
    (source : (w.templateAt template).tree.body = Node.allValues body) :
    let t := w.templateAt template
    let e := (w.begun t).environmentAt t.environment
    (e.renderer slot).InChorus ρ host host' →
    (e.collected = false → Node.allCalm host' (e.renderer slot) body (w.begun t) = true) →
    Echoes ρ g slot Context.Beneath SameResult w w (renderSlot host template slot)
      (renderSlot host' template slot) := by
  intro t e k calm
  have m' : (w.begun t).Mirrors ρ g slot (w.begun t) := m.begun t
  have hcontext : (w.begun t).contextIn slot = w.contextIn slot := by
    rw [World.contextIn, (w.same_begun t).1]
    rfl
  rw [renderSlot, renderSlot]
  refine .get_bind (.modify_bind hcontext (.ensuring_modify ?_ (fun m => ?_) fun _ => rfl))
  · rw [environmentOf]
    show Echoes ρ g slot _ _ (w.begun t) (w.begun t)
      ((if e.collected then Run.fail (environmentGone t) else pure e) >>= _)
      ((if e.collected then Run.fail (environmentGone t) else pure e) >>= _)
    split
    · exact .fail m' _
    · next h =>
      have hbody := k.echoes_renderNodes body m' (calm (Bool.eq_false_of_not_eq_true h))
      rw [← source] at hbody
      exact echoes_converting t hbody
  · exact ⟨m.fit.congr rfl rfl, m.fit'.congr rfl rfl, m.heap, m.context,
      congrArg List.tail m.renderings, m.counts⟩

/-- Plain data are bound in a slot, to names that are no objects. -/
structure World.PlainIn (slot : Nat) (w : World) : Prop where
  names : ∀ f ∈ (w.contextIn slot).inward, f.Atomic
  values : ∀ f ∈ (w.contextIn slot).inward, ∀ e ∈ f.entries, w.heap.Plain e.2

/-- A world in which plain data are bound mirrors itself. -/
theorem World.PlainIn.mirrors (p : w.PlainIn slot) (fit : w.Fit slot) :
    w.Mirrors w.heap.rank w.heap.itself slot w where
  fit := fit
  fit' := fit
  heap := w.heap.mirrors_plain
  context := by
    refine ⟨List.forall₂_same.mpr fun f hf => ?_, p.names⟩
    exact List.forall₂_same.mpr fun e he => ⟨rfl, (p.values f hf e he).mirrors⟩
  renderings := rfl
  counts := rfl

theorem World.Mirrors.frameView_eq (m : w.Mirrors ρ g slot v) {f f' : Frame Value}
    (h : f.Mirrors g f') (atomic : f'.Atomic) : w.frameView f = v.frameView f' := by
  have hnames : ∀ e ∈ f'.entries, e.1.Atomic := fun e he => atomic _ (List.mem_map_of_mem he)
  refine List.Forall₂.map_eq (List.Forall₂.meet h
    (List.forall₂_same.mpr hnames : List.Forall₂ (fun _ e => e.1.Atomic) _ _) ?_)
  rintro e - e' ⟨hname, hvalue⟩ ⟨a, ha⟩
  rw [← hname, ha, m.heap.view_eq hvalue, m.heap.view_eq (.atom a)]

/-- What is seen of the contexts in the slots is the same. -/
theorem World.Mirrors.framesOf_eq (m : w.Mirrors ρ g slot v) :
    w.framesOf (w.contextIn slot) = v.framesOf (v.contextIn slot) := by
  rw [World.framesOf, World.framesOf, Context.frames, Context.frames, List.map_reverse,
    List.map_reverse]
  refine congrArg List.reverse (List.Forall₂.map_eq (List.Forall₂.meet m.context.frames
    (List.forall₂_same.mpr m.context.atomic : List.Forall₂ (fun _ f => Frame.Atomic f) _ _) ?_))
  exact fun f _ f' hf ha => m.frameView_eq hf ha

/-- Tags follow recipes, and filters are pure.  In one render the chosen calls keep the handles they
are lent; in the other no call does.  If no `for` and no filter of that other render goes through
the state of a loop, both come to the same text or the same fault, and leave the same frames in the
slot and the same counts of contexts that were handed over and came back. -/
theorem renderSlot_unseen (host : Host) (filters : host.PureFilters)
    (tags : List Action → Nat → List String → Recipe) (chosen : World → Bool) (template : Nat)
    {tree : Tree Atom} (fit : w.Fit slot) (plain : w.PlainIn slot)
    (source : (w.templateAt template).tree = tree.map .atom) :
    let never := host.follows tags fun _ => false
    let t := w.templateAt template
    let e := (w.begun t).environmentAt t.environment
    host.clone e.clone = Copying.deepCopy →
    (e.collected = false → Node.allCalm never (e.renderer slot) tree.body (w.begun t) = true) →
    let after := (renderSlot (host.follows tags chosen) template slot).exec w
    let after' := (renderSlot never template slot).exec w
    after.1 = after'.1 ∧
      after.2.framesOf (after.2.contextIn slot) = after'.2.framesOf (after'.2.contextIn slot) ∧
      after.2.counts = after'.2.counts := by
  intro never t e hclone calm after after'
  obtain ⟨g, -, m, hr, -⟩ := echoes_renderSlot template (plain.mirrors fit)
    (congrArg Tree.body source) (Host.inChorus_follows filters hclone tags chosen) calm
  exact ⟨hr.eq, m.framesOf_eq, m.counts⟩

/-- A tag that writes and prints the item of a loop keeps its handle in every round. -/
theorem renderSlot_unseen_copied :
    let host : Host := ⟨fun _ _ _ _ => pure .absent, Filter.apply, fun _ => Copying.deepCopy, 0⟩
    let tags : List Action → Nat → List String → Recipe := fun _ _ _ =>
      .read "x" fun _ => .write "seen" 0 (.give 0)
    let body : List (Node Atom) := [.loop ⟨1, 0⟩ "x" (.name ⟨1, 0⟩ "xs")
      [.call ⟨1, 0⟩ "k" [] [] none, .output ⟨1, 0⟩ (.member ⟨1, 0⟩ (.name ⟨1, 0⟩ "loop") "index")]
      []]
    let base : Frame Value := .ofNamed [("xs", .object 0)]
    let calls : Bindings String TagEntry := .ofList [("k", .tag ⟨"k", [], .context⟩)]
    let w : World := { World.ofTemplate (.ofBase base) calls (Node.allValues body) with
      heap := ⟨⟨#[.list [.int 1, .int 2]]⟩, 0⟩ }
    let after := (renderSlot (host.follows tags fun _ => true) 0 0).exec w
    let after' := (renderSlot (host.follows tags fun _ => false) 0 0).exec w
    after.1 = .ok "1122" ∧ after.2.kept = [1, 3] ∧ after'.2.kept = [] ∧ after.1 = after'.1 := by
  intro host tags body base calls w after after'
  have hfit : w.Fit 0 :=
    World.Fit.congr (World.fit_ofTemplate (.ofBase base) calls (Node.allValues body)) rfl rfl
  have hlist : w.heap.Plain (.object 0) := by
    refine .object (o := .list [.int 1, .int 2]) rfl rfl nofun fun v hv => ?_
    obtain rfl | rfl : v = .int 1 ∨ v = .int 2 := by simpa [Object.parts] using hv
    · exact .atom _
    · exact .atom _
  have hplain : w.PlainIn 0 := by
    constructor
    · intro f hf
      obtain rfl : f = base := List.mem_singleton.mp hf
      exact Frame.atomic_ofNamed _
    · intro f hf e he
      obtain rfl : f = base := List.mem_singleton.mp hf
      obtain rfl : e = (.text "xs", .object 0) := List.mem_singleton.mp he
      exact hlist
  have hcalm : Node.allCalm (host.follows tags fun _ => false) ⟨0, true, .deep, .empty, calls⟩ body
      (w.begun (w.templateAt 0)) = true := by decide +kernel
  have htext : after.1 = .ok "1122" := by decide +kernel
  have hkept : after.2.kept = [1, 3] := by decide +kernel
  have hkept' : after'.2.kept = [] := by decide +kernel
  have hsource : (w.templateAt 0).tree = (⟨.start, body⟩ : Tree Atom).map .atom := rfl
  obtain ⟨hsame, -, -⟩ := renderSlot_unseen host (fun _ => .inl fun _ => rfl) tags (fun _ => true) 0
    hfit hplain hsource rfl fun _ => hcalm
  exact ⟨htext, hkept, hkept', hsame⟩

-- The state of a loop is bound in a list, and a loop inside goes through it.  That moves the loop
-- under way, unless the call on the second line has kept its handle before.
example :
    let host : Host := ⟨fun _ _ _ _ => pure .absent, Filter.apply, fun _ => Copying.deepCopy, 0⟩
    let tags : List Action → Nat → List String → Recipe := fun body _ _ =>
      if body.isEmpty then .atom .none (.give 0)
      else .read "loop" fun _ => .list [0, 0] (.write "pair" 1 (.atom .none (.give 2)))
    let name := fun (s : String) => (Expr.name ⟨1, 0⟩ s : Expr Value)
    let body : List (Node Value) := [.loop ⟨1, 0⟩ "x" (name "xs")
      [.call ⟨1, 0⟩ "w" [] [] none,
        .loop ⟨1, 0⟩ "y" (name "pair")
          [.choice ⟨1, 0⟩ (.member ⟨1, 0⟩ (name "loop") "first") [.call ⟨2, 0⟩ "k" [] [] none] []
            [.loop ⟨1, 0⟩ "z" (name "y") [] []]] [],
        .output ⟨1, 0⟩ (.member ⟨1, 0⟩ (name "loop") "index")] []]
    let calls : Bindings String TagEntry :=
      .ofList [("k", .tag ⟨"k", [], .context⟩), ("w", .tag ⟨"w", [.keep], .context⟩)]
    let w : World :=
      { World.ofTemplate (.ofBase (.ofNamed [("xs", .object 0)])) calls body with
        heap := ⟨⟨#[.list [.int 1, .int 2]]⟩, 0⟩ }
    let text := fun chosen => ((renderSlot (host.follows tags chosen) 0 0).exec w).1
    text (fun w => w.rendering?.any (·.line = 2)) = .ok "12" ∧
      text (fun _ => false) = .ok "22" := by
  decide +kernel

end Stencil
