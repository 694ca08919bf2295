/-
Stencil/Proofs/Render/Chorus.lean

Whole renders that echo.  The tags of two hosts may do with the context of the
slot what they like, as long as calls echo and the second host's leave the
frames below the innermost one alone (`Renderer.InChorus`).  Then so do the
renders of all nodes, by induction on the tree, if in the second render no `for`
and no filter goes through the state of a loop (`Node.calm`).

Where a scope is left, the context of the second render is the one that there
was when the scope was entered.  This carries loops: at each round all partners
are forgotten but those of what there was when the loop began, and of its list.
So nothing that is remembered can see that the loop is moved; and the context is
known to hold nothing else.
-/
import Stencil.Proofs.Render.Discipline
import Stencil.Proofs.Render.Echo

namespace Stencil

variable {ρ : Nat → Nat} {g g' : Pairing} {slot : Nat} {w w' v v' : World}

/-- Nothing but the innermost frame has changed. -/
def Context.Beneath (x y : Context Value) : Prop := y.outer = x.outer

instance : IsPreorder (Context Value) Context.Beneath where
  refl _ := rfl
  trans _ _ _ h h' := h'.trans h

theorem Echoes.beneath {α β : Type} {P : Pairing → α → β → Prop} {act : Run World α}
    {act' : Run World β} (h : Echoes ρ g slot Eq P w v act act') :
    Echoes ρ g slot Context.Beneath P w v act act' :=
  h.imp fun _ _ e => congrArg Context.outer e.symm

/-! ### Scopes -/

/-- What lies on the frames of another context. -/
theorem Context.eq_push {α : Type} {x y : Context α} (h : x.outer = y.inward) :
    x = y.push x.innermost := congrArg (Context.mk x.innermost) h

/-- Both runs leave the scope in which they were, and the second one with the context as it was. -/
theorem echoes_inScope (m : w.Mirrors ρ g slot v) {f f' : Frame Value} (hf : f.Mirrors g f')
    (atomic : f'.Atomic) {act act' : Run World String}
    (h : (w.changeIn slot (·.push f)).Mirrors ρ g slot (v.changeIn slot (·.push f')) →
      Echoes ρ g slot Context.Beneath SameResult (w.changeIn slot (·.push f))
        (v.changeIn slot (·.push f')) act act') :
    Echoes ρ g slot Eq SameResult w v (inScope slot f act) (inScope slot f' act') := by
  obtain ⟨g', hg, m', hr, hk⟩ := h (m.changeIn (m.context.push hf atomic))
  rw [m.fit'.contextIn_changeIn] at hk
  -- the frames on which both bodies lay
  have hbelow : ((act'.exec (v.changeIn slot (·.push f'))).2.contextIn slot).outer =
      (v.contextIn slot).inward := hk
  have houter := m'.context.outer
  rw [hbelow] at houter
  obtain ⟨f₁, fs₁, -, -, eouter⟩ := List.forall₂_cons_right_iff.mp houter
  have hleave := exec_leaveScope_push (Context.eq_push (y := ⟨f₁, fs₁⟩) eouter)
  have hleave' := exec_leaveScope_push (Context.eq_push hbelow)
  rw [Echoes, exec_inScope, exec_inScope, Run.exec_ensuring_ok hleave,
    Run.exec_ensuring_ok hleave']
  refine ⟨g', hg, m'.changeIn (m'.context.ofOuter eouter hbelow), hr, ?_⟩
  exact (m'.fit'.contextIn_changeIn fun _ => v.contextIn slot).symm

/-! ### Loops -/

/-- The items of a value that is no loop. -/
theorem echoes_itemsOf {K : Context Value → Context Value → Prop} [Std.Refl K]
    (m : w.Mirrors ρ g slot v) {a b : Value} (h : a.Mirrors g b) (hl : v.heap.isLoop b = false) :
    Echoes ρ g slot K Value.AllMirror w v (onHeap (Heap.itemsOf a)) (onHeap (Heap.itemsOf b)) := by
  obtain ⟨x, x', e, e', hx⟩ := m.heap.itemsOf h hl
  exact .of_reflects m ⟨g, .refl g, by rw [e, e']; exact m.heap, by rw [e, e']; exact hx⟩

/-- Whether no round of a loop goes through the state of a loop; `calm` says so of the body. -/
def roundsCalm (slot : Nat) (target : String) (items loop : Nat) (body : Run World String)
    (calm : World → Bool) : (rounds position : Nat) → World → Bool
  | 0, _, _ => true
  | rounds + 1, position, v =>
    match (v.heap.listItems items)[position]? with
    | none => true
    | some item =>
      let frame := roundFrame target item loop
      let turned := v.withTurn items loop position
      calm (turned.changeIn slot (·.push frame)) &&
        (inScope slot frame body).after
          (fun _ v => roundsCalm slot target items loop body calm rounds (position + 1) v) turned

/-- The list and the state of a loop in two worlds; the state ranks above the list. -/
structure Pairing.Loop (ρ : Nat → Nat) (g : Pairing) (list loop list' loop' : Nat) : Prop where
  list : g list = some list'
  loop : g loop = some loop'
  list_lt : ρ list' < loop'
  rank : ρ loop' = loop'

theorem Pairing.Loop.mono {l k n q : Nat} (p : g.Loop ρ l k n q) (h : g.Extends g') :
    g'.Loop ρ l k n q := ⟨h _ _ p.list, h _ _ p.loop, p.list_lt, p.rank⟩

/-- The partners after a turn of a loop: of what ranks as high as its state only that is known. -/
abbrev Pairing.turned (ρ : Nat → Nat) (loop loop' : Nat) (g : Pairing) : Pairing :=
  (g.below ρ loop').join loop loop'

namespace Pairing.Loop

variable {l k n q : Nat} (p : g.Loop ρ l k n q)
include p

theorem free : g.below ρ q k = none := by
  refine Option.eq_none_iff_forall_ne_some.mpr fun j e => ?_
  obtain ⟨e, hlt⟩ := Pairing.below_eq_some.mp e
  obtain rfl := Option.some.inj (p.loop.symm.trans e)
  exact Nat.lt_irrefl _ (p.rank ▸ hlt)

theorem below_turned : (g.below ρ q).Extends (g.turned ρ k q) := .join p.free

theorem kept : g.below ρ q l = some n := Pairing.below_eq_some.mpr ⟨p.list, p.list_lt⟩

theorem turned : (g.turned ρ k q).Loop ρ l k n q :=
  ⟨p.below_turned _ _ p.kept, Pairing.join_self, p.list_lt, p.rank⟩

/-- Both loops take their next turn. -/
theorem mirrors_withTurn (m : w.Mirrors ρ g slot v)
    (hc : (w.contextIn slot).Mirrors (g.below ρ q) (v.contextIn slot)) (position : Nat) :
    (w.withTurn l k position).Mirrors ρ (g.turned ρ k q) slot (v.withTurn n q position) := by
  obtain ⟨o, o', ho, ho', -⟩ := m.heap.row k q p.loop
  have hput : ∀ {h : Heap} {i : Nat} {o x : Object}, h.get? i = some o →
      (h.put i x).get? i = some x := by
    intro h i o x e
    rw [Heap.get?_put, if_pos rfl, e]
    rfl
  have hchange : Heap.Mirrors ρ (g.below ρ q) (w.withTurn l k position).heap
      (v.withTurn n q position).heap := by
    refine (m.heap.below q).change (fun i j e => ?_) (fun i j e => ?_) ?_ ?_ m.heap.unnumbers
    · rw [World.withTurn, Heap.get?_put, if_neg]
      rintro rfl
      cases p.free.symm.trans e
    · rw [World.withTurn, Heap.get?_put, if_neg]
      rintro rfl
      exact Nat.lt_irrefl _ (p.rank ▸ (Pairing.below_eq_some.mp e).2)
    · exact Nat.le_of_eq (Heap.size_put ..).symm
    · rw [World.withTurn, World.withTurn, Heap.size_put, Heap.size_put]
      exact m.heap.size_le
  refine ⟨m.fit.congr rfl rfl, m.fit'.congr rfl rfl, ?_, hc.mono p.below_turned, m.renderings,
    m.counts⟩
  refine hchange.join p.free (hput ho) (hput ho') ?_ (.loop ?_ position) nofun
  · rw [World.withTurn, Heap.size_put]
    exact m.heap.rank_lt k q p.loop
  · exact Pairing.below_eq_some.mpr ⟨p.kept, Nat.lt_of_lt_of_eq p.list_lt p.rank.symm⟩

end Pairing.Loop

/-- Induction on the number of rounds.  What is known at the beginning of each round is what was
known before the loop, and its list. -/
theorem echoes_runRounds {target : String} {l k n q : Nat} {base : Pairing} {c : Context Value}
    {body body' : Run World String} {calm : World → Bool}
    (h : ∀ {g : Pairing} {w v : World}, w.Mirrors ρ g slot v → calm v = true →
      Echoes ρ g slot Context.Beneath SameResult w v body body')
    (rounds position : Nat) (m : w.Mirrors ρ g slot v) (p : g.Loop ρ l k n q)
    (hbase : (base.below ρ q).Extends g)
    (hc : c.Mirrors (base.below ρ q) (v.contextIn slot))
    (quiet : roundsCalm slot target n q body' calm rounds position v = true) :
    Echoes ρ (base.below ρ q) slot Eq SameResult w v
      (runRounds slot target l k body rounds position)
      (runRounds slot target n q body' rounds position) := by
  induction rounds generalizing position g w v with
  | zero =>
    rw [runRounds, runRounds]
    refine .weaken hbase (.get_bind ?_)
    have hitem := Heap.Mirrors.rel_getElem (m.heap.listItems p.list) position
    generalize (w.heap.listItems l)[position]? = x, (v.heap.listItems n)[position]? = y at hitem
    cases hitem with
    | none => exact .pure m rfl
    | some _ => exact .unfinished m
  | succ rounds ih =>
    rw [runRounds, runRounds]
    refine .get_bind ?_
    have hitem := Heap.Mirrors.rel_getElem ((m.heap.below q).listItems p.kept) position
    rw [roundsCalm] at quiet
    generalize (w.heap.listItems l)[position]? = x, (v.heap.listItems n)[position]? = y
      at hitem quiet
    cases hitem with
    | none => exact .weaken hbase (.pure m rfl)
    | @some item item' hitem =>
      obtain ⟨hbody, hrest⟩ := Bool.and_eq_true_iff.mp quiet
      have hturned : (base.below ρ q).Extends (g.turned ρ k q) := by
        refine Pairing.Extends.trans (fun i j e => ?_) p.below_turned
        exact Pairing.below_eq_some.mpr ⟨hbase i j e, (Pairing.below_eq_some.mp e).2⟩
      have hframe : Bindings.Mirrors (g.turned ρ k q) (roundFrame target item k)
          (roundFrame target item' q) :=
        Frame.mirrors_ofNamed
          (.cons ⟨rfl, hitem.mono p.below_turned⟩ (.cons ⟨rfl, .object p.turned.loop⟩ .nil))
      have hturn := p.mirrors_withTurn m (m.context.ranked hc) position
      have hround := echoes_inScope hturn hframe (Frame.atomic_ofNamed _) fun m' => h m' hbody
      refine .set_bind rfl (hround.bind_from hturned fun g₁ w₁ v₁ text _ hg m₁ hab e hk => ?_)
      obtain rfl := hab
      have hnext := Run.of_after hrest e
      refine (ih (position + 1) m₁ (p.turned.mono hg) (hturned.trans hg) (hk ▸ hc)
        hnext).bind fun g₂ w₂ v₂ rest _ _ m₂ hrest' _ => ?_
      obtain rfl := hrest'
      exact .pure m₂ rfl

/-- Whether no round of a loop that is begun with some items goes through the state of a loop. -/
def loopCalm (host : Host) (slot : Nat) (target : String) (body : Run World String)
    (calm : World → Bool) (items : List Value) (v : World) : Bool :=
  roundsCalm slot target v.heap.objects.size (v.heap.objects.size + 1) body calm
    (items.length + host.growth) 0 (v.withLoop items)

theorem echoes_runLoop {host host' : Host} (growth : host.growth = host'.growth) {target : String}
    {body body' : Run World String} {calm : World → Bool}
    (h : ∀ {g : Pairing} {w v : World}, w.Mirrors ρ g slot v → calm v = true →
      Echoes ρ g slot Context.Beneath SameResult w v body body')
    {items items' : List Value} (m : w.Mirrors ρ g slot v) (hitems : Value.AllMirror g items items')
    (quiet : loopCalm host' slot target body' calm items' v = true) :
    Echoes ρ g slot Eq SameResult w v (runLoop host slot target items body)
      (runLoop host' slot target items' body') := by
  have hlist : ρ v.heap.objects.size = v.heap.objects.size := m.heap.rank_new _ (Nat.le_refl _)
  have hg : g.Extends (g.join w.heap.objects.size v.heap.objects.size) :=
    .join (m.heap.eq_none (Nat.le_refl _))
  have hm := m.heap.add (.list hitems) nofun
  have hg' := Pairing.Extends.join (j := v.heap.objects.size + 1) (hm.eq_none (Nat.le_refl _))
  have hm' := hm.add (.loop Pairing.join_self 0) nofun
  rw [Heap.size_add] at hg' hm'
  rw [Heap.size_add] at hm'
  have p : Pairing.Loop ρ _ w.heap.objects.size (w.heap.objects.size + 1) v.heap.objects.size
      (v.heap.objects.size + 1) :=
    { list := hg' _ _ Pairing.join_self
      loop := Pairing.join_self
      list_lt := hlist.symm ▸ Nat.lt_succ_self _
      rank := m.heap.rank_new _ (Nat.le_succ _) }
  have hbelow := m.heap.extends_below (Nat.le_succ v.heap.objects.size)
  have hrounds := echoes_runRounds h (items'.length + host'.growth) 0
    (m.withHeap (hg.trans hg') hm') p (Pairing.below_extends.trans (hg.trans hg'))
    (m.context.mono hbelow) quiet
  rw [Echoes, exec_runLoop, exec_runLoop, growth, hitems.length_eq]
  exact hrounds.weaken hbelow

/-! ### Nodes -/

section Calm

variable (host : Host) (r : Renderer)

mutual

/-- Whether no `for` and no filter of the node goes through the state of a loop, when the node is
rendered from a world. -/
def Node.calm : Node Atom → World → Bool
  | .output _ value, v | .assign _ _ value, v => value.calm host r r.strict v
  | .choice _ test body others otherwise, v =>
    test.calm host r r.strict v && (evaluate host r r.strict test.values).after (fun a v =>
      if v.heap.truth a then Node.allCalm body v
      else Branch.allCalm (Node.allCalm otherwise) others v) v
  | .loop _ target items body empty, v =>
    items.calm host r r.strict v && (evaluate host r r.strict items.values).after (fun a v =>
      !v.heap.isLoop a && (onHeap (Heap.itemsOf a)).after (fun vs v =>
        if vs.isEmpty then Node.allCalm empty v
        else loopCalm host r.slot target (renderNodes host r (Node.allValues body))
          (Node.allCalm body) vs v) v) v
  | .scope _ bindings body, v =>
    Expr.namedCalm host r bindings v &&
      (evaluateNamed host r (Expr.namedValues bindings)).after (fun es v =>
        Node.allCalm body (v.changeIn r.slot (·.push (.ofNamed es)))) v
  | .call _ tag args named _, v =>
    !(r.tags.get? tag).isSome || (Expr.allCalm host r r.strict args v &&
      (evaluateAll host r r.strict (Expr.allValues args)).after
        (fun _ v => Expr.namedCalm host r named v) v)
  | .data _ _, _ | .bare _ _, _ | .tree _ _ _, _ | .expr _ _, _ => true

/-- So it is for nodes, in order. -/
def Node.allCalm : List (Node Atom) → World → Bool
  | [], _ => true
  | n :: rest, v =>
    n.calm (v.atLine n.values.place.line) &&
      (renderNode host r n.values).after (fun _ v => Node.allCalm rest v)
        (v.atLine n.values.place.line)

/-- So it is for the branch that is taken, else for what is left. -/
def Branch.allCalm (otherwise : World → Bool) : List (Branch Atom) → World → Bool
  | [], v => otherwise v
  | .mk test body :: rest, v =>
    test.calm host r r.strict v && (evaluate host r r.strict test.values).after (fun a v =>
      if v.heap.truth a then Node.allCalm body v else Branch.allCalm otherwise rest v) v

end

end Calm

/-- The parts of two hosts that a render meets echo: filters, unless they go through the state of a
loop, and calls of tags. -/
structure Renderer.InChorus (ρ : Nat → Nat) (r : Renderer) (host host' : Host) : Prop where
  filters : host.FiltersEcho ρ host'
  growth : host.growth = host'.growth
  calls : ∀ (entry : TagEntry) {g : Pairing} {w v : World} {vs vs' : List Value}
    {ns ns' : List (String × Value)}, w.Mirrors ρ g r.slot v → Value.AllMirror g vs vs' →
    Bindings.EntriesMirror g ns ns' →
    Echoes ρ g r.slot Context.Beneath SameResult w v
      (renderTag entry r.slot (host.clone r.clone) fun body lent =>
        host.call body lent vs (.ofList ns))
      (renderTag entry r.slot (host'.clone r.clone) fun body lent =>
        host'.call body lent vs' (.ofList ns'))

namespace Renderer.InChorus

variable {host host' : Host} {r : Renderer}

theorem echoes_assign (m : w.Mirrors ρ g slot v) (name : String) {a b : Value}
    (h : a.Mirrors g b) :
    Echoes ρ g slot Context.Beneath SameResult w v (assign slot name a) (assign slot name b) := by
  have hbeneath : (v.contextIn slot).Beneath ((v.changeIn slot (·.set name b)).contextIn slot) := by
    rw [m.fit'.contextIn_changeIn]
    rfl
  exact .of_exec (.refl g) rfl rfl (m.changeIn (m.context.set name h)) (.ok rfl) hbeneath

section Steps

variable (k : r.InChorus ρ host host') (m : w.Mirrors ρ g r.slot v)
include k m

/-- A test, and then one of two ways. -/
theorem echoes_test {test : Expr Atom} {yes yes' no no' : Run World String}
    {calmYes calmNo : World → Bool}
    (hyes : ∀ {g : Pairing} {w v : World}, w.Mirrors ρ g r.slot v → calmYes v = true →
      Echoes ρ g r.slot Context.Beneath SameResult w v yes yes')
    (hno : ∀ {g : Pairing} {w v : World}, w.Mirrors ρ g r.slot v → calmNo v = true →
      Echoes ρ g r.slot Context.Beneath SameResult w v no no')
    (calm : (test.calm host' r r.strict v &&
      (evaluate host' r r.strict test.values).after
        (fun a v => if v.heap.truth a then calmYes v else calmNo v) v) = true) :
    Echoes ρ g r.slot Context.Beneath SameResult w v
      (do
        let a ← evaluate host r r.strict test.values
        if ← holds a then yes else no)
      (do
        let a ← evaluate host' r r.strict test.values
        if ← holds a then yes' else no') := by
  obtain ⟨htest, hbranch⟩ := Bool.and_eq_true_iff.mp calm
  refine (echoes_evaluate k.filters test r.strict m htest).bind fun g₁ w₁ v₁ a b _ m₁ hab e => ?_
  have hafter := Run.of_after hbranch e
  rw [Echoes, Run.exec_bind_ok (exec_holds a w₁), Run.exec_bind_ok (exec_holds b v₁),
    m₁.heap.truth_eq hab]
  split
  · next htrue =>
    rw [if_pos htrue] at hafter
    exact hyes m₁ hafter
  · next hfalse =>
    rw [if_neg hfalse] at hafter
    exact hno m₁ hafter

theorem echoes_renderCall (line : Int) {tag : String} {args : List (Expr Atom)}
    {named : List (String × Expr Atom)}
    (calm : (!(r.tags.get? tag).isSome || (Expr.allCalm host' r r.strict args v &&
      (evaluateAll host' r r.strict (Expr.allValues args)).after
        (fun _ v => Expr.namedCalm host' r named v) v)) = true) :
    Echoes ρ g r.slot Context.Beneath SameResult w v
      (renderCall host r line tag (Expr.allValues args) (Expr.namedValues named))
      (renderCall host' r line tag (Expr.allValues args) (Expr.namedValues named)) := by
  rw [renderCall, renderCall]
  split
  · exact echoes_unknown m ..
  · next entry hentry =>
    rw [hentry, Option.isSome_some, Bool.not_true, Bool.false_or] at calm
    obtain ⟨hargs, hrest⟩ := Bool.and_eq_true_iff.mp calm
    refine (echoes_evaluateAll k.filters args _ m hargs).bind fun g₁ w₁ v₁ vs vs' _ m₁ hvs e => ?_
    have hnamed := Run.of_after hrest e
    refine (echoes_evaluateNamed k.filters named m₁ hnamed).bind
      fun g₂ w₂ v₂ ns ns' hg m₂ hns _ => ?_
    exact k.calls entry m₂ (hvs.mono hg) hns

end Steps

mutual

/-- Induction on the node. -/
theorem echoes_renderNode (k : r.InChorus ρ host host') :
    ∀ (n : Node Atom) {g : Pairing} {w v : World}, w.Mirrors ρ g r.slot v →
      n.calm host' r v = true →
      Echoes ρ g r.slot Context.Beneath SameResult w v (renderNode host r n.values)
        (renderNode host' r n.values)
  | .data p text, g, w, v, m, _ => by
    show Echoes ρ g r.slot _ _ w v (renderNode host r (.data p text))
      (renderNode host' r (.data p text))
    rw [renderNode, renderNode]
    exact .pure m rfl
  | .output p value, g, w, v, m, calm => by
    show Echoes ρ g r.slot _ _ w v (renderNode host r (.output p value.values))
      (renderNode host' r (.output p value.values))
    rw [renderNode, renderNode]
    rw [Node.calm] at calm
    refine (echoes_evaluate k.filters value _ m calm).bind fun g₁ w₁ v₁ a b _ m₁ hab _ => ?_
    refine .get_bind ?_
    rw [m₁.heap.printed_eq hab]
    exact .ofExcept_same m₁ _
  | .choice p test body others otherwise, g, w, v, m, calm => by
    show Echoes ρ g r.slot _ _ w v
      (renderNode host r (.choice p test.values (Node.allValues body) (Branch.allValues others)
        (Node.allValues otherwise)))
      (renderNode host' r (.choice p test.values (Node.allValues body) (Branch.allValues others)
        (Node.allValues otherwise)))
    rw [renderNode, renderNode]
    rw [Node.calm] at calm
    exact k.echoes_test m (echoes_renderNodes k body)
      (echoes_renderBranches k (echoes_renderNodes k otherwise) others) calm
  | .loop p target items body empty, g, w, v, m, calm => by
    show Echoes ρ g r.slot _ _ w v
      (renderNode host r
        (.loop p target items.values (Node.allValues body) (Node.allValues empty)))
      (renderNode host' r
        (.loop p target items.values (Node.allValues body) (Node.allValues empty)))
    rw [renderNode, renderNode]
    rw [Node.calm] at calm
    obtain ⟨hlist, hrounds⟩ := Bool.and_eq_true_iff.mp calm
    refine (echoes_evaluate k.filters items _ m hlist).bind fun g₁ w₁ v₁ a b _ m₁ hab e => ?_
    have hnext := Run.of_after hrounds e
    obtain ⟨hloop, hitems⟩ := Bool.and_eq_true_iff.mp hnext
    have hquiet : v₁.heap.isLoop b = false := by simpa using hloop
    refine (echoes_itemsOf m₁ hab hquiet).bind
      fun g₂ w₂ v₂ vs vs' _ m₂ hvs e' => ?_
    have hcalm := Run.of_after hitems e'
    have hempty : vs.isEmpty = vs'.isEmpty := by cases hvs <;> rfl
    rw [hempty]
    split
    · next h =>
      rw [if_pos h] at hcalm
      exact echoes_renderNodes k empty m₂ hcalm
    · next h =>
      rw [if_neg h] at hcalm
      exact (echoes_runLoop k.growth (echoes_renderNodes k body) m₂ hvs hcalm).beneath
  | .scope p bindings body, g, w, v, m, calm => by
    show Echoes ρ g r.slot _ _ w v
      (renderNode host r (.scope p (Expr.namedValues bindings) (Node.allValues body)))
      (renderNode host' r (.scope p (Expr.namedValues bindings) (Node.allValues body)))
    rw [renderNode, renderNode]
    rw [Node.calm] at calm
    obtain ⟨hbindings, hbody⟩ := Bool.and_eq_true_iff.mp calm
    refine (echoes_evaluateNamed k.filters bindings m hbindings).bind
      fun g₁ w₁ v₁ es es' _ m₁ hes e => ?_
    have hnext := Run.of_after hbody e
    exact (echoes_inScope m₁ (Frame.mirrors_ofNamed hes) (Frame.atomic_ofNamed es') fun m₂ =>
      echoes_renderNodes k body m₂ hnext).beneath
  | .assign p target value, g, w, v, m, calm => by
    show Echoes ρ g r.slot _ _ w v (renderNode host r (.assign p target value.values))
      (renderNode host' r (.assign p target value.values))
    rw [renderNode, renderNode]
    rw [Node.calm] at calm
    refine (echoes_evaluate k.filters value _ m calm).bind fun g₁ w₁ v₁ a b _ m₁ hab _ => ?_
    exact (echoes_assign m₁ target hab).bind fun _ _ _ _ _ _ m₂ _ _ => .pure m₂ rfl
  | .call p tag args named target, g, w, v, m, calm => by
    show Echoes ρ g r.slot _ _ w v
      (renderNode host r (.call p tag (Expr.allValues args) (Expr.namedValues named) target))
      (renderNode host' r (.call p tag (Expr.allValues args) (Expr.namedValues named) target))
    rw [renderNode, renderNode]
    rw [Node.calm] at calm
    refine (k.echoes_renderCall m p.line calm).bind fun g₁ w₁ v₁ text _ _ m₁ htext _ => ?_
    obtain rfl := htext
    split
    · exact (echoes_assign m₁ _ (.atom _)).bind fun _ _ _ _ _ _ m₂ _ _ => .pure m₂ rfl
    · exact .pure m₁ rfl
  | .bare title p, g, w, v, m, _ => by
    show Echoes ρ g r.slot _ _ w v (renderNode host r (.bare title p))
      (renderNode host' r (.bare title p))
    rw [renderNode, renderNode]
    exact .fail m _
  | .tree title p body, g, w, v, m, _ => by
    show Echoes ρ g r.slot _ _ w v (renderNode host r (.tree title p (Node.allValues body)))
      (renderNode host' r (.tree title p (Node.allValues body)))
    rw [renderNode, renderNode]
    exact .fail m _
  | .expr title e, g, w, v, m, _ => by
    show Echoes ρ g r.slot _ _ w v (renderNode host r (.expr title e.values))
      (renderNode host' r (.expr title e.values))
    rw [renderNode, renderNode]
    exact .fail m _

theorem echoes_renderNodes (k : r.InChorus ρ host host') :
    ∀ (ns : List (Node Atom)) {g : Pairing} {w v : World}, w.Mirrors ρ g r.slot v →
      Node.allCalm host' r ns v = true →
      Echoes ρ g r.slot Context.Beneath SameResult w v (renderNodes host r (Node.allValues ns))
        (renderNodes host' r (Node.allValues ns))
  | [], g, w, v, m, _ => by
    show Echoes ρ g r.slot _ _ w v (renderNodes host r []) (renderNodes host' r [])
    rw [renderNodes, renderNodes]
    exact .pure m rfl
  | n :: rest, g, w, v, m, calm => by
    show Echoes ρ g r.slot _ _ w v (renderNodes host r (n.values :: Node.allValues rest))
      (renderNodes host' r (n.values :: Node.allValues rest))
    rw [renderNodes, renderNodes]
    rw [Node.allCalm] at calm
    obtain ⟨hfirst, hrest⟩ := Bool.and_eq_true_iff.mp calm
    refine .modify_bind rfl ?_
    refine (echoes_renderNode k n (m.changeRendering _) hfirst).bind
      fun g₁ w₁ v₁ text _ _ m₁ htext e => ?_
    obtain rfl := htext
    have hnext := Run.of_after hrest e
    refine (echoes_renderNodes k rest m₁ hnext).bind
      fun g₂ w₂ v₂ more _ _ m₂ hmore _ => ?_
    obtain rfl := hmore
    exact .pure m₂ rfl

theorem echoes_renderBranches (k : r.InChorus ρ host host')
    {otherwise otherwise' : Run World String} {calm : World → Bool}
    (h : ∀ {g : Pairing} {w v : World}, w.Mirrors ρ g r.slot v → calm v = true →
      Echoes ρ g r.slot Context.Beneath SameResult w v otherwise otherwise') :
    ∀ (bs : List (Branch Atom)) {g : Pairing} {w v : World}, w.Mirrors ρ g r.slot v →
      Branch.allCalm host' r calm bs v = true →
      Echoes ρ g r.slot Context.Beneath SameResult w v
        (renderBranches host r otherwise (Branch.allValues bs))
        (renderBranches host' r otherwise' (Branch.allValues bs))
  | [], g, w, v, m, hcalm => by
    show Echoes ρ g r.slot _ _ w v (renderBranches host r otherwise [])
      (renderBranches host' r otherwise' [])
    rw [renderBranches, renderBranches]
    rw [Branch.allCalm] at hcalm
    exact h m hcalm
  | .mk test body :: rest, g, w, v, m, hcalm => by
    show Echoes ρ g r.slot _ _ w v
      (renderBranches host r otherwise
        (.mk test.values (Node.allValues body) :: Branch.allValues rest))
      (renderBranches host' r otherwise'
        (.mk test.values (Node.allValues body) :: Branch.allValues rest))
    rw [renderBranches, renderBranches]
    rw [Branch.allCalm] at hcalm
    exact k.echoes_test m (echoes_renderNodes k body) (echoes_renderBranches k h rest) hcalm

end

end Renderer.InChorus

end Stencil
