/-
Stencil/Proofs/Render/Snapshot.lean

A loop runs over the items that there are when it begins.  In order, and once
for each of them, its body is rendered in a frame of its own, which binds the
item and the loop and nothing else (`Round`); below it are the frames that the
loop began with, copied at most.  Only an error ends this early (`Rounds`).

So it is, in any case, when the items are given beforehand (`renderEach`).  A
loop looks for them in a list of its own.  What a body does to the value that
they came from does not matter, nor whether its tags keep handles, so that the
slot gets a copy: everything that a render does leaves that list
(`upholds_retains`), unless foreign code changes this very list.  Then the two
are the same, by induction on the items that are left (`exec_runRounds`).
-/
import Stencil.Proofs.Render.Isolation
import Stencil.Proofs.Render.Telling

namespace Stencil

variable {host : Host} {r : Renderer} {w w' : World} {target : String} {list loop k : Nat}
  {body : List (Node Value)} {x : Context Value} {item : Value} {before rest xs : List Value}
  {writes : TagWrites}

/-! ### One round -/

/-- The loop is at the position `k`, and the frame of the round is pushed. -/
def World.withRound (slot : Nat) (target : String) (list loop : Nat) (item : Value) (k : Nat)
    (w : World) : World :=
  (w.withTurn list loop k).changeIn slot (·.push (roundFrame target item loop))

/-- One round of a loop that began with the context `x`: the body is rendered, and the frame of the
round is taken off again. -/
structure Round (host : Host) (r : Renderer) (target : String) (list loop : Nat)
    (body : List (Node Value)) (x : Context Value) (item : Value) (k : Nat) (w : World)
    (out : Except Stop String × World) : Prop where
  /-- Of the rounds before nothing is left. -/
  below : Disciplined (host.clone r.clone) [] x (w.contextIn r.slot)
  /-- On top is a frame with the item and the loop, which wins over a target of its name. -/
  frame : (w.withRound r.slot target list loop item k).contextIn r.slot =
    (w.contextIn r.slot).push ⟨if target = "loop" then [(.text "loop", .object loop)]
      else [(.text target, item), (.text "loop", .object loop)]⟩
  rendered : ∃ result done y g,
    (renderNodes host r body).exec (w.withRound r.slot target list loop item k) = (result, done) ∧
      done.contextIn r.slot = y.push g ∧ out = (result, done.changeIn r.slot fun _ => y)

/-- The rounds of a loop over some items, from the position `k` on: one for each item, in order, up
to one that fails. -/
inductive Rounds (host : Host) (r : Renderer) (target : String) (list loop : Nat)
    (body : List (Node Value)) (x : Context Value) :
    List Value → Nat → World → Except Stop String × World → Prop
  | ends {k : Nat} {w : World} : Rounds host r target list loop body x [] k w (.ok "", w)
  | fails {item : Value} {rest : List Value} {k : Nat} {w w' : World} {e : Stop}
      (round : Round host r target list loop body x item k w (.error e, w')) :
      Rounds host r target list loop body x (item :: rest) k w (.error e, w')
  | next {item : Value} {rest : List Value} {k : Nat} {w w' w'' : World} {text : String}
      {result : Except Stop String}
      (round : Round host r target list loop body x item k w (.ok text, w'))
      (later : Rounds host r target list loop body x rest (k + 1) w' (result, w'')) :
      Rounds host r target list loop body x (item :: rest) k w (result.map (text ++ ·), w'')

/-- What the frame of a round binds. -/
theorem roundFrame_eq (target : String) (item : Value) (loop : Nat) :
    roundFrame target item loop = ⟨if target = "loop" then [(.text "loop", .object loop)]
      else [(.text target, item), (.text "loop", .object loop)]⟩ := by
  have hset : roundFrame target item loop =
      ⟨Bindings.setEntry (.text "loop") (.object loop) [(.text target, item)]⟩ := rfl
  rw [hset, Bindings.setEntry]
  by_cases htarget : target = "loop"
  · subst htarget
    rw [if_pos rfl, if_pos rfl]
  · rw [if_neg htarget, if_neg fun e => htarget (Name.text.inj e)]
    rfl

/-- A round is what is done in its scope: however the body ends, there is a frame to take off. -/
theorem round_inScope (tame : host.Tame writes) (fit : w.Fit r.slot)
    (below : Disciplined (host.clone r.clone) [] x (w.contextIn r.slot)) :
    Round host r target list loop body x item k w
      ((inScope r.slot (roundFrame target item loop) (renderNodes host r body)).exec
        (w.withTurn list loop k)) := by
  have hturn : (w.withTurn list loop k).Fit r.slot := fit.congr rfl rfl
  have hbegin : (w.withRound r.slot target list loop item k).contextIn r.slot =
      (w.contextIn r.slot).push (roundFrame target item loop) :=
    hturn.contextIn_changeIn (·.push (roundFrame target item loop))
  obtain ⟨y, g, hy, -, hleave⟩ := (tends_renderNodes tame body _ (hturn.changeIn _)).scoped hturn
  rw [exec_inScope, Run.exec_ensuring_ok hleave]
  exact ⟨below, hbegin.trans (congrArg _ (roundFrame_eq ..)), _, _, y, g, rfl, hy, rfl⟩

/-- After a round there is the context of before, copied at most. -/
theorem tends_round (tame : host.Tame writes) (fit : w.Fit r.slot) (target : String)
    (list loop : Nat) (body : List (Node Value)) (item : Value) (k : Nat) :
    Tends (host.clone r.clone) r.slot [] w
      ((inScope r.slot (roundFrame target item loop) (renderNodes host r body)).exec
        (w.withTurn list loop k)).2 :=
  .before (w.withTurn list loop k) fit rfl rfl fun hturn =>
    tends_inScope hturn _ fun v hv => ⟨_, tends_renderNodes tame body v hv⟩

theorem Round.unique {out out' : Except Stop String × World}
    (h : Round host r target list loop body x item k w out)
    (h' : Round host r target list loop body x item k w out') : out = out' := by
  obtain ⟨result, done, y, g, e, hy, rfl⟩ := h.rendered
  obtain ⟨result', done', y', g', e', hy', rfl⟩ := h'.rendered
  obtain ⟨rfl, rfl⟩ := Prod.mk.inj (e.symm.trans e')
  obtain rfl : y = y' := by
    have hpush := congrArg Context.pop? (hy.symm.trans hy')
    exact (Prod.mk.inj (Option.some.inj hpush)).2
  rfl

/-- What rounds come to is determined. -/
theorem Rounds.unique {out out' : Except Stop String × World}
    (h : Rounds host r target list loop body x xs k w out)
    (h' : Rounds host r target list loop body x xs k w out') : out = out' := by
  induction h generalizing out' with
  | ends =>
    cases h'
    rfl
  | fails round =>
    cases h' with
    | fails round' => exact round.unique round'
    | next round' => cases round.unique round'
  | next round later ih =>
    cases h' with
    | fails round' => cases round.unique round'
    | next round' later' =>
      cases round.unique round'
      cases ih later'
      rfl

/-! ### All rounds -/

/-- Renders a body for each of some items, in order. -/
def renderEach (host : Host) (r : Renderer) (target : String) (list loop : Nat)
    (body : List (Node Value)) : List Value → Nat → Run World String
  | [], _ => pure ""
  | item :: rest, k => do
    modify (·.withTurn list loop k)
    let text ← inScope r.slot (roundFrame target item loop) (renderNodes host r body)
    let more ← renderEach host r target list loop body rest (k + 1)
    return text ++ more

theorem exec_renderEach_cons :
    (renderEach host r target list loop body (item :: rest) k).exec w =
      (do
        let text ← inScope r.slot (roundFrame target item loop) (renderNodes host r body)
        let more ← renderEach host r target list loop body rest (k + 1)
        return text ++ more : Run World String).exec (w.withTurn list loop k) := by
  rw [renderEach, Run.exec_modify_bind]

/-- Induction on the items. -/
theorem rounds_renderEach (tame : host.Tame writes) (fit : w.Fit r.slot)
    (below : Disciplined (host.clone r.clone) [] x (w.contextIn r.slot)) :
    Rounds host r target list loop body x xs k w
      ((renderEach host r target list loop body xs k).exec w) := by
  induction xs generalizing w k with
  | nil => exact .ends
  | cons item rest ih =>
    have hround : Round host r target list loop body x item k w _ := round_inScope tame fit below
    have htends := tends_round tame fit target list loop body item k
    rw [exec_renderEach_cons]
    rcases e : (inScope r.slot (roundFrame target item loop) (renderNodes host r body)).exec
      (w.withTurn list loop k) with ⟨f | text, w₁⟩ <;> rw [e] at hround htends
    · rw [Run.exec_bind_error e]
      exact .fails hround
    · have hlater := ih (k := k + 1) htends.fit (below.evolves.trans htends.evolves).disciplined
      rw [Run.exec_bind_ok e, Run.exec_bind]
      rcases em : (renderEach host r target list loop body rest (k + 1)).exec w₁ with ⟨f | more, w₂⟩
        <;> rw [em] at hlater
      · exact .next hround hlater
      · exact .next hround hlater

/-! ### The list of a loop -/

/-- The items `xs` are in a list. -/
def Holding (list : Nat) (xs : List Value) (h : Heap) : Prop := h.get? list = some (.list xs)

/-- That items are in a list lasts. -/
theorem Heap.lasting_holding (list : Nat) (xs : List Value) :
    Heap.Lasting [list] (Holding list xs) where
  there e hi := by
    obtain rfl := List.mem_singleton.mp hi
    exact Heap.lt_size e
  drift e d := by
    obtain ⟨o, e', m⟩ := d _ _ e
    cases m with
    | same => exact e'
  put e hi o := by
    rw [Holding, Heap.get?_put, if_neg fun e' => hi (List.mem_singleton.mpr e'), e]

/-- So it is when a loop begins. -/
theorem World.holding_withLoop (xs : List Value) (w : World) :
    Holding w.heap.objects.size xs (w.withLoop xs).heap := by
  have hsize : (w.heap.add (.list xs)).2.objects.size = w.heap.objects.size + 1 := Heap.size_add ..
  rw [Holding, World.withLoop, Heap.get?_add, if_neg (by omega), Heap.get?_add, if_pos rfl]

/-- After some of the items come the others. -/
theorem Holding.getElem? {h : Heap} (holds : Holding list (before ++ rest) h) :
    (h.listItems list)[before.length]? = rest.head? := by
  rw [Heap.listItems, holds]
  dsimp only
  rw [List.getElem?_append_right (Nat.le_refl _), Nat.sub_self, List.head?_eq_getElem?]

/-- A loop whose list is left does what it does for its items.  Induction on those that are left. -/
theorem exec_runRounds (tame : host.Tame writes)
    (clones : (host.clone r.clone).Preserves (Holding list xs)) (hne : loop ≠ list) {growth : Nat} (hxs : xs = before ++ rest)
    (o : w.Retains r.slot [list] (Holding list xs) [])
    (preserves : ∀ m ∈ notesOfRounds r.slot target list loop (renderNodes host r body)
      (nodesCourse host r body) (rest.length + growth) before.length w,
      m.Preserves host r (Holding list xs)) :
    (runRounds r.slot target list loop (renderNodes host r body) (rest.length + growth)
        before.length).exec w =
      (renderEach host r target list loop body rest before.length).exec w := by
  induction rest generalizing before w with
  | nil =>
    have hitem := (hxs ▸ o.holds).getElem?
    rw [runRounds.eq_def, Run.exec_get_bind, hitem]
    rfl
  | cons item rest ih =>
    have hitem := (hxs ▸ o.holds).getElem?
    have hcount : (item :: rest).length + growth = rest.length + growth + 1 := by
      rw [List.length_cons, Nat.add_right_comm]
    rw [hcount, notesOfRounds, hitem] at preserves
    obtain ⟨hbody, hlater⟩ := List.forall_mem_append.mp preserves
    rw [hcount, runRounds, Run.exec_get_bind, hitem, exec_renderEach_cons]
    dsimp only [List.head?_cons]
    rw [Run.exec_set_bind]
    -- the round leaves the list
    have hturn : (w.withTurn list loop before.length).Retains r.slot [list] (Holding list xs) [] :=
      o.heap ((Heap.lasting_holding list xs).put o.holds (mt List.mem_singleton.mp hne) _)
    have upholds : r.Upholds host (Moment.Preserves host r (Holding list xs)) _ :=
      upholds_retains (Heap.lasting_holding list xs) tame clones
    have hscope := upholds.inScope (d := 0) (roundFrame target item loop) hturn
      (upholds.renderNodes [] 1 body _)
    rcases e : (inScope r.slot (roundFrame target item loop) (renderNodes host r body)).exec
      (w.withTurn list loop before.length) with ⟨f | text, w₁⟩
    · rw [Run.exec_bind_error e]
      exact Run.exec_bind_error e
    · rw [notesAfter_ok e] at hlater
      have hbefore : before.length + 1 = (before ++ [item]).length := by
        rw [List.length_append]
        rfl
      rw [hbefore] at hlater
      have hrest := ih (by rw [hxs, List.append_assoc]; rfl) (hscope.last hbody text w₁ e) hlater
      rw [← hbefore] at hrest
      rw [Run.exec_bind_ok e]
      refine (Run.exec_bind_ok e).trans ?_
      rw [Run.exec_bind, Run.exec_bind, hrest]

/-! ### Foreign code that does other things -/

/-- At no moment does foreign code end what it never ends. -/
theorem Moment.preserves_of_host {P : Heap → Prop}
    (filters : ∀ f vs h, P h → P ((host.filter f vs).exec h).2)
    (calls : ∀ body lent vs ns (w : World), P w.heap →
      P ((host.call body lent vs ns).exec w).2.heap) (m : Moment) : m.Preserves host r P := by
  obtain ⟨w, d⟩ := m
  intro h hforeign hP
  cases d with
  | filters f vs =>
    obtain ⟨v, e⟩ := hforeign
    have hf := filters f vs w.heap hP
    rwa [e] at hf
  | calls entry vs ns =>
    cases entry with
    | filter f => cases hforeign
    | tag t =>
      have hentered : (t.entered r.slot w).heap = w.heap := by
        rw [TagDefinition.entered]
        split
        · rfl
        · exact World.heap_startOfCall ..
      obtain rfl : h = _ := hforeign
      exact calls _ _ _ _ _ (hentered.symm ▸ hP)
  | _ => cases hforeign

/-- A tag that appends to a list, in place, and keeps its handle, if it has one. -/
def Errand.growing (l : Nat) : Errand :=
  work
    (do
      modify fun w => { w with heap := w.heap.put l (.list (w.heap.listItems l ++ [.int 0])) }
      return .absent)
    fun _ => keep (.own 0) (finish (.ok .absent))

theorem Errand.heap_growing (l : Nat) (mine : List Nat) (w : World) :
    (((Errand.growing l).run mine).exec w).2.heap =
      w.heap.put l (.list (w.heap.listItems l ++ [.int 0])) := by
  rw [growing, exec_work]
  exact World.heap_keep ..

/-! ### The whole loop -/

/-- The course of the rounds of a loop over items, which begins in a world. -/
def roundsCourse (host : Host) (r : Renderer) (target : String) (body : List (Node Value))
    (xs : List Value) (w : World) : List Moment :=
  notesOfRounds r.slot target w.heap.objects.size (w.heap.objects.size + 1)
    (renderNodes host r body) (nodesCourse host r body) (xs.length + host.growth) 0 (w.withLoop xs)

/-- A loop goes through the items that its value has when it begins, unless foreign code changes the
list of them that is the loop's own.  Without items nothing is rendered but the branch for that, in
the scope around the loop; else there is one round for each item. -/
theorem loop_snapshot (tame : host.Tame writes) (fit : w.Fit r.slot) (place : Position)
    {items : Expr Value} (empty : List (Node Value)) {v : Value} {w₁ w₂ : World}
    (e : (evaluate host r r.strict items).exec w = (.ok v, w₁))
    (e' : (onHeap (Heap.itemsOf v)).exec w₁ = (.ok xs, w₂))
    (clones : (host.clone r.clone).Preserves (Holding w₂.heap.objects.size xs))
    (preserves : ∀ m ∈ roundsCourse host r target body xs w₂,
      m.Preserves host r (Holding w₂.heap.objects.size xs)) :
    w₂.contextIn r.slot = w.contextIn r.slot ∧
      (xs = [] → (renderNode host r (.loop place target items body empty)).exec w =
        (renderNodes host r empty).exec w₂) ∧
      (xs ≠ [] → Rounds host r target w₂.heap.objects.size (w₂.heap.objects.size + 1) body
        (w.contextIn r.slot) xs 0 (w₂.withLoop xs)
        ((renderNode host r (.loop place target items body empty)).exec w)) := by
  have hsame : SameLoans w w₂ := by
    have hvalue := (same_evaluate host r r.strict items w).state
    have hitems := (same_items v w₁).state
    rw [e] at hvalue
    rw [e'] at hitems
    exact trans_of SameLoans hvalue hitems
  have hin : w₂.contextIn r.slot = w.contextIn r.slot := by
    rw [World.contextIn, hsame.1]
    rfl
  refine ⟨hin, fun hnil => ?_, fun hcons => ?_⟩
  · rw [renderNode, Run.exec_bind_ok e, Run.exec_bind_ok e', if_pos (List.isEmpty_iff.mpr hnil)]
  · rw [renderNode, Run.exec_bind_ok e, Run.exec_bind_ok e',
      if_neg (mt List.isEmpty_iff.mp hcons), exec_runLoop]
    have hfit : (w₂.withLoop xs).Fit r.slot := fit.congr hsame.1 hsame.2
    have hbelow : Disciplined (host.clone r.clone) [] (w.contextIn r.slot)
        ((w₂.withLoop xs).contextIn r.slot) := by
      rw [← hin]
      exact Evolves.rests.disciplined
    have hexec := exec_runRounds tame clones (Nat.succ_ne_self _) (List.nil_append xs).symm
      ⟨hfit, w₂.holding_withLoop xs, fun _ hq => absurd hq List.not_mem_nil⟩ preserves
    rw [List.length_nil] at hexec
    rw [hexec]
    exact rounds_renderEach tame hfit hbelow

/-- The tag grows the list that the loop goes through, and keeps its handle, in both rounds. -/
theorem loop_snapshot_grown :
    let host := Host.plain.sends fun _ _ _ => .growing 0
    let r : Renderer := ⟨0, false, .deep, .empty, .ofList [("g", .tag ⟨"g", [], .context⟩)]⟩
    let body : List (Node Value) := [.call ⟨1, 0⟩ "g" [] [] none, .data ⟨1, 0⟩ "."]
    let out := (renderNode host r (.loop ⟨1, 0⟩ "x" (.name ⟨1, 0⟩ "xs") body [])).exec .ofTwo
    Rounds host r "x" 1 2 body (World.ofTwo.contextIn 0) [.int 1, .int 2] 0
        (World.ofTwo.withLoop [.int 1, .int 2]) out ∧
      out.1 = .ok ".." ∧ out.2.kept = [1, 3] ∧
      out.2.heap.listItems 0 = [.int 1, .int 2, .int 0, .int 0] := by
  intro host r body out
  have hfit : World.ofTwo.Fit 0 :=
    ⟨World.sound_ofContext _, ⟨⟨0, false⟩, rfl⟩, fun _ hh => nomatch hh⟩
  have hvalue : (evaluate host r false (.name ⟨1, 0⟩ "xs")).exec .ofTwo =
      (.ok (.object 0), .ofTwo) := rfl
  have hitems : (onHeap (Heap.itemsOf (.object 0))).exec .ofTwo =
      (.ok [.int 1, .int 2], .ofTwo) := rfl
  have hpreserves : ∀ m ∈ roundsCourse host r "x" body [.int 1, .int 2] .ofTwo,
      m.Preserves host r (Holding 1 [.int 1, .int 2]) := by
    intro m _
    refine m.preserves_of_host (fun _ _ _ => id) fun _ _ _ _ w holds => ?_
    show Holding 1 _ (((Errand.growing 0).run _).exec w).2.heap
    rw [Errand.heap_growing]
    exact (Heap.lasting_holding 1 _).put holds (by decide) _
  have hclones : Clone.Preserves (Holding 1 [.int 1, .int 2]) (host.clone r.clone) :=
    (Heap.lasting_holding 1 _).clones .deep
  obtain ⟨-, -, h⟩ := loop_snapshot (Host.plain.tame_sends _) hfit ⟨1, 0⟩ [] hvalue hitems hclones
    hpreserves
  exact ⟨h nofun, by decide +kernel, by decide +kernel, by decide +kernel⟩

/-- The list that a loop goes through can be got at by `loop` alone.  A tag that is called with it,
and makes it longer by two, makes the loop go on: the body is rendered four times for two items. -/
theorem loop_snapshot_own_list_grown :
    let host := Host.sends { Host.plain with growth := 2 } fun _ vs _ =>
      match vs with
      | [.object l] => .growing l
      | _ => .finish (.ok .absent)
    let r : Renderer := ⟨0, false, .deep, .empty, .ofList [("g", .tag ⟨"g", [], .plain⟩)]⟩
    let items : Expr Value := .name ⟨1, 0⟩ "xs"
    let own : Expr Value := .name ⟨1, 0⟩ "own"
    let body : List (Node Value) :=
      [.choice ⟨1, 0⟩ (.member ⟨1, 0⟩ (.name ⟨1, 0⟩ "loop") "first")
        [.scope ⟨1, 0⟩ [("own", .member ⟨1, 0⟩ (.name ⟨1, 0⟩ "loop") "_items")]
          [.loop ⟨1, 0⟩ "y" own [.call ⟨1, 0⟩ "g" [own] [] none] []]] [] [],
        .data ⟨1, 0⟩ "."]
    let out := (renderNode host r (.loop ⟨1, 0⟩ "x" items body [])).exec .ofTwo
    (evaluate host r false items).exec .ofTwo = (.ok (.object 0), .ofTwo) ∧
      (onHeap (Heap.itemsOf (.object 0))).exec .ofTwo = (.ok [.int 1, .int 2], .ofTwo) ∧
      out.1 = .ok "...." ∧
      ¬ Rounds host r "x" 1 2 body (World.ofTwo.contextIn 0) [.int 1, .int 2] 0
        (World.ofTwo.withLoop [.int 1, .int 2]) out := by
  intro host r items own body out
  have hout : out.1 = .ok "...." := by decide +kernel
  refine ⟨rfl, rfl, hout, fun h => ?_⟩
  have hfit : (World.ofTwo.withLoop [.int 1, .int 2]).Fit 0 :=
    ⟨World.sound_ofContext _, ⟨⟨0, false⟩, rfl⟩, fun _ hh => nomatch hh⟩
  have hrounds : Rounds host r "x" 1 2 body (World.ofTwo.contextIn 0) [.int 1, .int 2] 0
      (World.ofTwo.withLoop [.int 1, .int 2]) _ :=
    rounds_renderEach (Host.tame_sends _ _) hfit Evolves.rests.disciplined
  have hboth : ((renderEach host r "x" 1 2 body [.int 1, .int 2] 0).exec
      (World.ofTwo.withLoop [.int 1, .int 2])).1 = .ok ".." := by decide +kernel
  rw [← h.unique hrounds, hout] at hboth
  exact absurd (Except.ok.inj hboth) (by decide)

end Stencil
