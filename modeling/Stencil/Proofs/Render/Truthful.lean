/-
Stencil/Proofs/Render/Truthful.lean

What `loop` tells in the body of a loop.  Wherever the body of a round looks at
`loop`, in a scope that does not bind it anew, it is told the position of the
round and the number of the items, if all moments before, in this round, spare
the round (`evaluate_loop_truthful`).  So it is whatever the body evaluates,
renders and calls: filters that leave the loop alone, further loops, scopes, and
tags that keep their handles, so that a copy of the context comes back.

What does not spare a round is to go through the loop itself, since this moves
the very state that the frame binds.  In the rounds before nothing is asked but
that foreign code leaves the list of the loop alone: each round puts the state
at its own position again (`Turns.inRound`, by induction on the rounds).
-/
import Stencil.Proofs.Render.Isolation
import Stencil.Proofs.Render.Telling

namespace Stencil

variable {host : Host} {r : Renderer} {w w₀ : World} {n k : Nat} {writes : TagWrites}

/-! ### Rounds -/

/-- The frame of a round binds the loop. -/
theorem get?_roundFrame (target : String) (item : Value) (loop : Nat) :
    (roundFrame target item loop).get? (.text "loop") = some (.object loop) := by
  show (Bindings.set _ (Name.text "loop") (Value.object loop)).get? _ = _
  rw [Bindings.get?_set, if_pos rfl]

/-- A round begins: the state of the loop is moved, and its frame is pushed. -/
theorem World.RunsOver.begins {loop list p : Nat} (o : w.RunsOver r.slot loop list n [])
    (target : String) (item : Value) :
    let w₀ := (w.withTurn list loop p).changeIn r.slot (·.push (roundFrame target item loop))
    w₀.InRound r.slot (w₀.contextIn r.slot).outer.length p n [] 0 := by
  intro w₀
  obtain ⟨q, runs⟩ := o.runs
  have fit : (w.withTurn list loop p).Fit r.slot := o.fit.congr rfl rfl
  have hin : w₀.contextIn r.slot = _ := fit.contextIn_changeIn (·.push (roundFrame target item loop))
  refine ⟨fit.changeIn _, rfl, nofun, loop, list, ⟨?_, runs.turn p⟩, nofun, nofun⟩
  rw [Context.loopAt_innermost, hin]
  exact get?_roundFrame target item loop

/-- Induction on the rounds before: in each the body leaves the loop running over its list. -/
theorem Turns.inRound (tame : host.Tame writes) (hclone : host.clone r.clone = r.clone.apply)
    {target : String} {list loop rounds position left : Nat} {body : List (Node Value)}
    {ks rests : List Rest} (turns : Turns host r target list loop body rounds position w rests w₀)
    (hrests : rests = .scope :: .rounds target list loop body left (k + 1) :: ks) :
    ∃ m, k = position + m ∧ (w.RunsOver r.slot loop list n [] →
      (∀ q ∈ notesOfRounds r.slot target list loop (renderNodes host r body)
        (nodesCourse host r body) m position w, q.KeepsLoop host r loop list n) →
      w₀.InRound r.slot (w₀.contextIn r.slot).outer.length k n [] 0) := by
  induction turns generalizing ks with
  | @now _ p item w e =>
    obtain ⟨⟨-, rfl⟩, -⟩ : (_ ∧ p = k) ∧ _ := by simpa using hrests
    exact ⟨0, rfl, fun o _ => o.begins target item⟩
  | @later _ p item text ks' w w' w'' e round t ih =>
    -- what is left of the later rounds begins in the same way
    obtain ⟨ks'', rfl⟩ : ∃ ks'', ks' = .scope :: .rounds target list loop body left (k + 1) :: ks'' := by
      rcases ks' with - | ⟨k₁, - | ⟨k₂, ks'⟩⟩
      · simp at hrests
      · simp at hrests
      · simp only [List.cons_append, List.cons.injEq] at hrests
        obtain ⟨rfl, rfl, -⟩ := hrests
        exact ⟨ks', rfl⟩
    obtain ⟨m, rfl, h⟩ := ih rfl
    refine ⟨m + 1, by omega, fun o keeps => ?_⟩
    rw [notesOfRounds, e] at keeps
    dsimp only at keeps
    rw [notesAfter_ok round] at keeps
    obtain ⟨hbody, hlater⟩ := List.forall_mem_append.mp keeps
    have upholds : r.Upholds host (Moment.KeepsLoop host r loop list n) _ :=
      upholds_runsOver tame hclone
    obtain ⟨q, runs⟩ := o.runs
    have hturn : (w.withTurn list loop p).RunsOver r.slot loop list n [] :=
      o.heap ⟨p, runs.turn p⟩
    have hround := upholds.inScope (d := 0) (roundFrame target item loop) hturn
      (upholds.renderNodes [] 1 body _)
    exact h (hround.last hbody text w' round) hlater

/-- The rendering of a loop comes from the world `w` to a body in the world `w₀`, that of the round
`k`, counted from zero, of `n` in all; `list` is the list that it runs over, and `earlier` the course
of the rounds before. -/
inductive Node.ComesToRound (host : Host) (r : Renderer) :
    Node Value → World → List (Node Value) → (n k list : Nat) → List Moment → World → Prop
  | loop {place : Position} {target : String} {items : Expr Value} {body empty : List (Node Value)}
      {v : Value} {xs : List Value} {w w₁ w₂ w₀ : World} {k list left : Nat} {ks : List Rest}
      (e : (evaluate host r r.strict items).exec w = (.ok v, w₁))
      (e' : (onHeap (Heap.itemsOf v)).exec w₁ = (.ok xs, w₂)) (hlist : list = w₂.heap.objects.size)
      (turns : Turns host r target list (list + 1) body (xs.length + host.growth) 0
        (w₂.withLoop xs) (.scope :: .rounds target list (list + 1) body left (k + 1) :: ks) w₀) :
      ComesToRound host r (.loop place target items body empty) w body xs.length k list
        (notesOfRounds r.slot target list (list + 1) (renderNodes host r body)
          (nodesCourse host r body) k 0 (w₂.withLoop xs)) w₀

/-- The round is under way when its body begins. -/
theorem Node.ComesToRound.inRound (tame : host.Tame writes)
    (hclone : host.clone r.clone = r.clone.apply) (fit : w.Fit r.slot) {node : Node Value}
    {body : List (Node Value)} {list : Nat} {earlier : List Moment}
    (comes : node.ComesToRound host r w body n k list earlier w₀)
    (keeps : ∀ q ∈ earlier, q.KeepsLoop host r (list + 1) list n) :
    w₀.InRound r.slot (w₀.contextIn r.slot).outer.length k n [] 0 := by
  cases comes with
  | @loop _ _ items _ _ v xs _ w₁ w₂ _ _ _ _ _ e e' hlist turns =>
    subst hlist
    obtain ⟨m, hm, h⟩ := turns.inRound tame hclone rfl
    obtain rfl : m = k := (hm.trans (Nat.zero_add m)).symm
    -- up to here nothing was done to what is on loan
    have hitems : SameLoans w w₁ := by
      have hstate := (same_evaluate host r r.strict items w).state
      rwa [e] at hstate
    have hxs : w₂.loans = w₁.loans ∧ w₂.kept = w₁.kept := by
      obtain rfl := (Prod.mk.inj e').2
      exact ⟨rfl, rfl⟩
    have hfit : (w₂.withLoop xs).Fit r.slot :=
      fit.congr (hxs.1.trans hitems.1) (hxs.2.trans hitems.2)
    exact h ⟨hfit, ⟨0, .begins w₂.heap xs⟩, nofun, nofun⟩ keeps

/-! ### The truth -/

/-- A segment of a name that is bound to an object. -/
theorem evaluate_member_bound {i : Nat} {name segment : String} {u : Value}
    (hname : (w.contextIn r.slot).lookup? name = some (.object i))
    (hmember : w.heap.member? (.object i) segment = .ok (some u)) (strict : Bool)
    (place place' : Position) :
    (evaluate host r strict (.member place (.name place' name) segment)).exec w = (.ok u, w) := by
  have hbound : (evaluate host r strict (.name place' name)).exec w = (.ok (.object i), w) := by
    rw [evaluate, Run.exec_get_bind, hname]
    rfl
  have hfound : (memberOf (.object i) segment).exec w = (.ok (some u), w) := by
    rw [memberOf, if_neg (fun e => Value.noConfusion e), Run.exec_get_bind, hmember]
    rfl
  rw [evaluate, Run.exec_bind_ok hbound, Run.exec_bind_ok hfound]
  rfl

/-- The tag that keeps its handle leaves the heap alone. -/
theorem Errand.heap_keeping (name : String) (v : Value) (mine : List Nat) (w : World) :
    (((Errand.keeping name v).run mine).exec w).2.heap = w.heap := by
  have hkeep : ∀ (mine : List Nat) (w : World),
      (((Errand.keep (.own 0) (.finish (.ok .absent))).run mine).exec w).2.heap = w.heap := by
    intro mine w
    rw [run, Run.exec_modify_bind]
    exact w.heap_keep ((Grip.own 0).handle? mine w.kept)
  rcases e : (Grip.own 0).handle? mine w.kept with - | h
  · rw [keeping, exec_touch_none e]
    exact hkeep mine w
  · rw [keeping, exec_touch e]
    split
    · exact hkeep _ _
    · exact hkeep _ _
    · rfl

/-- In the body of the round `k` of `n`, at any moment up to which all others spare the round, and in
any scope that does not bind it anew, `loop` tells the truth. -/
theorem evaluate_loop_truthful (tame : host.Tame writes)
    (hclone : host.clone r.clone = r.clone.apply) (fit : w.Fit r.slot) {node : Node Value}
    {body : List (Node Value)} {list : Nat} {earlier before after : List Moment} {m : Moment}
    (comes : node.ComesToRound host r w body n k list earlier w₀)
    (keeps : ∀ q ∈ earlier, q.KeepsLoop host r (list + 1) list n)
    (course : nodesCourse host r body w₀ = before ++ m :: after)
    (spares : ∀ q ∈ before, q.Spares host writes r (w₀.contextIn r.slot).outer.length k n)
    (scope : ∀ d, (w₀.contextIn r.slot).outer.length < d →
      (m.world.contextIn r.slot).loopAt d = none)
    (strict : Bool) (place place' : Position) {fact : String × Value}
    (hfact : fact ∈ loopFacts k n) :
    (evaluate host r strict (.member place (.name place' "loop") fact.1)).exec m.world =
      (.ok fact.2, m.world) := by
  have hround := comes.inRound tame hclone fit keeps
  have hbody := ((upholds_inRound tame hclone).renderNodes [] 0 body w₀ hround).along
  rw [course] at hbody
  obtain ⟨a, d, o⟩ := hbody.holds spares
  obtain ⟨i, l, tells, -⟩ := o.tells
  exact evaluate_member_bound (Context.lookup?_loop tells.bound scope) (tells.runs.member? hfact)
    strict place place'

/-- A tag keeps its handle, so `loop` is a copy when it is asked in the same round. -/
theorem evaluate_loop_truthful_copied :
    let host := Host.plain.sends fun _ _ _ => .keeping "z" (.int 3)
    let r : Renderer := ⟨0, false, .deep, .empty, .ofList [("k", .tag ⟨"k", [], .context⟩)]⟩
    let index : Expr Value := .member ⟨1, 0⟩ (.name ⟨1, 0⟩ "loop") "index"
    let body : List (Node Value) := [.call ⟨1, 0⟩ "k" [] [] none, .output ⟨1, 0⟩ index]
    ∃ w₀ m before after,
      (Node.loop ⟨1, 0⟩ "x" (.name ⟨1, 0⟩ "xs") body []).ComesToRound host r .ofTwo body 2 0 1
        [] w₀ ∧
      nodesCourse host r body w₀ = before ++ m :: after ∧ m.doing = .asks false index ∧
      (w₀.contextIn 0).loopAt 1 = some (.object 2) ∧
      (m.world.contextIn 0).loopAt 1 = some (.object 4) ∧
      (evaluate host r false index).exec m.world = (.ok (.nat 1), m.world) := by
  intro host r index body
  let call : Node Value := .call ⟨1, 0⟩ "k" [] [] none
  let t : TagDefinition := ⟨"k", [], .context⟩
  let w₀ : World := ((World.ofTwo.withLoop [.int 1, .int 2]).withTurn 1 2 0).changeIn 0
    (·.push (roundFrame "x" (.int 1) 2))
  let v : World := w₀.atLine 1
  have hitems : (onHeap (Heap.itemsOf (.object 0))).exec World.ofTwo =
      (.ok [.int 1, .int 2], World.ofTwo) := rfl
  have hcomes : (Node.loop ⟨1, 0⟩ "x" (.name ⟨1, 0⟩ "xs") body []).ComesToRound host r .ofTwo body
      2 0 1 [] w₀ := .loop rfl hitems rfl (.now rfl)
  have hdepth : (w₀.contextIn 0).outer.length = 1 := by decide +kernel
  have hbound : (w₀.contextIn 0).loopAt 1 = some (.object 2) := by decide +kernel
  -- the call, and what comes after it
  obtain ⟨w', hcall, hdepth', hbound'⟩ : ∃ w', (renderNode host r call).exec v = (.ok "", w') ∧
      (w'.contextIn 0).outer.length = 1 ∧ (w'.contextIn 0).loopAt 1 = some (.object 4) := by
    have hcalled : ((renderNode host r call).exec v).1 = .ok "" := by decide +kernel
    exact ⟨_, Prod.ext hcalled rfl, by decide +kernel, by decide +kernel⟩
  have hcourse : ∀ w, (renderNode host r call).exec (w.atLine 1) = (.ok "", w') →
      nodesCourse host r body w = [⟨w.atLine 1, .calls (.tag t) [] (.ofList [])⟩] ++
        ⟨w'.atLine 1, .asks false index⟩ :: [⟨w'.atLine 1, .asks false (.name ⟨1, 0⟩ "loop")⟩] := by
    intro w e
    rw [nodesCourse, Node.place, notesAfter_ok e, nodeCourse_call, nodesCourse_singleton]
    rfl
  -- what the tag does spares the round, since the copy is whole
  have hheap : (t.left host 0 [] (.ofList []) v).heap = v.heap := Errand.heap_keeping ..
  let copied := ((t.context host 0 [] (.ofList []) v).copyWith (host.clone r.clone)
    recordSharing).exec ⟨(t.left host 0 [] (.ofList []) v).heap, [], [], []⟩
  have hloop : copied.2.memo.lookup 2 = some (.object 4) := by decide +kernel
  have hlist : copied.2.memo.lookup 1 = some (.object 5) := by decide +kernel
  have hspares : (⟨v, .calls (.tag t) [] (.ofList [])⟩ : Moment).Spares host
      (errandWrites fun _ _ _ => .keeping "z" (.int 3)) r 1 0 2 := by
    refine Moment.spares_calls hheap (by decide +kernel) fun z s i l copies tells => ?_
    obtain rfl : copied.2 = s := congrArg Prod.snd copies.2.2
    obtain rfl : 2 = i := Value.object.inj (Option.some.inj (hbound.symm.trans tells.bound))
    obtain rfl : 1 = l := congrArg LoopState.items
      (Option.some.inj (Object.loop.inj (Option.some.inj tells.runs.state)))
    exact ⟨Copying.not_unfinished hloop (by decide +kernel),
      Copying.not_unfinished hlist (by decide +kernel)⟩
  have hspared : ∀ q ∈ [(⟨v, .calls (.tag t) [] (.ofList [])⟩ : Moment)], q.Spares host
      (errandWrites fun _ _ _ => .keeping "z" (.int 3)) r (w₀.contextIn r.slot).outer.length 0 2 := by
    intro q hq
    obtain rfl := List.mem_singleton.mp hq
    rw [hdepth]
    exact hspares
  have hscope : ∀ d, (w₀.contextIn r.slot).outer.length < d →
      ((w'.atLine 1).contextIn r.slot).loopAt d = none := fun d hd =>
    Context.loopAt_of_gt (x := w'.contextIn 0) (by rwa [hdepth', ← hdepth])
  have hfit : World.ofTwo.Fit 0 :=
    ⟨World.sound_ofContext _, ⟨⟨0, false⟩, rfl⟩, fun _ hh => nomatch hh⟩
  have hfact : ("index", .nat 1) ∈ loopFacts 0 2 := .head _
  have htold := evaluate_loop_truthful (Host.plain.tame_sends _) rfl hfit hcomes nofun
    (hcourse w₀ hcall) hspared hscope false ⟨1, 0⟩ ⟨1, 0⟩ hfact
  exact ⟨w₀, _, _, _, hcomes, hcourse w₀ hcall, rfl, hbound, hbound', htold⟩

/-- A body that goes through `loop` moves it: in the first round, too, it is at the last item then. -/
example :
    let r : Renderer := ⟨0, false, .deep, .empty, .empty⟩
    let body : List (Node Value) := [.loop ⟨1, 0⟩ "y" (.name ⟨1, 0⟩ "loop") [] [],
      .output ⟨1, 0⟩ (.member ⟨1, 0⟩ (.name ⟨1, 0⟩ "loop") "index")]
    ((renderNode .plain r (.loop ⟨1, 0⟩ "x" (.name ⟨1, 0⟩ "xs") body [])).exec .ofTwo).1 =
      .ok "22" := by
  decide +kernel

end Stencil
