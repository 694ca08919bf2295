/-
Stencil/Proofs/Render/Telling.lean

A round of a loop, while its body is rendered.  The frame that was pushed for
the round has a number, counted from the base; it binds `loop` to a state that
is at the position of the round, over a list of as many items as there are
(`World.InRound`).  The state and its list need not be those that the render
moves and runs over: after a copy of the context both may be new objects.

Most of what a body does leaves this as it is.  A moment *spares* the round when
foreign code leaves the loop alone, when the loop itself is not gone through,
when `loop` is not bound anew in that frame, and when no copy that failed has
left the loop unfinished (`Moment.Spares`); nothing else is asked of a body
(`upholds_inRound`).  Filters spare it unless they go through the loop
(`Moment.spares_filters`).

Of the rounds before, less is enough.  A property of the heap that *lasts*,
whatever a render makes, moves and uses up, can be ended by foreign code only
(`upholds_retains`), and neither by filters (`Moment.preserves_filters`) nor by
the rules for cloning (`Heap.Lasting.clones`).  That a loop runs over its list is
one of these (`upholds_runsOver`).
-/
import Stencil.Proofs.Render.Aftermath
import Stencil.Proofs.Render.Course
import Stencil.Proofs.Render.Discipline
import Stencil.Proofs.Scope.Loop

namespace Stencil

variable {host : Host} {r : Renderer} {w w' : World} {slot depth k n i l list loop d : Nat}
  {a : List Nat} {h h' : Heap} {x y : Context Value} {writes : TagWrites}

/-! ### Sparing a round -/

/-- The frame `depth` binds `loop` to the state `i`, which is at `k` in its list `l` of `n` items. -/
structure Context.Tells (depth k n : Nat) (h : Heap) (x : Context Value) (i l : Nat) : Prop where
  bound : x.loopAt depth = some (.object i)
  runs : h.RunsAt i l k n

namespace Moment

/-- What foreign code that is run at a moment leaves on the heap. -/
def Foreign (host : Host) (r : Renderer) (m : Moment) (h : Heap) : Prop :=
  match m.doing with
  | .filters f vs => ∃ v, (host.filter f vs).exec m.world.heap = (.ok v, h)
  | .calls (.tag t) vs ns => h = (t.left host r.slot vs ns m.world).heap
  | _ => False

/-- What is written at a moment to the innermost frame of the slot. -/
def written (writes : TagWrites) (r : Renderer) (m : Moment) : List Write :=
  match m.doing with
  | .binds name v => [(name, v)]
  | .calls entry vs ns => callWrites writes r.slot vs ns m.world entry
  | _ => []

/-- Foreign code leaves a property of the heap. -/
def Preserves (host : Host) (r : Renderer) (P : Heap → Prop) (m : Moment) : Prop :=
  ∀ h, m.Foreign host r h → P m.world.heap → P h

/-- Foreign code leaves the loop a loop over its list of `n` items, wherever it is. -/
def KeepsLoop (host : Host) (r : Renderer) (loop list n : Nat) (m : Moment) : Prop :=
  ∀ h, m.Foreign host r h →
    ∀ p, m.world.heap.RunsAt loop list p n → ∃ q, h.RunsAt loop list q n

/-- A moment spares the round `k` over `n` items whose frame is `depth`. -/
structure Spares (host : Host) (writes : TagWrites) (r : Renderer) (depth k n : Nat) (m : Moment) :
    Prop where
  /-- Foreign code leaves the loop where it is. -/
  foreign : ∀ h, m.Foreign host r h → m.world.heap.objects.size ≤ h.objects.size ∧
    ∀ i l, (m.world.contextIn r.slot).Tells depth k n m.world.heap i l → h.RunsAt i l k n
  /-- The loop itself is not gone through, unless it is at its last item. -/
  goes : ∀ i l, m.doing = .goes (.object i) →
    (m.world.contextIn r.slot).Tells depth k n m.world.heap i l → k + 1 = n
  /-- `loop` is bound anew in other frames only. -/
  binds : "loop" ∈ (m.written writes r).map (·.1) → depth < (m.world.contextIn r.slot).outer.length
  /-- No copy that failed leaves the loop or its list unfinished. -/
  copies : ∀ t vs ns z s i l, m.doing = .calls (.tag t) vs ns →
    t.Copies host r vs ns m.world z s →
    (m.world.contextIn r.slot).Tells depth k n m.world.heap i l →
    ¬ Copying.Unfinished (t.left host r.slot vs ns m.world).heap s i ∧
      ¬ Copying.Unfinished (t.left host r.slot vs ns m.world).heap s l

/-- Filters spare a round, except those that go through its loop. -/
theorem spares_filters (hfilter : host.filter = Filter.apply) {f : Filter} {vs : List Value}
    (hf : ∀ i l, (w.contextIn r.slot).Tells depth k n w.heap i l → ¬ f.GoesThrough vs (.object i)) :
    (⟨w, .filters f vs⟩ : Moment).Spares host writes r depth k n where
  foreign := by
    rintro h ⟨v, e⟩
    have hdrift := (f.drift_apply vs w.heap).state
    have hruns := fun i l (t : (w.contextIn r.slot).Tells depth k n w.heap i l) =>
      t.runs.filter (hf i l t)
    rw [← hfilter, e] at hdrift hruns
    exact ⟨hdrift.size_le, hruns⟩
  goes _ _ e := by cases e
  binds hmem := by cases hmem
  copies _ _ _ _ _ _ _ e := by cases e

/-- A tag spares a round if it leaves the heap alone and does not bind `loop`, and no copy of the
loop is left unfinished. -/
theorem spares_calls {t : TagDefinition} {vs : List Value} {ns : Bindings String Value}
    (hheap : (t.left host r.slot vs ns w).heap = w.heap)
    (hbinds : "loop" ∉ (callWrites writes r.slot vs ns w (.tag t)).map (·.1))
    (hcopies : ∀ z s i l, t.Copies host r vs ns w z s →
      (w.contextIn r.slot).Tells depth k n w.heap i l →
      ¬ Copying.Unfinished w.heap s i ∧ ¬ Copying.Unfinished w.heap s l) :
    (⟨w, .calls (.tag t) vs ns⟩ : Moment).Spares host writes r depth k n where
  foreign := by
    rintro h rfl
    dsimp only
    rw [hheap]
    exact ⟨Nat.le_refl _, fun i l tells => tells.runs⟩
  goes _ _ e := by cases e
  binds hmem := absurd hmem hbinds
  copies u vs' ns' z s i l e copies tells := by
    cases e
    dsimp only
    rw [hheap]
    exact hcopies z s i l copies tells

end Moment

/-! ### What lasts -/

/-- A property of heaps lasts: that objects are made, loops moved and generators used up does not
matter to it, nor what becomes of objects that are not its `own`. -/
structure Heap.Lasting (own : List Nat) (P : Heap → Prop) : Prop where
  there : ∀ {h i}, P h → i ∈ own → i < h.objects.size
  drift : ∀ {h h'}, P h → h.Drift h' → P h'
  put : ∀ {h i}, P h → i ∉ own → ∀ o, P (h.put i o)

/-- What lasts is so, and no loop that is running is one of its own objects. -/
structure World.Retains (slot : Nat) (own : List Nat) (P : Heap → Prop) (a : List Nat) (w : World) :
    Prop where
  fit : w.Fit slot
  holds : P w.heap
  others : ∀ q ∈ a, q ∉ own

/-- A call leaves a world that is fit again, with as many frames in the slot. -/
theorem fit_render (tame : host.Tame writes) (f : w.Fit r.slot) {entry : TagEntry}
    {vs : List Value} {ns : Bindings String Value} {text : String}
    (e : (entry.render host r vs ns).exec w = (.ok text, w')) :
    w'.Fit r.slot ∧
      (w'.contextIn r.slot).outer.length = (w.contextIn r.slot).outer.length := by
  have t : Tends (host.clone r.clone) r.slot _ w ((entry.render host r vs ns).exec w).2 :=
    tends_renderTag tame f entry
  rw [e] at t
  have hnames := congrArg List.length t.evolves.outer.names
  rw [List.length_map, List.length_map, List.length_reverse, List.length_reverse] at hnames
  exact ⟨t.fit, hnames⟩

section Lasting

variable {own : List Nat} {P : Heap → Prop}

/-- A step that leaves the contexts alone. -/
theorem World.Retains.heap (o : w.Retains slot own P a) (hP : P h) :
    World.Retains slot own P a { w with heap := h } := ⟨o.fit.congr rfl rfl, hP, o.others⟩

/-- Filters leave what lasts. -/
theorem Moment.preserves_filters (lasting : Heap.Lasting own P) (hfilter : host.filter = Filter.apply)
    (f : Filter) (vs : List Value) : (⟨w, .filters f vs⟩ : Moment).Preserves host r P := by
  rintro h ⟨v, e⟩ hP
  have hdrift := (f.drift_apply vs w.heap).state
  rw [← hfilter, e] at hdrift
  exact lasting.drift hP hdrift

/-- The rules for cloning leave what lasts. -/
theorem Heap.Lasting.clones (lasting : Heap.Lasting own P) (rule : CloneRule) :
    Clone.Preserves P rule.apply :=
  fun v s hP => lasting.drift hP (Copying.drift_apply rule v s)

/-- Whatever a body does, what lasts is left, if every clone leaves it. -/
theorem upholds_retains (lasting : Heap.Lasting own P) (tame : host.Tame writes)
    (clones : (host.clone r.clone).Preserves P) :
    r.Upholds host (Moment.Preserves host r P) fun a _ w => w.Retains r.slot own P a where
  line o _ := ⟨o.fit.congr rfl rfl, o.holds, o.others⟩
  filters {a d w f vs v h} o preserves e := o.heap (preserves h ⟨v, e⟩ o.holds)
  goes {a d w v vs h} o _ e := by
    have hdrift := (Heap.keeps_itemsOf v w.heap).state
    rw [e] at hdrift
    exact o.heap (lasting.drift o.holds hdrift)
  binds o _ := ⟨o.fit.changeIn _, o.holds, o.others⟩
  calls {a d w entry vs ns text w'} o preserves e := by
    obtain ⟨t, rfl, leaves⟩ := TagEntry.leaves tame o.fit e
    have hleft := preserves _ rfl o.holds
    refine ⟨(fit_render tame o.fit e).1, ?_, o.others⟩
    cases leaves with
    | same heap => exact heap ▸ hleft
    | copy copies heap =>
      have hcopy := clones.copyWith (t.context host r.slot vs ns w)
        (s := ⟨(t.left host r.slot vs ns w).heap, [], [], []⟩) hleft
      rw [copies.2.2] at hcopy
      rwa [heap]
  begins {a d w} o vs := by
    refine ⟨o.fit.congr rfl rfl, lasting.drift o.holds (.trans (.add _ _) (.add _ _)), ?_⟩
    rintro q hq hown
    rcases List.mem_cons.mp hq with rfl | hq
    · exact Nat.not_succ_lt_self (lasting.there o.holds hown)
    · exact o.others q hq hown
  turns {a d w q} o hq _ _ := o.heap (lasting.put o.holds (o.others q hq) _)
  ends o := ⟨o.fit, o.holds, fun q hq => o.others q (List.mem_cons_of_mem _ hq)⟩
  push o _ := ⟨o.fit.changeIn _, o.holds, o.others⟩
  pop o _ := ⟨o.fit.changeIn _, o.holds, o.others⟩

end Lasting

/-! ### The rounds before -/

/-- The loop runs over its list of `n` items, which no other loop that is running is. -/
structure World.RunsOver (slot loop list n : Nat) (a : List Nat) (w : World) : Prop where
  fit : w.Fit slot
  runs : ∃ p, w.heap.RunsAt loop list p n
  loop : loop ∉ a
  list : list ∉ a

/-- A step that leaves the contexts alone. -/
theorem World.RunsOver.heap (o : w.RunsOver slot loop list n a) (runs : ∃ q, h.RunsAt loop list q n) :
    World.RunsOver slot loop list n a { w with heap := h } :=
  ⟨o.fit.congr rfl rfl, runs, o.loop, o.list⟩

/-- That a loop runs over its list lasts. -/
theorem Heap.lasting_runsAt (loop list n : Nat) :
    Heap.Lasting [loop, list] fun h => ∃ p, h.RunsAt loop list p n where
  there {h i} runs hi := by
    obtain ⟨p, runs⟩ := runs
    rcases List.mem_pair.mp hi with rfl | rfl
    · exact runs.state_lt
    · exact runs.list_lt
  drift runs d := by
    obtain ⟨p, runs⟩ := runs
    exact runs.drift d
  put {h i} runs hi o := by
    obtain ⟨p, runs⟩ := runs
    obtain ⟨hloop, hlist⟩ := not_or.mp (mt List.mem_pair.mpr hi)
    exact ⟨p, runs.put hloop hlist o⟩

/-- Whatever a filter does, the loop still runs over its list. -/
theorem Moment.keepsLoop_filters (hfilter : host.filter = Filter.apply) (f : Filter)
    (vs : List Value) : (⟨w, .filters f vs⟩ : Moment).KeepsLoop host r loop list n :=
  fun h hf p runs => preserves_filters (Heap.lasting_runsAt loop list n) hfilter f vs h hf ⟨p, runs⟩

theorem World.runsOver_iff : w.RunsOver slot loop list n a ↔
    w.Retains slot [loop, list] (fun h => ∃ p, h.RunsAt loop list p n) a := by
  constructor
  · rintro ⟨fit, runs, hloop, hlist⟩
    refine ⟨fit, runs, fun q hq hown => ?_⟩
    rcases List.mem_pair.mp hown with rfl | rfl
    · exact hloop hq
    · exact hlist hq
  · rintro ⟨fit, runs, others⟩
    exact ⟨fit, runs, fun h => others _ h (.head _), fun h => others _ h (.tail _ (.head _))⟩

/-- Whatever a body does, the loop still runs over its list. -/
theorem upholds_runsOver (tame : host.Tame writes) (hclone : host.clone r.clone = r.clone.apply) :
    r.Upholds host (Moment.KeepsLoop host r loop list n) fun a _ w =>
      w.RunsOver r.slot loop list n a := by
  have hsame : (fun (a : List Nat) (_ : Nat) (w : World) => w.RunsOver r.slot loop list n a) =
      fun a _ w => w.Retains r.slot [loop, list] (fun h => ∃ p, h.RunsAt loop list p n) a :=
    funext fun a => funext fun _ => funext fun w => propext World.runsOver_iff
  rw [hsame]
  have lasting := Heap.lasting_runsAt loop list n
  refine (upholds_retains lasting tame (hclone ▸ lasting.clones r.clone)).imp fun m keeps h hf => ?_
  rintro ⟨p, runs⟩
  exact keeps h hf p runs

/-! ### The round -/

/-- In a round the slot has `d` frames on top of that of the round, which tells where it is; and the
loops that are running are others. -/
structure World.InRound (slot depth k n : Nat) (a : List Nat) (d : Nat) (w : World) : Prop where
  fit : w.Fit slot
  outer : (w.contextIn slot).outer.length = depth + d
  old : ∀ q ∈ a, q < w.heap.objects.size
  tells : ∃ i l, (w.contextIn slot).Tells depth k n w.heap i l ∧ i ∉ a ∧ l ∉ a

namespace World.InRound

/-- A step that leaves the contexts alone. -/
theorem heap (o : w.InRound slot depth k n a d) (size : w.heap.objects.size ≤ h.objects.size)
    (runs : ∀ i l, (w.contextIn slot).Tells depth k n w.heap i l → i ∉ a → l ∉ a →
      h.RunsAt i l k n) : World.InRound slot depth k n a d { w with heap := h } := by
  obtain ⟨i, l, tells, hi, hl⟩ := o.tells
  exact ⟨o.fit.congr rfl rfl, o.outer, fun q hq => Nat.lt_of_lt_of_le (o.old q hq) size,
    i, l, ⟨tells.bound, runs i l tells hi hl⟩, hi, hl⟩

/-- A change of the context. -/
theorem change {d' : Nat} (o : w.InRound slot depth k n a d) (f : Context Value → Context Value)
    (houter : (f (w.contextIn slot)).outer.length = depth + d')
    (hbound : (f (w.contextIn slot)).loopAt depth = (w.contextIn slot).loopAt depth) :
    (w.changeIn slot f).InRound slot depth k n a d' := by
  obtain ⟨i, l, tells, hi, hl⟩ := o.tells
  have hin := o.fit.contextIn_changeIn f
  refine ⟨o.fit.changeIn f, hin ▸ houter, o.old, i, l, ⟨?_, tells.runs⟩, hi, hl⟩
  rw [hin, hbound]
  exact tells.bound

end World.InRound

/-- What sparing moments leave. -/
theorem upholds_inRound (tame : host.Tame writes) (hclone : host.clone r.clone = r.clone.apply) :
    r.Upholds host (Moment.Spares host writes r depth k n) fun a d w =>
      w.InRound r.slot depth k n a d where
  line o _ := ⟨o.fit.congr rfl rfl, o.outer, o.old, o.tells⟩
  filters {a d w f vs v h} o spares e := by
    obtain ⟨size, runs⟩ := spares.foreign h ⟨v, e⟩
    exact o.heap size fun i l t _ _ => runs i l t
  goes {a d w v vs h} o spares e := by
    have hgone : ∀ i l, (w.contextIn r.slot).Tells depth k n w.heap i l → h.RunsAt i l k n := by
      intro i l t
      have runs := t.runs.itemsOf (v := v) fun hv => spares.goes i l (congrArg Doing.goes hv) t
      rwa [e] at runs
    have hdrift := (Heap.keeps_itemsOf v w.heap).state
    rw [e] at hdrift
    exact o.heap hdrift.size_le fun i l t _ _ => hgone i l t
  binds {a d w name v} o spares := by
    have hle : depth ≤ (w.contextIn r.slot).outer.length := o.outer ▸ Nat.le_add_right ..
    refine o.change _ o.outer (Context.loopAt_set v hle ?_)
    rintro rfl
    exact spares.binds (List.mem_singleton_self _)
  calls {a d w entry vs ns text w'} o spares e := by
    obtain ⟨i, l, tells, hi, hl⟩ := o.tells
    obtain ⟨t, rfl, leaves⟩ := TagEntry.leaves tame o.fit e
    obtain ⟨size, hforeign⟩ := spares.foreign _ rfl
    have tells' : (t.context host r.slot vs ns w).Tells depth k n (t.left host r.slot vs ns w).heap
        i l := by
      have hle : depth ≤ (w.contextIn r.slot).outer.length := o.outer ▸ Nat.le_add_right ..
      refine ⟨?_, hforeign i l tells⟩
      rw [t.context_eq tame o.fit]
      exact (Context.loopAt_writeAll hle _ spares.binds).trans tells.bound
    obtain ⟨fit, houter⟩ := fit_render tame o.fit e
    cases leaves with
    | same heap context =>
      refine ⟨fit, houter.trans o.outer, ?_, i, l, ?_, hi, hl⟩
      · exact fun q hq => heap ▸ Nat.lt_of_lt_of_le (o.old q hq) size
      · rw [heap, context]
        exact tells'
    | @copy z s copies heap context =>
      obtain ⟨hi', hl'⟩ := spares.copies t vs ns z s i l rfl copies tells
      obtain ⟨size', matched⟩ := Copying.runsAt_of_copyWith tells'.runs
        (hclone ▸ r.clone.clonesLoop tells'.runs) copies.2.2 hi' hl'
      obtain ⟨u, hbound, hu⟩ := matched.loopAt tells'.bound
      obtain ⟨j, b, rfl, runs, hnew⟩ := hu rfl
      -- what is new is none of the loops that are running
      have hfresh : ∀ q, (t.left host r.slot vs ns w).heap.objects.size ≤ q → q ∉ a := fun q hq hmem =>
        Nat.lt_irrefl _ (Nat.lt_of_lt_of_le (o.old q hmem) (Nat.le_trans size hq))
      refine ⟨fit, houter.trans o.outer, fun q hq => ?_, j, b, ?_, ?_⟩
      · rw [heap]
        exact Nat.lt_of_lt_of_le (o.old q hq) (Nat.le_trans size size')
      · rw [heap, context]
        exact ⟨hbound, runs⟩
      · rcases hnew with ⟨rfl, rfl⟩ | ⟨hj, hb⟩
        · exact ⟨hi, hl⟩
        · exact ⟨hfresh j hj, hfresh b hb⟩
  begins {a d w} o vs := by
    obtain ⟨i, l, tells, hi, hl⟩ := o.tells
    have hsize : (w.withLoop vs).heap.objects.size = w.heap.objects.size + 2 := by
      rw [World.withLoop, Heap.size_add, Heap.size_add]
    refine ⟨o.fit.congr rfl rfl, o.outer, fun q hq => ?_, i, l,
      ⟨tells.bound, (tells.runs.add _).add _⟩, ?_, ?_⟩
    · rw [hsize]
      rcases List.mem_cons.mp hq with rfl | hq
      · exact Nat.lt_succ_self _
      · exact Nat.lt_add_right 2 (o.old q hq)
    · exact List.not_mem_cons_of_ne_of_not_mem
        (Nat.ne_of_lt (Nat.lt_succ_of_lt tells.runs.state_lt)) hi
    · exact List.not_mem_cons_of_ne_of_not_mem
        (Nat.ne_of_lt (Nat.lt_succ_of_lt tells.runs.list_lt)) hl
  turns {a d w q} o hq items position := by
    refine o.heap (Nat.le_of_eq (Heap.size_put ..).symm) fun i l t hi hl => t.runs.put ?_ ?_ _
    · rintro rfl
      exact hi hq
    · rintro rfl
      exact hl hq
  ends o := by
    obtain ⟨i, l, tells, hi, hl⟩ := o.tells
    exact ⟨o.fit, o.outer, fun q hq => o.old q (List.mem_cons_of_mem _ hq), i, l, tells,
      mt (List.mem_cons_of_mem _) hi, mt (List.mem_cons_of_mem _) hl⟩
  push {a d w} o frame := by
    have hle : depth ≤ (w.contextIn r.slot).outer.length := o.outer ▸ Nat.le_add_right ..
    refine o.change _ ?_ (Context.loopAt_push frame hle)
    exact congrArg (· + 1) o.outer
  pop {a d w frame rest} o e := by
    have hpush := Context.eq_push_of_pop e
    have houter : rest.outer.length = depth + d := by
      have h := o.outer
      rw [hpush] at h
      exact Nat.succ.inj h
    refine o.change _ houter ?_
    rw [hpush]
    exact (Context.loopAt_push frame (houter ▸ Nat.le_add_right ..)).symm

end Stencil
