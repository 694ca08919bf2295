/-
Stencil/Proofs/Render/LeftOut.lean

Two calls of tags that do the same, but for what they do to contexts through
handles that were kept before the call: there one may write what the other
leaves out (`Errand.LeftOut`).  While a tag has the context of the slot on loan,
it is in one new cell, so what is written through an older handle goes to
another context.  By induction on the pair of calls both end with the same
result, and the context on loan is the same (`Errand.LeftOut.together`).
-/
import Stencil.Proofs.Render.Steady

namespace Stencil

variable {k c : Nat} {w w' v v' : World} {l m : Loans Value}

/-! ### Writes that are left out -/

/-- Two calls of tags that do the same, but for what they do to contexts through handles that are
not those of the call.  Handles are told apart by whether they are on the cell that is lent for the
call: `mine` says so of those that the tag has, `kept` of the kept ones. -/
inductive Errand.LeftOut : List Bool → List Bool → Errand → Errand → Prop
  | finish {mine kept} (r : Except Failure Value) : LeftOut mine kept (.finish r) (.finish r)
  /-- Both reach for a handle that is not there. -/
  | missing {mine kept g t next next'} (none : g.handle? mine kept = none)
      (refused : LeftOut mine kept (next (.error (.of Conduct.noSuchHandle)))
        (next' (.error (.of Conduct.noSuchHandle)))) :
      LeftOut mine kept (.touch g t next) (.touch g t next')
  /-- Both do the same, with a handle of the call, or not to a context. -/
  | same {mine kept g t next next'} {side : Bool} (some : g.handle? mine kept = some side)
      (inner : side = true ∨ t.block? = none)
      (refused : ∀ e, LeftOut mine kept (next (.error e)) (next' (.error e)))
      (done : ∀ a, LeftOut (mine ++ List.replicate t.copies side) kept (next (.ok a))
        (next' (.ok a))) :
      LeftOut mine kept (.touch g t next) (.touch g t next')
  /-- What one does through a handle kept before, and does not heed, the other leaves out. -/
  | skipped {mine kept g t next e'} {b : Block} (other : g.handle? mine kept = some false)
      (block : t.block? = some b) (rest : ∀ r, LeftOut mine kept (next r) e') :
      LeftOut mine kept (.touch g t next) e'
  /-- Both do something through a handle kept before, and do not heed what they are told. -/
  | unheeded {mine kept g t t' next next'} {b b' : Block} (other : g.handle? mine kept = some false)
      (block : t.block? = some b) (block' : t'.block? = some b')
      (rest : ∀ r r', LeftOut mine kept (next r) (next' r')) :
      LeftOut mine kept (.touch g t next) (.touch g t' next')
  /-- Both do something through a handle kept before that ends in the same way; one may write what
  the other leaves out. -/
  | hushed {mine kept g t t' next next'} {b b' : Block} (other : g.handle? mine kept = some false)
      (block : t.block? = some b) (block' : t'.block? = some b')
      (ends : ∀ x y, (b'.play y).1 = (b.play x).1)
      (rest : ∀ r, LeftOut mine kept (next r) (next' r)) :
      LeftOut mine kept (.touch g t next) (.touch g t' next')
  | keep {mine kept g next next'}
      (rest : LeftOut mine (kept ++ (g.handle? mine kept).toList) next next') :
      LeftOut mine kept (.keep g next) (.keep g next')
  | look {mine kept next next'} (rest : ∀ w, LeftOut mine kept (next w) (next' w)) :
      LeftOut mine kept (.look next) (.look next')
  | work {mine kept act next next'} (rest : ∀ r, LeftOut mine kept (next r) (next' r)) :
      LeftOut mine kept (.work act next) (.work act next')

/-! ### One touch -/

/-- An access through a handle whose cell is not locked fails at once, or finds a context. -/
theorem Loans.opens_of_free {h : Nat} (free : (l.cellOf h).locked = false) :
    (∃ e, l.opens h = .error (.failed e)) ∨
      ∃ d, l.opens h = .ok d ∧ (l.cellOf h).context = some d := by
  rw [opens, free, if_neg Bool.false_ne_true]
  split
  · exact .inl ⟨_, rfl⟩
  · rcases (l.cellOf h).context with - | d
    · exact .inl ⟨_, rfl⟩
    · exact .inr ⟨d, rfl, rfl⟩

namespace Errand

section Blocks

variable {g : Grip} {t : Touch} {b : Block} {next : Except Failure Reply → Errand}
  {mine : List Nat} {h d : Nat} {e : Failure}

/-- What is done to a context is refused. -/
theorem exec_touch_refused (s : w.loans.Sound) (eg : g.handle? mine w.kept = some h)
    (hb : t.block? = some b) (ho : w.loans.opens h = .error (.failed e)) :
    ((touch g t next).run mine).exec w = ((next (.error e)).run mine).exec w := by
  rw [exec_touch eg, Touch.exec_act_block s hb, ho]

/-- What is done to a context. -/
theorem exec_touch_block (s : w.loans.Sound) (eg : g.handle? mine w.kept = some h)
    (hb : t.block? = some b) (ho : w.loans.opens h = .ok d) :
    ((touch g t next).run mine).exec w =
      ((next (b.play (w.loans.contextAt d)).1).run mine).exec { w with
        loans := w.loans.changeContext d (·.writeAll (b.play (w.loans.contextAt d)).2) } := by
  rw [exec_touch eg, Touch.exec_act_block s hb, ho]
  dsimp only
  rcases (b.play (w.loans.contextAt d)).1 with e | a
  · rfl
  · show ((next (.ok a)).run (mine ++ [])).exec _ = _
    rw [List.append_nil]

/-- Through a handle on another cell another context is changed, or none. -/
theorem exec_touch_other (s : w.loans.Sound) (eg : g.handle? mine w.kept = some h)
    (hb : t.block? = some b) (free : (w.loans.cellOf h).locked = false)
    (hne : (w.loans.cellOf h).context ≠ some c) :
    ∃ r x, x.size = w.loans.contexts.size ∧ x.get? c = w.loans.contexts.get? c ∧
      ((touch g t next).run mine).exec w = ((next r).run mine).exec (w.withContexts x) := by
  rcases Loans.opens_of_free free with ⟨e, ho⟩ | ⟨d, ho, hd⟩
  · exact ⟨_, w.loans.contexts, rfl, rfl, exec_touch_refused s eg hb ho⟩
  · have hdc : d ≠ c := fun e => hne (e ▸ hd)
    exact ⟨_, _, Table.size_modify .., Table.get?_modify_of_ne _ _ hdc,
      exec_touch_block s eg hb ho⟩

end Blocks

end Errand

/-- What is done to handles, or through a handle on the cell of the loan, is the same in loans that
have the same context `c`. -/
theorem Touch.exec_act_alike {t : Touch} {h : Nat} {x : Table (Context Value)} (s : l.Sound)
    (size : x.size = l.contexts.size) (same : x.get? c = l.contexts.get? c)
    (ht : t.block? = none ∨ ∀ d, (l.cellOf h).context = some d → d = c) :
    ∃ y, y.size = ((t.act h).exec l).2.contexts.size ∧
      y.get? c = ((t.act h).exec l).2.contexts.get? c ∧
      (t.act h).exec (l.withContexts x) =
        (((t.act h).exec l).1, ((t.act h).exec l).2.withContexts y) := by
  rcases hb : t.block? with - | b
  · obtain ⟨hcontexts, e⟩ := Touch.exec_act_withContexts hb h l x
    exact ⟨x, hcontexts ▸ size, hcontexts ▸ same, e⟩
  · have hd := ht.resolve_left (by rw [hb]; nofun)
    have e := Touch.exec_act_block s hb h
    have e' := Touch.exec_act_block (s.withContexts size) hb h
    have hopens : (l.withContexts x).opens h = l.opens h := rfl
    rw [hopens] at e'
    rcases ho : l.opens h with f | d <;> rw [ho] at e e' <;> rw [e, e']
    · exact ⟨x, size, same, rfl⟩
    · obtain rfl := hd d (Loans.opens_eq_ok_iff.mp ho).2.2
      have hcontext : (l.withContexts x).contextAt d = l.contextAt d :=
        congrArg (·.getD .empty) same
      refine ⟨x.modify d (·.writeAll (b.play (l.contextAt d)).2), ?_, ?_, ?_⟩
      · rw [Table.size_modify, size]
        exact (Table.size_modify ..).symm
      · show _ = (l.contexts.modify d _).get? d
        rw [Table.get?_modify, Table.get?_modify, same]
      · dsimp only
        rw [hcontext]
        rfl

/-! ### Calls side by side -/

/-- How two calls end that began in the worlds `w` and one alike, while the context `c` was on loan
in the cell `k`. -/
structure Together (k c : Nat) (w : World) (x x' : Except Stop Value × World) : Prop where
  result : x'.1 = x.1
  alike : Alike c x.2 x'.2
  sound : x.2.loans.Sound
  reach : InReach k c x.2.kept x.2.loans
  steady : Steady w.loans x.2.loans

namespace Together

variable {x x' : Except Stop Value × World}

/-- The first step of one of them is a step in other contexts only, or none. -/
theorem after (h : Together k c w' x x') (s : Steady w.loans w'.loans) : Together k c w x x' :=
  { h with steady := s.trans h.steady }

end Together

/-- The handles in reach are on the same cells after steady steps. -/
theorem Steady.map_onCell {hs : List Nat} (s : Steady l m) (h : ∀ i ∈ hs, i < l.handles.size) :
    hs.map (m.onCell k) = hs.map (l.onCell k) := by
  refine List.map_congr_left fun i hi => ?_
  rw [Loans.onCell, Loans.onCell, s.cell i (h i hi)]

/-- Two worlds, alike but for what is not on loan, in which two calls go on.  The tag has the handles
`mine`. -/
structure Paired (k c : Nat) (ms ks : List Bool) (mine : List Nat) (w v : World) : Prop where
  alike : Alike c w v
  sound : w.loans.Sound
  reach : InReach k c (mine ++ w.kept) w.loans
  mine_sides : mine.map (w.loans.onCell k) = ms
  kept_sides : w.kept.map (w.loans.onCell k) = ks

namespace Paired

variable {ms ks : List Bool} {mine : List Nat} {g : Grip}

/-- The handle at hand, if there is one, is the same in both worlds. -/
theorem handle?_sides (p : Paired k c ms ks mine w v) (g : Grip) :
    g.handle? ms ks = (g.handle? mine w.kept).map (w.loans.onCell k) := by
  rw [← p.mine_sides, ← p.kept_sides, Grip.handle?_map]

/-- A handle on another cell. -/
theorem other (p : Paired k c ms ks mine w v) (h : g.handle? ms ks = some false) :
    ∃ i, g.handle? mine w.kept = some i ∧ (w.loans.cellOf i).locked = false ∧
      (w.loans.cellOf i).context ≠ some c := by
  rw [p.handle?_sides] at h
  obtain ⟨i, eg, hside⟩ := Option.map_eq_some_iff.mp h
  exact ⟨i, eg, p.reach.others i (Grip.mem_of_handle? eg) (of_decide_eq_false hside)⟩

/-- The next step is steady. -/
theorem step (p : Paired k c ms ks mine w v) (a : Alike c w' v') (sound : w'.loans.Sound)
    (s : Steady w.loans w'.loans) (hk : w'.kept = w.kept) : Paired k c ms ks mine w' v' := by
  have hreach := p.reach
  refine ⟨a, sound, ?_, ?_, ?_⟩
  · rw [hk]
    exact hreach.steady s
  · rw [s.map_onCell fun i hi => hreach.there i (List.mem_append_left _ hi)]
    exact p.mine_sides
  · rw [hk, s.map_onCell fun i hi => hreach.there i (List.mem_append_right _ hi)]
    exact p.kept_sides

/-- The tag has got further handles, on the cell of one that it can reach. -/
theorem joined {i : Nat} {made : List Nat} {side : Bool} {copies : Nat}
    (p : Paired k c ms ks mine w v) (hi : i ∈ mine ++ w.kept) (hside : w.loans.onCell k i = side)
    (hlength : made.length = copies) (hmade : ∀ j ∈ made, j < w.loans.handles.size ∧
      (w.loans.handleAt j).cell = (w.loans.handleAt i).cell) :
    Paired k c (ms ++ List.replicate copies side) ks (mine ++ made) w v := by
  refine ⟨p.alike, p.sound, p.reach.made hi hmade, ?_, p.kept_sides⟩
  have hsides : made.map (w.loans.onCell k) = List.replicate copies side := by
    rw [← hlength, List.map_eq_replicate_iff]
    intro j hj
    rw [Loans.onCell, (hmade j hj).2]
    exact hside
  rw [List.map_append, p.mine_sides, hsides]

/-- A handle is kept. -/
theorem keep {o : Option Nat} (p : Paired k c ms ks mine w v) (ho : ∀ i ∈ o, i ∈ mine ++ w.kept) :
    Paired k c ms (ks ++ (o.map (w.loans.onCell k)).toList) mine (w.keep o) (v.keep o) := by
  obtain ⟨x, size, same⟩ := p.alike
  rcases o with - | h
  · rw [Option.map_none, Option.toList_none, List.append_nil]
    exact p
  · have hs : Steady w.loans (w.keep (some h)).loans := .changeHandle _ h fun _ => rfl
    have hreach := p.reach.steady hs
    refine ⟨.contexts x size same, p.sound.changeHandle h fun _ => rfl, hreach.mono fun j hj => ?_,
      ?_, ?_⟩
    · rcases List.mem_append.mp hj with hj | hj
      · exact List.mem_append_left _ hj
      · rcases List.mem_append.mp hj with hj | hj
        · exact List.mem_append_right _ hj
        · obtain rfl := List.mem_singleton.mp hj
          exact ho j rfl
    · rw [hs.map_onCell fun i hi => p.reach.there i (List.mem_append_left _ hi)]
      exact p.mine_sides
    · show (w.kept ++ [h]).map ((w.keep (some h)).loans.onCell k) = _
      rw [hs.map_onCell fun i hi => ?_, List.map_append, p.kept_sides]
      · rfl
      · rcases List.mem_append.mp hi with hi | hi
        · exact p.reach.there i (List.mem_append_right _ hi)
        · obtain rfl := List.mem_singleton.mp hi
          exact p.reach.there i (ho i rfl)

/-- The call that ends here. -/
theorem ended (p : Paired k c ms ks mine w v) (r : Except Stop Value) :
    Together k c w (r, w) (r, v) :=
  ⟨rfl, p.alike, p.sound, p.reach.mono fun _ hx => List.mem_append_right _ hx, .refl _⟩

end Paired

namespace Errand

/-- Induction on the pair of calls.  The context on loan is the same in both worlds all the time,
because nothing is written to it but through handles on its cell. -/
theorem LeftOut.together {ms ks : List Bool} {e e' : Errand} (h : LeftOut ms ks e e') :
    ∀ {mine : List Nat} {w v : World}, Paired k c ms ks mine w v →
      Together k c w ((e.run mine).exec w) ((e'.run mine).exec v) := by
  induction h with
  | finish r =>
    intro mine w v p
    exact p.ended _
  | @missing ms ks g t next next' none _ ih =>
    intro mine w v p
    rw [p.handle?_sides] at none
    have eg := Option.map_eq_none_iff.mp none
    obtain ⟨x, -, -⟩ := p.alike
    rw [exec_touch_none eg, exec_touch_none (w := w.withContexts x) eg]
    exact ih p
  | @same ms ks g t next next' side some inner _ _ ihr ihd =>
    intro mine w v p
    rw [p.handle?_sides] at some
    obtain ⟨h, eg, hside⟩ := Option.map_eq_some_iff.mp some
    have hmem := Grip.mem_of_handle? eg
    have hinner : t.block? = none ∨ ∀ d, (w.loans.cellOf h).context = Option.some d → d = c := by
      refine inner.symm.imp_right fun hs d hd => p.reach.only d ?_
      have hcell : (w.loans.handleAt h).cell = k := of_decide_eq_true (hside.trans hs)
      rw [← hcell]
      exact hd
    obtain ⟨x, size, same⟩ := p.alike
    obtain ⟨y, hsize, hsame, e⟩ := Touch.exec_act_alike p.sound size same hinner
    have heffect := t.effect p.sound h
    have hsteady := Steady.effect heffect
    have hnext : Paired k c ms ks mine { w with loans := ((t.act h).exec w.loans).2 }
        ({ w with loans := ((t.act h).exec w.loans).2 }.withContexts y) :=
      p.step (.contexts y hsize hsame) (heffect.sound p.sound) hsteady rfl
    have e' : (t.act h).exec (w.withContexts x).loans = _ := e
    rw [exec_touch eg, exec_touch (w := w.withContexts x) eg, e']
    rcases et : (t.act h).exec w.loans with ⟨(f | -) | ⟨a, made⟩, l'⟩ <;> rw [et] at hsteady hnext
    · exact (ihr f hnext).after hsteady
    · exact (hnext.ended _).after hsteady
    · obtain ⟨hlength, hmade⟩ := Touch.made et
      have hcell : (l'.handleAt h).cell = (w.loans.handleAt h).cell :=
        hsteady.cell h (p.reach.there h hmem)
      refine (ihd a (hnext.joined hmem ?_ hlength fun j hj => ?_)).after hsteady
      · rw [Loans.onCell, hcell]
        exact hside
      · exact ⟨(hmade j hj).2.1, (hmade j hj).2.2.trans hcell.symm⟩
  | @skipped ms ks g t next e' b other block _ ih =>
    intro mine w v p
    obtain ⟨h, eg, free, hne⟩ := p.other other
    obtain ⟨x, size, same⟩ := p.alike
    obtain ⟨r, y, ysize, ysame, e⟩ := exec_touch_other p.sound eg block free hne
    have hsteady : Steady w.loans (w.withContexts y).loans := .of_tables rfl rfl
    have hnext : Paired k c ms ks mine (w.withContexts y) (w.withContexts x) :=
      p.step (.contexts x (size.trans ysize.symm) (same.trans ysame.symm))
        (p.sound.withContexts ysize) hsteady rfl
    rw [e]
    exact (ih r hnext).after hsteady
  | @unheeded ms ks g t t' next next' b b' other block block' _ ih =>
    intro mine w v p
    obtain ⟨h, eg, free, hne⟩ := p.other other
    obtain ⟨x, size, same⟩ := p.alike
    obtain ⟨r, y, ysize, ysame, e⟩ := exec_touch_other p.sound eg block free hne
    obtain ⟨r', y', ysize', ysame', e'⟩ :=
      exec_touch_other (w := w.withContexts x) (p.sound.withContexts size) eg block' free hne
    have hsteady : Steady w.loans (w.withContexts y).loans := .of_tables rfl rfl
    have hnext : Paired k c ms ks mine (w.withContexts y) (w.withContexts y') :=
      p.step (.contexts y' ((ysize'.trans size).trans ysize.symm)
        ((ysame'.trans same).trans ysame.symm)) (p.sound.withContexts ysize) hsteady rfl
    rw [e, e']
    exact (ih r r' hnext).after hsteady
  | @hushed ms ks g t t' next next' b b' other block block' ends _ ih =>
    intro mine w v p
    obtain ⟨h, eg, free, hne⟩ := p.other other
    obtain ⟨x, size, same⟩ := p.alike
    have hsound : (w.withContexts x).loans.Sound := p.sound.withContexts size
    -- whether the access is refused depends on what is the same in both worlds
    rcases Loans.opens_of_free free with ⟨f, ho⟩ | ⟨d, ho, hd⟩
    · rw [exec_touch_refused p.sound eg block ho,
        exec_touch_refused (w := w.withContexts x) hsound eg block' ho]
      exact ih _ p
    · have hdc : d ≠ c := fun e => hne (e ▸ hd)
      have hnext : ∀ f f', Paired k c ms ks mine { w with loans := w.loans.changeContext d f }
          { w with loans := (w.loans.withContexts x).changeContext d f' } := by
        intro f f'
        refine p.step (.contexts (x.modify d f') ?_ ?_) (p.sound.changeContext d f)
          (.of_tables rfl rfl) rfl
        · rw [Table.size_modify, size]
          exact (Table.size_modify ..).symm
        · exact (Table.get?_modify_of_ne _ _ hdc).trans
            (same.trans (Table.get?_modify_of_ne _ _ hdc).symm)
      rw [exec_touch_block p.sound eg block ho,
        exec_touch_block (w := w.withContexts x) hsound eg block' ho, ends]
      exact (ih _ (hnext _ _)).after (.of_tables rfl rfl)
  | @keep ms ks g next next' _ ih =>
    intro mine w v p
    have hkeep : Steady w.loans (w.keep (g.handle? mine w.kept)).loans := by
      rcases g.handle? mine w.kept with - | h
      · exact .refl _
      · exact .changeHandle _ h fun _ => rfl
    have hnext := p.keep (o := g.handle? mine w.kept) fun i hi => Grip.mem_of_handle? hi
    rw [← p.handle?_sides] at hnext
    obtain ⟨x, -, -⟩ := p.alike
    rw [run, run, Run.exec_modify_bind, Run.exec_modify_bind]
    exact (ih hnext).after hkeep
  | look _ ih =>
    intro mine w v p
    obtain ⟨x, -, -⟩ := p.alike
    rw [run, run, Run.exec_get_bind, Run.exec_get_bind]
    exact ih w.bare p
  | @work ms ks act next next' _ ih =>
    intro mine w v p
    obtain ⟨x, size, same⟩ := p.alike
    have hnext : ∀ u : World, Paired k c ms ks mine { u with loans := w.loans, kept := w.kept }
        { u with loans := w.loans.withContexts x, kept := w.kept } :=
      fun u => p.step (.contexts x size same) p.sound (.refl _) rfl
    have hbare : (w.withContexts x).bare = w.bare := rfl
    rw [exec_work, exec_work, hbare]
    rcases act.exec w.bare with ⟨(f | -) | b, u⟩
    · exact (ih _ (hnext u)).after (.refl _)
    · exact ((hnext u).ended _).after (.refl _)
    · exact (ih _ (hnext u)).after (.refl _)

end Errand

end Stencil
