/-
Stencil/Proofs/Render/Echo.lean

Two renders of which one makes copies that the other does not make.  What a
render can see of its world is the heap, the context in its slot, and its place
in the template; one world *mirrors* another if all of that is the same up to
the numbers of objects (`World.Mirrors`), and if as many contexts were handed
over and came back, in whatever way.

A run *echoes* another if, from worlds that are mirrors, both end alike and leave
worlds that are mirrors again (`Echoes`).  Partners stay partners, so what was
seen alike before is seen alike after.  Of the second run, which makes no copies,
it is also said what becomes of the context in the slot: a relation `K` that is
chosen by need.  There is a rule for each way of putting runs together; from
those it follows that expressions echo, as long as no filter goes through the
state of a loop, which it would move (`Expr.calm`).
-/
import Stencil.Proofs.Render.Fit
import Stencil.Proofs.Render.Recipe

namespace Stencil

variable {α β γ δ : Type} {ρ : Nat → Nat} {g g' g₀ : Pairing} {slot : Nat} {w w' v v' : World}

/-! ### Worlds -/

/-- What is counted, but for the ways back. -/
def Tally.counts (t : Tally) : Nat × Nat := (t.handoffs, t.reclaimed)

theorem Tally.counts_start (t : Tally) : t.start.counts = (t.counts.1 + 1, t.counts.2) := rfl

theorem Tally.counts_record (t : Tally) (path : ReclaimPath) :
    (t.record path).counts = (t.counts.1, t.counts.2 + 1) := by
  cases path with
  | unique => exact congrArg (Prod.mk _) (Nat.add_right_comm ..)
  | deepCopy => rfl

/-- The counts by their number. -/
def World.counts (w : World) (i : Nat) : Option (Nat × Nat) := (w.tallies.get? i).map Tally.counts

/-- The world `w` mirrors the world `v`, as far as a render in the slot sees them. -/
structure World.Mirrors (ρ : Nat → Nat) (g : Pairing) (slot : Nat) (w v : World) : Prop where
  fit : w.Fit slot
  fit' : v.Fit slot
  heap : w.heap.Mirrors ρ g v.heap
  context : (w.contextIn slot).Mirrors g (v.contextIn slot)
  renderings : w.renderings = v.renderings
  counts : w.counts = v.counts

namespace World.Mirrors

theorem rendering? (m : w.Mirrors ρ g slot v) : w.rendering? = v.rendering? :=
  congrArg List.head? m.renderings

/-- Values were made or changed. -/
theorem withHeap (m : w.Mirrors ρ g slot v) (hg : g.Extends g') {h h' : Heap}
    (hm : h.Mirrors ρ g' h') :
    World.Mirrors ρ g' slot { w with heap := h } { v with heap := h' } where
  fit := m.fit.congr rfl rfl
  fit' := m.fit'.congr rfl rfl
  heap := hm
  context := m.context.mono hg
  renderings := m.renderings
  counts := m.counts

/-- The contexts in the slot were changed. -/
theorem changeIn (m : w.Mirrors ρ g slot v) {f f' : Context Value → Context Value}
    (h : (f (w.contextIn slot)).Mirrors g (f' (v.contextIn slot))) :
    (w.changeIn slot f).Mirrors ρ g slot (v.changeIn slot f') where
  fit := m.fit.changeIn f
  fit' := m.fit'.changeIn f'
  heap := m.heap
  context := by
    rw [m.fit.contextIn_changeIn, m.fit'.contextIn_changeIn]
    exact h
  renderings := m.renderings
  counts := m.counts

theorem changeRendering (m : w.Mirrors ρ g slot v) (f : Rendering → Rendering) :
    (w.changeRendering f).Mirrors ρ g slot (v.changeRendering f) where
  fit := m.fit.congr rfl rfl
  fit' := m.fit'.congr rfl rfl
  heap := m.heap
  context := m.context
  renderings := congrArg (List.modifyHead f) m.renderings
  counts := m.counts

end World.Mirrors

/-! ### Runs -/

/-- From worlds that are mirrors two runs end alike, and leave worlds that are mirrors again.  `P`
says of results how they are alike; `K` holds of the context in the slot before and after the second
run. -/
def Echoes (ρ : Nat → Nat) (g : Pairing) (slot : Nat)
    (K : Context Value → Context Value → Prop) (P : Pairing → α → β → Prop) (w v : World)
    (act : Run World α) (act' : Run World β) : Prop :=
  ∃ g', g.Extends g' ∧ (act.exec w).2.Mirrors ρ g' slot (act'.exec v).2 ∧
    Likewise (P g') (act.exec w).1 (act'.exec v).1 ∧
    K (v.contextIn slot) ((act'.exec v).2.contextIn slot)

/-- One and the same result. -/
abbrev SameResult : Pairing → α → α → Prop := fun _ a b => a = b

namespace Echoes

variable {K K' : Context Value → Context Value → Prop} {P : Pairing → α → β → Prop}
  {Q : Pairing → γ → δ → Prop} {act : Run World α} {act' : Run World β}

theorem of_exec {x : Except Stop α} {y : Except Stop β} (hg : g.Extends g')
    (e : act.exec w = (x, w')) (e' : act'.exec v = (y, v')) (m : w'.Mirrors ρ g' slot v')
    (hxy : Likewise (P g') x y) (hK : K (v.contextIn slot) (v'.contextIn slot)) :
    Echoes ρ g slot K P w v act act' := by
  refine ⟨g', hg, ?_, ?_, ?_⟩
  · rw [e, e']
    exact m
  · rw [e, e']
    exact hxy
  · rw [e']
    exact hK

theorem imp (h : Echoes ρ g slot K P w v act act') (hK : ∀ x y, K x y → K' x y) :
    Echoes ρ g slot K' P w v act act' := by
  obtain ⟨g', hg, m, hr, hk⟩ := h
  exact ⟨g', hg, m, hr, hK _ _ hk⟩

section Looking

variable [Std.Refl K] (m : w.Mirrors ρ g slot v)
include m

/-- Runs that change nothing. -/
theorem of_same {x : Except Stop α} {y : Except Stop β} (e : act.exec w = (x, w))
    (e' : act'.exec v = (y, v)) (hxy : Likewise (P g) x y) : Echoes ρ g slot K P w v act act' :=
  of_exec (.refl g) e e' m hxy (refl_of K _)

theorem pure {a : α} {b : β} (hab : P g a b) : Echoes ρ g slot K P w v (pure a) (pure b) :=
  of_same m rfl rfl (.ok hab)

theorem fail (f : Fault) : Echoes ρ g slot K P w v (Run.fail f) (Run.fail f) :=
  of_same m rfl rfl (.error _)

theorem failWith (f : Failure) : Echoes ρ g slot K P w v (Run.failWith f) (Run.failWith f) :=
  of_same m rfl rfl (.error _)

theorem unfinished : Echoes ρ g slot K P w v Run.unfinished Run.unfinished :=
  of_same m rfl rfl (.error _)

theorem ofExcept {x : Except Fault α} {y : Except Fault β} (hxy : Likewise (P g) x y) :
    Echoes ρ g slot K P w v (Run.ofExcept x) (Run.ofExcept y) := by
  cases hxy with
  | ok hab => exact pure m hab
  | error f => exact fail m f

/-- What is the same in both heaps, or the same fault. -/
theorem ofExcept_same (x : Except Fault γ) :
    Echoes ρ g slot K SameResult w v (Run.ofExcept x) (Run.ofExcept x) := by
  refine ofExcept m ?_
  rcases x with f | a
  · exact .error f
  · exact .ok rfl

/-- Runs on the heap alone. -/
theorem of_reflects {act : Run Heap α} {act' : Run Heap β}
    (h : Reflects ρ g P w.heap v.heap act act') :
    Echoes ρ g slot K P w v (onHeap act) (onHeap act') := by
  obtain ⟨g', hg, hm, hr⟩ := h
  exact ⟨g', hg, m.withHeap hg hm, hr, refl_of K _⟩

end Looking

theorem get_bind {f : World → Run World α} {f' : World → Run World β}
    (h : Echoes ρ g slot K P w v (f w) (f' v)) :
    Echoes ρ g slot K P w v (get >>= f) (get >>= f') := h

/-- A step, and what follows it. -/
theorem modify_bind {s s' : World → World} {f : PUnit → Run World α} {f' : PUnit → Run World β}
    (hs : (s' v).contextIn slot = v.contextIn slot)
    (h : Echoes ρ g slot K P (s w) (s' v) (f ⟨⟩) (f' ⟨⟩)) :
    Echoes ρ g slot K P w v (modify s >>= f) (modify s' >>= f') := by
  obtain ⟨g', hg, m, hr, hk⟩ := h
  exact ⟨g', hg, m, hr, hs ▸ hk⟩

theorem set_bind {t t' : World} {f : PUnit → Run World α} {f' : PUnit → Run World β}
    (ht : t'.contextIn slot = v.contextIn slot) (h : Echoes ρ g slot K P t t' (f ⟨⟩) (f' ⟨⟩)) :
    Echoes ρ g slot K P w v (set t >>= f) (set t' >>= f') := by
  obtain ⟨g', hg, m, hr, hk⟩ := h
  exact ⟨g', hg, m, hr, ht ▸ hk⟩

/-- A last step that leaves what is on loan alone. -/
theorem ensuring_modify (h : Echoes ρ g slot K P w v act act') {s : World → World}
    (hs : ∀ {g : Pairing} {w v : World}, w.Mirrors ρ g slot v → (s w).Mirrors ρ g slot (s v))
    (hc : ∀ v, (s v).contextIn slot = v.contextIn slot) :
    Echoes ρ g slot K P w v (Run.ensuring act (modify s)) (Run.ensuring act' (modify s)) := by
  obtain ⟨g', hg, m, hr, hk⟩ := h
  exact ⟨g', hg, hs m, hr, (hc _).symm ▸ hk⟩

/-- A handler that is left with worlds that are mirrors. -/
theorem catching [IsTrans (Context Value) K] {handler : Failure → Run World α}
    {handler' : Failure → Run World β} (h : Echoes ρ g slot K P w v act act')
    (hh : ∀ f g₁ w₁ v₁, w₁.Mirrors ρ g₁ slot v₁ →
      Echoes ρ g₁ slot K P w₁ v₁ (handler f) (handler' f)) :
    Echoes ρ g slot K P w v (Run.catching act handler) (Run.catching act' handler') := by
  obtain ⟨g₁, hg, m, hr, hk⟩ := h
  rcases e : act.exec w with ⟨x, w₁⟩
  rcases e' : act'.exec v with ⟨y, v₁⟩
  rw [e, e'] at m hr
  rw [e'] at hk
  rw [Echoes, Run.exec_catching, Run.exec_catching, e, e']
  cases hr with
  | ok hab => exact ⟨g₁, hg, m, .ok hab, hk⟩
  | error f =>
    rcases f with f | -
    · dsimp only
      split
      · obtain ⟨g₂, hg₂, m', hr', hk'⟩ := hh f g₁ w₁ v₁ m
        exact ⟨g₂, hg.trans hg₂, m', hr', trans_of K hk hk'⟩
      · exact ⟨g₁, hg, m, .error _, hk⟩
    · exact ⟨g₁, hg, m, .error _, hk⟩

/-- It is enough to remember the partners that there were before. -/
theorem weaken (hg : g₀.Extends g) (h : Echoes ρ g slot K P w v act act') :
    Echoes ρ g₀ slot K P w v act act' := by
  obtain ⟨g', hg', hrest⟩ := h
  exact ⟨g', hg.trans hg', hrest⟩

variable [IsTrans (Context Value) K]

/-- A sequence.  The second part may forget partners, but not those that there were at the
beginning. -/
theorem bind_from {f : α → Run World γ} {f' : β → Run World δ} (hg₀ : g₀.Extends g)
    (h : Echoes ρ g slot K P w v act act')
    (hf : ∀ g₁ w₁ v₁ a b, g.Extends g₁ → w₁.Mirrors ρ g₁ slot v₁ → P g₁ a b →
      act'.exec v = (.ok b, v₁) → K (v.contextIn slot) (v₁.contextIn slot) →
      Echoes ρ g₀ slot K Q w₁ v₁ (f a) (f' b)) :
    Echoes ρ g₀ slot K Q w v (act >>= f) (act' >>= f') := by
  obtain ⟨g₁, hg, m, hr, hk⟩ := h
  rcases e : act.exec w with ⟨x, w₁⟩
  rcases e' : act'.exec v with ⟨y, v₁⟩
  rw [e, e'] at m hr
  rw [e'] at hk
  cases hr with
  | error f =>
    exact of_exec (hg₀.trans hg) (Run.exec_bind_error e) (Run.exec_bind_error e') m (.error f) hk
  | ok hab =>
    obtain ⟨g₂, hg₂, m', hr', hk'⟩ := hf g₁ w₁ v₁ _ _ hg m hab e' hk
    rw [Echoes, Run.exec_bind_ok e, Run.exec_bind_ok e']
    exact ⟨g₂, hg₂, m', hr', trans_of K hk hk'⟩

theorem bind {f : α → Run World γ} {f' : β → Run World δ}
    (h : Echoes ρ g slot K P w v act act')
    (hf : ∀ g₁ w₁ v₁ a b, g.Extends g₁ → w₁.Mirrors ρ g₁ slot v₁ → P g₁ a b →
      act'.exec v = (.ok b, v₁) → Echoes ρ g₁ slot K Q w₁ v₁ (f a) (f' b)) :
    Echoes ρ g slot K Q w v (act >>= f) (act' >>= f') := by
  exact h.bind_from (.refl g) fun g₁ w₁ v₁ a b hg m hab e _ =>
    (hf g₁ w₁ v₁ a b hg m hab e).weaken hg

end Echoes

/-! ### Trees with atoms for constants -/

/-- The expression of a source: its constants are values. -/
def Expr.values (e : Expr Atom) : Expr Value := Id.run (e.mapM fun a => pure (.atom a))

def Expr.allValues (es : List (Expr Atom)) : List (Expr Value) :=
  Id.run (Expr.mapAllM (fun a => pure (.atom a)) es)

def Expr.namedValues (es : List (String × Expr Atom)) : List (String × Expr Value) :=
  Id.run (Expr.mapNamedM (fun a => pure (.atom a)) es)

/-- So for the nodes of a source. -/
def Node.values (n : Node Atom) : Node Value := Id.run (n.mapM fun a => pure (.atom a))

def Node.allValues (ns : List (Node Atom)) : List (Node Value) :=
  Id.run (Node.mapAllM (fun a => pure (.atom a)) ns)

def Branch.allValues (bs : List (Branch Atom)) : List (Branch Value) :=
  Id.run (Branch.mapAllM (fun a => pure (.atom a)) bs)

section Expressions

variable {host host' : Host} {r : Renderer} {K : Context Value → Context Value → Prop}

/-- An expression that has a value is described without regard to the heap. -/
theorem Expr.describe_values (h h' : Heap) : ∀ (e : Expr Atom) {strict : Bool} {a : Value}
    {v v' : World}, (evaluate host r strict e.values).exec v = (.ok a, v') →
      e.values.describe h = e.values.describe h'
  | .const _ _, _, _, _, _, _ => rfl
  | .name _ _, _, _, _, _, _ => rfl
  | .member p object segment, strict, a, v, v', he => by
    change (evaluate host r strict (.member p object.values segment)).exec v = _ at he
    rw [evaluate] at he
    obtain ⟨b, v₁, e, -⟩ := Run.exec_bind_eq_ok he
    have ih := Expr.describe_values h h' object e
    show (Expr.member p object.values segment).describe h =
      (Expr.member p object.values segment).describe h'
    rw [describe, describe, ih]
  | .not p operand, strict, a, v, v', he => by
    change (evaluate host r strict (.not p operand.values)).exec v = _ at he
    rw [evaluate] at he
    obtain ⟨b, v₁, e, -⟩ := Run.exec_bind_eq_ok he
    have ih := Expr.describe_values h h' operand e
    show (Expr.not p operand.values).describe h = (Expr.not p operand.values).describe h'
    rw [describe, describe, ih]
  | .filter p value f args, strict, a, v, v', he => by
    change (evaluate host r strict
      (.filter p value.values f (Expr.allValues args))).exec v = _ at he
    rw [evaluate] at he
    split at he
    · cases he
    · obtain ⟨b, v₁, e, -⟩ := Run.exec_bind_eq_ok he
      have ih := Expr.describe_values h h' value e
      show (Expr.filter p value.values f (Expr.allValues args)).describe h =
        (Expr.filter p value.values f (Expr.allValues args)).describe h'
      rw [describe, describe, ih]
  | .bare p, strict, a, v, v', he => by
    change (evaluate host r strict (.bare p)).exec v = _ at he
    rw [evaluate] at he
    cases he
  | .node n, strict, a, v, v', he => by
    change (evaluate host r strict (.node n.values)).exec v = _ at he
    rw [evaluate] at he
    cases he

/-- When the run gives a result, so much is true of it and of the state. -/
def Run.after {σ : Type} (act : Run σ α) (good : α → σ → Bool) (s : σ) : Bool :=
  match act.exec s with
  | (.ok a, s') => good a s'
  | (.error _, _) => true

theorem Run.of_after {σ : Type} {act : Run σ α} {good : α → σ → Bool} {s s' : σ} {a : α}
    (h : act.after good s = true) (e : act.exec s = (.ok a, s')) : good a s' = true := by
  rw [after, e] at h
  exact h

mutual

/-- Whether no filter that the expression comes to goes through the state of a loop. -/
def Expr.calm (host : Host) (r : Renderer) (strict : Bool) : Expr Atom → World → Bool
  | .member _ object _, v => object.calm host r strict v
  | .not _ operand, v => operand.calm host r strict v
  | .filter _ value called args, v =>
    match r.filters.get? called with
    | none => true
    | some f =>
      let strict' := strict && !lenientFilters.contains called
      value.calm host r strict' v && (evaluate host r strict' value.values).after (fun a v =>
        Expr.allCalm host r strict args v && (evaluateAll host r strict (Expr.allValues args)).after
          (fun as v => !f.moves v.heap (a :: as)) v) v
  | .const _ _, _ | .name _ _, _ | .bare _, _ | .node _, _ => true

/-- So it is for expressions, in order. -/
def Expr.allCalm (host : Host) (r : Renderer) (strict : Bool) : List (Expr Atom) → World → Bool
  | [], _ => true
  | e :: rest, v =>
    e.calm host r strict v &&
      (evaluate host r strict e.values).after (fun _ v => Expr.allCalm host r strict rest v) v

end

/-- So it is for named expressions, in order. -/
def Expr.namedCalm (host : Host) (r : Renderer) : List (String × Expr Atom) → World → Bool
  | [], _ => true
  | (_, e) :: rest, v =>
    e.calm host r r.strict v &&
      (evaluate host r r.strict e.values).after (fun _ v => Expr.namedCalm host r rest v) v

/-- The filters of two hosts do not tell mirrored data apart, unless they go through a loop. -/
def Host.FiltersEcho (ρ : Nat → Nat) (host host' : Host) : Prop :=
  ∀ {g : Pairing} {h h' : Heap} f {vs vs' : List Value}, h.Mirrors ρ g h' →
    Value.AllMirror g vs vs' → f.moves h' vs' = false →
    Reflects ρ g Value.Mirrors h h' (host.filter f vs) (host'.filter f vs')

variable [IsPreorder (Context Value) K]

theorem echoes_undefined (m : w.Mirrors ρ g slot v) (name : String) :
    Echoes ρ g slot K Value.Mirrors w v (undefined slot name) (undefined slot name) := by
  have hcandidates : (w.contextIn slot).names.mapM (·.candidate w.heap) =
      (v.contextIn slot).names.mapM (·.candidate v.heap) := by
    rw [m.context.names_eq]
    exact List.Forall₂.mapM_eq (List.forall₂_same.mpr fun n hn =>
      (m.context.names_atomic n hn).candidate_eq w.heap v.heap)
  rw [undefined]
  refine .get_bind ?_
  rw [hcandidates, m.rendering?]
  refine (Echoes.ofExcept_same m _).bind fun g₁ w₁ v₁ a b _ m₁ hab _ => ?_
  obtain rfl : a = b := hab
  exact .fail m₁ _

theorem echoes_unknown {P : Pairing → α → β → Prop} (m : w.Mirrors ρ g slot v) (what name : String)
    (line : Int) (advice : Option String) (code : Code) :
    Echoes ρ g slot K P w v (unknown what name line advice code)
      (unknown what name line advice code) := by
  rw [unknown, unknown]
  refine .get_bind ?_
  rw [m.rendering?]
  exact .fail m _

theorem echoes_memberOf (m : w.Mirrors ρ g slot v) {a b : Value} (h : a.Mirrors g b)
    (segment : String) :
    Echoes ρ g slot K (fun g => Option.Rel (Value.Mirrors g)) w v (memberOf a segment)
      (memberOf b segment) := by
  have habsent : a = .absent ↔ b = .absent := by
    cases h with
    | atom _ => rfl
    | object _ => exact ⟨nofun, nofun⟩
    | method _ _ _ => exact ⟨nofun, nofun⟩
  rw [memberOf, memberOf]
  by_cases hb : b = .absent
  · rw [if_pos hb, if_pos (habsent.mpr hb)]
    exact .pure m .none
  · rw [if_neg hb, if_neg (mt habsent.mp hb)]
    exact .get_bind (.ofExcept m (m.heap.rel_member h segment))

mutual

/-- Induction on the expression. -/
theorem echoes_evaluate (filters : host.FiltersEcho ρ host') : ∀ (e : Expr Atom) (strict : Bool)
    {g : Pairing} {w v : World}, w.Mirrors ρ g r.slot v → e.calm host' r strict v = true →
      Echoes ρ g r.slot K Value.Mirrors w v (evaluate host r strict e.values)
        (evaluate host' r strict e.values)
  | .const p a, strict, g, w, v, m, _ => by
    show Echoes ρ g r.slot K _ w v (evaluate host r strict (.const p (.atom a)))
      (evaluate host' r strict (.const p (.atom a)))
    rw [evaluate, evaluate]
    exact .pure m (.atom a)
  | .name p name, strict, g, w, v, m, _ => by
    show Echoes ρ g r.slot K _ w v (evaluate host r strict (.name p name))
      (evaluate host' r strict (.name p name))
    rw [evaluate, evaluate]
    refine .get_bind ?_
    have hfound := m.context.rel_lookup? name
    generalize (w.contextIn r.slot).lookup? name = x, (v.contextIn r.slot).lookup? name = y
      at hfound
    cases hfound with
    | some h => exact .pure m h
    | none =>
      dsimp only
      split
      · exact echoes_undefined m name
      · exact .pure m (.atom _)
  | .member p object segment, strict, g, w, v, m, calm => by
    show Echoes ρ g r.slot K _ w v (evaluate host r strict (.member p object.values segment))
      (evaluate host' r strict (.member p object.values segment))
    rw [evaluate, evaluate]
    refine (echoes_evaluate filters object strict m calm).bind fun g₁ w₁ v₁ a b _ m₁ hab e => ?_
    refine (echoes_memberOf m₁ hab segment).bind fun g₂ w₂ v₂ x y _ m₂ hxy _ => ?_
    cases hxy with
    | some h => exact .pure m₂ h
    | none =>
      dsimp only
      split
      · have hdescribe : (Expr.member p object.values segment).describe w₂.heap =
            (Expr.member p object.values segment).describe v₂.heap := by
          rw [Expr.describe, Expr.describe, object.describe_values w₂.heap v₂.heap e]
        refine .get_bind ?_
        rw [hdescribe]
        refine (Echoes.ofExcept_same m₂ _).bind fun g₃ w₃ v₃ s t _ m₃ hst _ => ?_
        obtain rfl : s = t := hst
        exact echoes_undefined m₃ s
      · exact .pure m₂ (.atom _)
  | .not p operand, strict, g, w, v, m, calm => by
    show Echoes ρ g r.slot K _ w v (evaluate host r strict (.not p operand.values))
      (evaluate host' r strict (.not p operand.values))
    rw [evaluate, evaluate]
    refine (echoes_evaluate filters operand strict m calm).bind fun g₁ w₁ v₁ a b _ m₁ hab _ => ?_
    refine .get_bind ?_
    rw [m₁.heap.truth_eq hab]
    exact .pure m₁ (.atom _)
  | .filter p value name args, strict, g, w, v, m, calm => by
    show Echoes ρ g r.slot K _ w v
      (evaluate host r strict (.filter p value.values name (Expr.allValues args)))
      (evaluate host' r strict (.filter p value.values name (Expr.allValues args)))
    rw [evaluate, evaluate]
    rw [Expr.calm] at calm
    split
    · exact echoes_unknown m ..
    · next f hf =>
      rw [hf] at calm
      dsimp only at calm
      obtain ⟨hvalue, hrest⟩ := Bool.and_eq_true_iff.mp calm
      refine (echoes_evaluate filters value _ m hvalue).bind fun g₁ w₁ v₁ a b _ m₁ hab e => ?_
      have hnext := Run.of_after hrest e
      obtain ⟨hargs, hmoves⟩ := Bool.and_eq_true_iff.mp hnext
      refine (echoes_evaluateAll filters args strict m₁ hargs).bind
        fun g₂ w₂ v₂ as bs hg m₂ habs e' => ?_
      have hquiet : f.moves v₂.heap (b :: bs) = false := by
        simpa using Run.of_after hmoves e'
      exact .of_reflects m₂ (filters f m₂.heap (.cons (hab.mono hg) habs) hquiet)
  | .bare p, strict, g, w, v, m, _ => by
    show Echoes ρ g r.slot K _ w v (evaluate host r strict (.bare p))
      (evaluate host' r strict (.bare p))
    rw [evaluate, evaluate]
    exact .fail m _
  | .node n, strict, g, w, v, m, _ => by
    show Echoes ρ g r.slot K _ w v (evaluate host r strict (.node n.values))
      (evaluate host' r strict (.node n.values))
    rw [evaluate, evaluate]
    exact .fail m _

theorem echoes_evaluateAll (filters : host.FiltersEcho ρ host') :
    ∀ (es : List (Expr Atom)) (strict : Bool) {g : Pairing} {w v : World},
      w.Mirrors ρ g r.slot v → Expr.allCalm host' r strict es v = true →
      Echoes ρ g r.slot K Value.AllMirror w v (evaluateAll host r strict (Expr.allValues es))
        (evaluateAll host' r strict (Expr.allValues es))
  | [], strict, g, w, v, m, _ => by
    show Echoes ρ g r.slot K _ w v (evaluateAll host r strict []) (evaluateAll host' r strict [])
    rw [evaluateAll, evaluateAll]
    exact .pure m .nil
  | e :: rest, strict, g, w, v, m, calm => by
    show Echoes ρ g r.slot K _ w v (evaluateAll host r strict (e.values :: Expr.allValues rest))
      (evaluateAll host' r strict (e.values :: Expr.allValues rest))
    rw [evaluateAll, evaluateAll]
    rw [Expr.allCalm] at calm
    obtain ⟨hfirst, hrest⟩ := Bool.and_eq_true_iff.mp calm
    refine (echoes_evaluate filters e strict m hfirst).bind fun g₁ w₁ v₁ a b _ m₁ hab e' => ?_
    have hnext := Run.of_after hrest e'
    refine (echoes_evaluateAll filters rest strict m₁ hnext).bind
      fun g₂ w₂ v₂ as bs hg m₂ habs _ => ?_
    exact .pure m₂ (.cons (hab.mono hg) habs)

end

/-- Induction on the named expressions. -/
theorem echoes_evaluateNamed (filters : host.FiltersEcho ρ host') (es : List (String × Expr Atom))
    (m : w.Mirrors ρ g r.slot v) (calm : Expr.namedCalm host' r es v = true) :
    Echoes ρ g r.slot K Bindings.EntriesMirror w v (evaluateNamed host r (Expr.namedValues es))
      (evaluateNamed host' r (Expr.namedValues es)) := by
  induction es generalizing g w v with
  | nil => exact .pure m .nil
  | cons x rest ih =>
    obtain ⟨name, e⟩ := x
    rw [Expr.namedCalm] at calm
    obtain ⟨hfirst, hrest⟩ := Bool.and_eq_true_iff.mp calm
    show Echoes ρ g r.slot K _ w v
      (evaluateNamed host r ((name, e.values) :: Expr.namedValues rest))
      (evaluateNamed host' r ((name, e.values) :: Expr.namedValues rest))
    rw [evaluateNamed, evaluateNamed]
    refine (echoes_evaluate filters e r.strict m hfirst).bind fun g₁ w₁ v₁ a b _ m₁ hab e' => ?_
    have hnext := Run.of_after hrest e'
    refine (ih m₁ hnext).bind fun g₂ w₂ v₂ as bs hg m₂ habs _ => ?_
    exact .pure m₂ (.cons ⟨rfl, hab.mono hg⟩ habs)

end Expressions

end Stencil
