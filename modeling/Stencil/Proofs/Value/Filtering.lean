/-
Stencil/Proofs/Value/Filtering.lean

Filters do not tell a heap from one that mirrors it.  What they make in both
heaps become partners, so a filter applied to the same data gives the same data,
or fails with the same fault (`reflects_apply`).  The exception are the two
filters that go through a value, when that value is the state of a loop, which
they move.

`Reflects` is what is shown of parts of such runs, and has a rule for each way
of putting parts together.
-/
import Stencil.Proofs.Value.Reading

namespace Stencil

variable {α β γ δ : Type} {ρ : Nat → Nat} {g g' : Pairing} {h h' : Heap}

/-! ### Runs on mirrored heaps -/

/-- Two runs, from a heap and one that it mirrors, end alike, and the heaps that they leave are
mirrors again.  `P` says of results how they are alike. -/
def Reflects (ρ : Nat → Nat) (g : Pairing) (P : Pairing → α → β → Prop) (h h' : Heap)
    (act : Run Heap α) (act' : Run Heap β) : Prop :=
  ∃ g', g.Extends g' ∧ (act.exec h).2.Mirrors ρ g' (act'.exec h').2 ∧
    Likewise (P g') (act.exec h).1 (act'.exec h').1

namespace Reflects

variable {P : Pairing → α → β → Prop} {Q : Pairing → γ → δ → Prop} {act : Run Heap α}
  {act' : Run Heap β}

/-- Runs that leave the heaps as they are. -/
theorem of_exec {x : Except Stop α} {y : Except Stop β} (m : h.Mirrors ρ g h')
    (e : act.exec h = (x, h)) (e' : act'.exec h' = (y, h')) (hxy : Likewise (P g) x y) :
    Reflects ρ g P h h' act act' := by
  refine ⟨g, .refl g, ?_, ?_⟩
  · rw [e, e']
    exact m
  · rw [e, e']
    exact hxy

theorem pure (m : h.Mirrors ρ g h') {a : α} {b : β} (hab : P g a b) :
    Reflects ρ g P h h' (pure a) (pure b) := of_exec m rfl rfl (.ok hab)

theorem fail (m : h.Mirrors ρ g h') (f : Fault) :
    Reflects ρ g P h h' (Run.fail f) (Run.fail f) := of_exec m rfl rfl (.error _)

theorem ofExcept (m : h.Mirrors ρ g h') {x : Except Fault α} {y : Except Fault β}
    (hxy : Likewise (P g) x y) : Reflects ρ g P h h' (Run.ofExcept x) (Run.ofExcept y) := by
  cases hxy with
  | ok hab => exact pure m hab
  | error f => exact fail m f

theorem get_bind {f : Heap → Run Heap α} {f' : Heap → Run Heap β}
    (hf : Reflects ρ g P h h' (f h) (f' h')) :
    Reflects ρ g P h h' (get >>= f) (get >>= f') := hf

theorem bind {f : α → Run Heap γ} {f' : β → Run Heap δ} (hact : Reflects ρ g P h h' act act')
    (hf : ∀ g₁ h₁ h₁' a b, g.Extends g₁ → h₁.Mirrors ρ g₁ h₁' → P g₁ a b →
      Reflects ρ g₁ Q h₁ h₁' (f a) (f' b)) : Reflects ρ g Q h h' (act >>= f) (act' >>= f') := by
  obtain ⟨g₁, hg, m, hxy⟩ := hact
  rcases e : act.exec h with ⟨x, h₁⟩
  rcases e' : act'.exec h' with ⟨y, h₁'⟩
  rw [e, e'] at m hxy
  cases hxy with
  | error f =>
    rw [Reflects, Run.exec_bind_error e, Run.exec_bind_error e']
    exact ⟨g₁, hg, m, .error f⟩
  | ok hab =>
    obtain ⟨g₂, hg', m', hrest⟩ := hf g₁ h₁ h₁' _ _ hg m hab
    rw [Reflects, Run.exec_bind_ok e, Run.exec_bind_ok e']
    exact ⟨g₂, hg.trans hg', m', hrest⟩

/-- Both runs make an object. -/
theorem add (m : h.Mirrors ρ g h') {o o' : Object} (hm : o.Mirrors g o')
    (hk : ∀ es, o = .dict es → h.Keyed es) :
    Reflects ρ g Value.Mirrors h h'
      (do let (w, h) := h.add o; set h; return w) (do let (w, h) := h'.add o'; set h; return w) :=
  ⟨_, .join (m.eq_none (Nat.le_refl _)), m.add hm hk, .ok (.object Pairing.join_self)⟩

end Reflects

/-! ### Filters -/

/-- The same text, whatever the objects are. -/
abbrev SameText : Pairing → String → String → Prop := fun _ s t => s = t

/-- The filter goes through the state of a loop. -/
def Filter.moves (f : Filter) (h : Heap) (args : List Value) : Bool :=
  match f, args with
  | .join, v :: _ | .asList, v :: _ => h.isLoop v
  | _, _ => false

namespace Heap.Mirrors

variable {v v' : Value}

theorem reflects_textOf (m : h.Mirrors ρ g h') (hv : v.Mirrors g v') :
    Reflects ρ g SameText h h' (Filter.textOf v) (Filter.textOf v') := by
  refine .get_bind ?_
  rw [m.text_eq hv]
  refine .ofExcept m ?_
  rcases h'.text v' with f | t
  · exact .error f
  · exact .ok rfl

theorem reflects_onText (m : h.Mirrors ρ g h') (hv : v.Mirrors g v') (f : String → String) :
    Reflects ρ g Value.Mirrors h h' (Filter.onText f v) (Filter.onText f v') := by
  refine (m.reflects_textOf hv).bind fun g₁ h₁ h₁' s t _ m₁ hst => ?_
  obtain rfl : s = t := hst
  exact .pure m₁ (.atom _)

/-- The texts of values, in order. -/
theorem exec_visit_textOf (vs : List Value) (h : Heap) :
    (visit Filter.textOf vs).exec h = (Run.ofExcept (vs.mapM h.text)).exec h := by
  induction vs with
  | nil => rfl
  | cons v vs ih =>
    rw [visit, List.mapM_cons, Filter.textOf, bind_assoc, Run.exec_get_bind]
    rcases h.text v with f | t
    · rfl
    · show (visit Filter.textOf vs >>= fun ts => pure (t :: ts)).exec h = _
      rw [Run.exec_bind, ih]
      rcases vs.mapM h.text with f | ts <;> rfl

theorem reflects_visit_textOf (m : h.Mirrors ρ g h') {vs vs' : List Value}
    (hvs : Value.AllMirror g vs vs') :
    Reflects ρ g (fun _ ss ts => ss = ts) h h' (visit Filter.textOf vs)
      (visit Filter.textOf vs') := by
  have htexts : vs.mapM h.text = vs'.mapM h'.text :=
    List.Forall₂.mapM_eq (hvs.imp fun _ _ => m.text_eq)
  have e := exec_visit_textOf vs h
  rw [htexts, Run.exec_ofExcept] at e
  have e' := exec_visit_textOf vs' h'
  rw [Run.exec_ofExcept] at e'
  refine .of_exec m e e' ?_
  rcases vs'.mapM h'.text with f | ts
  · exact .error _
  · exact .ok rfl

/-- A number more that is not a number, in both heaps. -/
theorem unnumber (m : h.Mirrors ρ g h') :
    ({ h with unnumbers := h.unnumbers + 1 } : Heap).Mirrors ρ g
      { h' with unnumbers := h'.unnumbers + 1 } :=
  m.change (fun _ _ _ => rfl) (fun _ _ _ => rfl) (Nat.le_refl _) m.size_le
    (congrArg (· + 1) m.unnumbers)

/-- A number doubled, or a sequence repeated. -/
theorem reflects_double (m : h.Mirrors ρ g h') (hv : v.Mirrors g v') :
    Reflects ρ g Value.Mirrors h h' (Filter.double v) (Filter.double v') := by
  have hrefuse : Reflects ρ g Value.Mirrors h h'
      (Run.fail (Filter.unsupported "*" (h.typeName v)))
      (Run.fail (Filter.unsupported "*" (h'.typeName v'))) := by
    rw [m.typeName_eq hv]
    exact .fail m _
  rw [Filter.double.eq_def, Filter.double.eq_def]
  refine .get_bind ?_
  cases hv with
  | atom a =>
    cases a with
    | bool b => exact .pure m (.atom _)
    | int n => exact .pure m (.atom _)
    | str s => exact .pure m (.atom _)
    | none => exact hrefuse
    | float x =>
      cases x with
      | nan n =>
        have hnan : Value.Mirrors g (.float (.nan (h.unnumbers + 1)))
            (.float (.nan (h'.unnumbers + 1))) := by
          rw [m.unnumbers]
          exact .atom _
        exact ⟨g, .refl g, m.unnumber, .ok hnan⟩
      | infinite _ => exact .pure m (.atom _)
      | finite _ _ _ => exact .pure m (.atom _)
  | method hv _ n => exact hrefuse
  | object e =>
    obtain ⟨o, o', ho, ho', hm⟩ := m.objects e
    dsimp only [objectOf?]
    rw [ho, ho']
    cases hm with
    | list hvs => exact .add m (.list (List.rel_append hvs hvs)) nofun
    | tuple hvs =>
      cases hvs with
      | nil => exact .pure m (.object e)
      | cons hv hvs =>
        exact .add m (.tuple (List.rel_append (.cons hv hvs) (.cons hv hvs))) nofun
    | dict _ | loop _ _ => exact hrefuse

/-- An attribute that a value must have. -/
theorem attributeOf (m : h.Mirrors ρ g h') (hv : v.Mirrors g v') (name : String) :
    Likewise (Value.Mirrors g) (h.attributeOf v name) (h'.attributeOf v' name) := by
  obtain ⟨x, x', hx, hx', hr⟩ := m.rel_attribute hv name
  rw [Heap.attributeOf, Heap.attributeOf, hx, hx']
  cases hr with
  | some hw => exact .ok hw
  | none =>
    have hmissing : Likewise (Value.Mirrors g)
        (.error (missingAttribute (h.typeName v) name) : Except Fault Value)
        (.error (missingAttribute (h'.typeName v') name)) := by
      rw [m.typeName_eq hv]
      exact .error _
    cases hv with
    | atom a => exact hmissing
    | method hv _ n => exact hmissing
    | object e =>
      obtain ⟨o, o', ho, ho', hm⟩ := m.objects e
      simp only [objectOf?, ho, ho']
      cases hm <;> exact hmissing

theorem requireIterable_eq (m : h.Mirrors ρ g h') (hv : v.Mirrors g v') :
    h.requireIterable v = h'.requireIterable v' := by
  have htype := m.typeName_eq hv
  rw [requireIterable.eq_def, requireIterable.eq_def]
  cases hv with
  | atom a =>
    cases a <;> rfl
  | method hv _ n =>
    dsimp only [objectOf?]
    rw [htype]
  | object e =>
    obtain ⟨o, o', ho, ho', hm⟩ := m.objects e
    dsimp only [objectOf?]
    rw [ho, ho']
    cases hm <;> rfl

/-- The texts of the items of a value, joined. -/
theorem reflects_joined (m : h.Mirrors ρ g h') (hv : v.Mirrors g v') (hl : h'.isLoop v' = false)
    {by' by'' : Value} (hby : by'.Mirrors g by'') :
    Reflects ρ g Value.Mirrors h h' (Filter.joined v by') (Filter.joined v' by'') := by
  rw [Filter.joined.eq_def, Filter.joined.eq_def]
  have hasked : ∀ {s s' : Value}, s.Mirrors g s' → Reflects ρ g Value.Mirrors h h'
      (do
        let h ← get
        let how ← Run.ofExcept (h.attributeOf s "join")
        Run.ofExcept (h.requireIterable v)
        Run.fail (notCallable (h.typeName how)))
      (do
        let h ← get
        let how ← Run.ofExcept (h.attributeOf s' "join")
        Run.ofExcept (h.requireIterable v')
        Run.fail (notCallable (h.typeName how))) := by
    intro s s' hs
    refine .get_bind ?_
    have hhow := m.attributeOf hs "join"
    generalize h.attributeOf s "join" = x, h'.attributeOf s' "join" = x' at hhow
    cases hhow with
    | error f => exact .fail m f
    | ok hw =>
      rw [Run.ofExcept, Run.ofExcept, pure_bind, pure_bind, m.requireIterable_eq hv,
        m.typeName_eq hw]
      rcases h'.requireIterable v' with f | _
      · exact .fail m f
      · exact .fail m _
  cases hby with
  | atom a =>
    cases a with
    | str s =>
      have htexts : Reflects ρ g (fun _ ss ts => ss = ts) h h' (Heap.forEach v Filter.textOf)
          (Heap.forEach v' Filter.textOf) := by
        rcases m.forEach hv hl Filter.textOf with ⟨vs, vs', hvs, e, e'⟩ | ⟨f, e, e'⟩
        · have hvisit := m.reflects_visit_textOf hvs
          rw [Reflects, ← e, ← e'] at hvisit
          exact hvisit
        · exact .of_exec m e e' (.error f)
      refine htexts.bind fun g₁ h₁ h₁' ss ts _ m₁ hst => ?_
      obtain rfl : ss = ts := hst
      exact .pure m₁ (.atom _)
    | none | bool _ | int _ | float _ => exact hasked (.atom _)
  | method hby own n => exact hasked (.method hby own n)
  | object e => exact hasked (.object e)

/-- A fault of a kind, with a message or without. -/
theorem reflects_raised (m : h.Mirrors ρ g h') {kind kind' message message' : Value}
    (hk : kind.Mirrors g kind') (hm : message.Mirrors g message') :
    Reflects ρ g Value.Mirrors h h' (Filter.raised kind message)
      (Filter.raised kind' message') := by
  rw [Filter.raised.eq_def, Filter.raised.eq_def]
  refine (m.reflects_textOf hk).bind fun g₁ h₁ h₁' s t hg m₁ hst => ?_
  obtain rfl : s = t := hst
  replace hm := hm.mono hg
  have hsubject : Reflects ρ g₁ Value.Mirrors h₁ h₁'
      (do
        let h ← get
        let subject ← Run.ofExcept (h.subject message)
        Run.fail (Fault.ofKind s (some subject)))
      (do
        let h ← get
        let subject ← Run.ofExcept (h.subject message')
        Run.fail (Fault.ofKind s (some subject))) := by
    refine .get_bind ?_
    rw [m₁.subject_eq hm]
    rcases h₁'.subject message' with f | subject
    · exact .fail m₁ f
    · exact .fail m₁ _
  cases hm with
  | atom a =>
    cases a with
    | none => exact .fail m₁ _
    | bool _ | int _ | float _ | str _ => exact hsubject
  | object e => exact hsubject
  | method hm _ n => exact hsubject

theorem orDefault (m : h.Mirrors ρ g h') (hv : v.Mirrors g v') {d d' : Value}
    (hd : d.Mirrors g d') (falsy : Bool) :
    (Filter.orDefault v d falsy h).Mirrors g (Filter.orDefault v' d' falsy h') := by
  have habsent : v = .absent ↔ v' = .absent := by
    cases hv with
    | atom a => rfl
    | object e => exact ⟨nofun, nofun⟩
    | method hv _ n => exact ⟨nofun, nofun⟩
  rw [Filter.orDefault, Filter.orDefault, m.truth_eq hv]
  simp only [habsent]
  split
  · exact hd
  · exact hv

theorem getD (vs : List Value) {vs' : List Value} (hvs : Value.AllMirror g vs vs') (n : Nat)
    (a : Atom) : (vs.getD n (.atom a)).Mirrors g (vs'.getD n (.atom a)) := by
  have h := rel_getElem hvs n
  rw [List.getD_eq_getElem?_getD, List.getD_eq_getElem?_getD]
  generalize vs[n]? = x, vs'[n]? = x' at h
  cases h with
  | some hv => exact hv
  | none => exact .atom a

/-- A filter applied to a value and further arguments whose number is right. -/
theorem reflects_applyTo (m : h.Mirrors ρ g h') (f : Filter) (hv : v.Mirrors g v')
    {vs vs' : List Value} (hvs : Value.AllMirror g vs vs') (hf : f.moves h' (v' :: vs') = false) :
    Reflects ρ g Value.Mirrors h h' (f.applyTo v vs) (f.applyTo v' vs') := by
  cases f with
  | upper | lower | title | trim => exact m.reflects_onText hv _
  | length =>
    rw [Filter.applyTo, Filter.applyTo]
    refine .get_bind ?_
    rw [m.sizeOf_eq hv]
    rcases h'.sizeOf v' with f | n
    · exact .fail m f
    · exact .pure m (.atom _)
  | default =>
    rw [Filter.applyTo, Filter.applyTo]
    refine .get_bind (.pure m ?_)
    have hfalsy : vs[1]?.any h.truth = vs'[1]?.any h'.truth := by
      have h₁ := rel_getElem hvs 1
      generalize vs[1]? = x, vs'[1]? = x' at h₁
      cases h₁ with
      | some hw => exact m.truth_eq hw
      | none => rfl
    rw [hfalsy]
    exact m.orDefault hv (getD vs hvs 0 _) _
  | join => exact m.reflects_joined hv hf (getD vs hvs 0 _)
  | display =>
    rw [Filter.applyTo, Filter.applyTo]
    refine .get_bind ?_
    have htexts : (v :: vs).mapM h.quoted = (v' :: vs').mapM h'.quoted :=
      List.Forall₂.mapM_eq (List.Forall₂.cons (m.quoted_eq hv) (hvs.imp fun _ _ => m.quoted_eq))
    rw [htexts]
    rcases (v' :: vs').mapM h'.quoted with f | ts
    · exact .fail m f
    · exact .pure m (.atom _)
  | twice => exact m.reflects_double hv
  | half =>
    rw [Filter.applyTo, Filter.applyTo]
    refine .get_bind ?_
    have hdivided : Filter.divided h v = Filter.divided h' v' := by
      have htype := congrArg (Filter.unsupported "/") (m.typeName_eq hv)
      cases hv with
      | atom a => cases a <;> rfl
      | object e => exact htype
      | method hv _ n => exact htype
    rw [hdivided]
    exact .fail m _
  | typeName =>
    rw [Filter.applyTo, Filter.applyTo]
    refine .get_bind ?_
    rw [m.typeName_eq hv]
    exact .pure m (.atom _)
  | fail => exact m.reflects_raised (getD vs hvs 0 _) (getD vs hvs 1 _)
  | asList =>
    rw [Filter.applyTo, Filter.applyTo]
    obtain ⟨x, x', e, e', hxs⟩ := m.itemsOf hv hf
    refine (Reflects.of_exec (P := Value.AllMirror) m e e' hxs).bind
      fun g₁ h₁ h₁' xs xs' _ m₁ hl => ?_
    exact .add m₁ (.list hl) nofun

/-- A filter does not tell a heap from one that mirrors it, unless it goes through the state of a
loop. -/
theorem reflects_apply (m : h.Mirrors ρ g h') (f : Filter) {vs vs' : List Value}
    (hvs : Value.AllMirror g vs vs') (hf : f.moves h' vs' = false) :
    Reflects ρ g Value.Mirrors h h' (f.apply vs) (f.apply vs') := by
  rw [Filter.apply.eq_def, Filter.apply.eq_def]
  cases hvs with
  | nil =>
    rcases f.mostArguments? with - | most
    · exact .pure m (.atom _)
    · exact .fail m _
  | @cons v v' vs vs' hv hvs =>
    rcases f.mostArguments? with - | most
    · exact m.reflects_applyTo f hv hvs hf
    · have hlength : (v :: vs).length = (v' :: vs').length := congrArg (· + 1) hvs.length_eq
      dsimp only
      rw [hlength]
      split
      · exact .fail m _
      · exact m.reflects_applyTo f hv hvs hf

end Heap.Mirrors

end Stencil
