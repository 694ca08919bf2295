/-
Stencil/Proofs/Render/Recipe.lean

Tags that are functions of what they are told.  A *recipe* is one call of a tag
that has its arguments and reads names of the context it was lent.  It knows
values by their places among those it has; of a value it sees what can be seen,
and may take out parts and members of it.  It makes new values from those it
has, and changes none.  At the end it gives a value or raises.

So what comes of a recipe depends on data and not on the identity of objects:
from mirrored heaps, arguments and contexts it gives results, and makes writes,
that are mirrors again (`Recipe.perform_mirrors`).

A recipe is run as a conduct.  It asks by the handle it was lent, if any, and
does what `Recipe.perform` says it does (`Recipe.exec_conduct`).
-/
import Stencil.Proofs.Render.AtWork
import Stencil.Proofs.Scope.Mirror
import Stencil.Proofs.Value.Filtering

namespace Stencil

/-- One call of a tag: the next step, and how it goes on for what it is told. -/
inductive Recipe where
  /-- Returns the value at a place. -/
  | give (place : Nat)
  | raise (e : Failure) (h : e.fault.catchable = true)
  /-- Looks up a name; is told whether it is bound, and has its value then. -/
  | read (name : String) (next : Bool → Recipe)
  | names (next : List String → Recipe)
  | write (name : String) (place : Nat) (next : Recipe)
  /-- Looks at a value. -/
  | view (place : Nat) (next : View → Recipe)
  /-- Takes out a part of an object, if there are so many. -/
  | part (place number : Nat) (next : Bool → Recipe)
  /-- Takes out what a segment names in a value. -/
  | member (place : Nat) (segment : String) (next : Except Fault Bool → Recipe)
  | atom (a : Atom) (next : Recipe)
  | list (places : List Nat) (next : Recipe)
  | tuple (places : List Nat) (next : Recipe)
  /-- Makes a dictionary of the entries of another, if that is one, and of one entry more. -/
  | entry (dict : Nat) (key : Atom) (place : Nat) (next : Recipe)

/-- The parts of the object that a value is. -/
def Heap.partsOf (h : Heap) (v : Value) : List Value := ((h.objectOf? v).map Object.parts).getD []

/-- The entries of the dictionary that a value is. -/
def Heap.entriesOf (h : Heap) (v : Value) : List (Value × Value) :=
  match h.objectOf? v with
  | some (.dict es) => es
  | _ => []

/-- Names that are texts. -/
def Name.texts (ns : List Name) : List String :=
  ns.filterMap fun
    | .text s => some s
    | .key _ => none

namespace Recipe

/-- The value at a place among those that a call has. -/
def pick (vs : List Value) (place : Nat) : Value := vs.getD place .absent

/-- What a call comes to with certain values, in a context if it was lent one: its end, and what it
writes. -/
def perform : Recipe → List Value → Heap → Option (Context Value) →
    Except Failure Value × Heap × List Write
  | give p, vs, h, _ => (.ok (pick vs p), h, [])
  | raise e _, _, h, _ => (.error e, h, [])
  | read n next, vs, h, c =>
    let found := c.bind (·.lookup? n)
    (next found.isSome).perform (vs ++ found.toList) h c
  | names next, vs, h, c => (next (Name.texts ((c.map (·.names)).getD []))).perform vs h c
  | write n p next, vs, h, c =>
    let r := next.perform vs h (c.map (·.set n (pick vs p)))
    (r.1, r.2.1, (n, pick vs p) :: r.2.2)
  | view p next, vs, h, c => (next (h.view (pick vs p))).perform vs h c
  | part p n next, vs, h, c =>
    let found := (h.partsOf (pick vs p))[n]?
    (next found.isSome).perform (vs ++ found.toList) h c
  | member p s next, vs, h, c =>
    let found := h.member? (pick vs p) s
    (next (found.map Option.isSome)).perform (vs ++ found.toOption.join.toList) h c
  | atom a next, vs, h, c => next.perform (vs ++ [.atom a]) h c
  | list ps next, vs, h, c =>
    let made := h.add (.list (ps.map (pick vs)))
    next.perform (vs ++ [made.1]) made.2 c
  | tuple ps next, vs, h, c =>
    let made := h.add (.tuple (ps.map (pick vs)))
    next.perform (vs ++ [made.1]) made.2 c
  | entry d k p next, vs, h, c =>
    let made := h.add (.dict (h.setKey (.atom k) (pick vs p) (h.entriesOf (pick vs d))))
    next.perform (vs ++ [made.1]) made.2 c

/-! ### The same from mirrored data -/

section Mirrors

variable {ρ : Nat → Nat} {g : Pairing} {h h' : Heap}

theorem pick_mirrors {vs vs' : List Value} (hvs : Value.AllMirror g vs vs') (p : Nat) :
    (pick vs p).Mirrors g (pick vs' p) := Heap.Mirrors.getD vs hvs p .none

theorem picked_mirrors {vs vs' : List Value} (hvs : Value.AllMirror g vs vs') (ps : List Nat) :
    Value.AllMirror g (ps.map (pick vs)) (ps.map (pick vs')) := by
  refine List.forall₂_map_left_iff.mpr (List.forall₂_map_right_iff.mpr ?_)
  exact List.forall₂_same.mpr fun p _ => pick_mirrors hvs p

/-- What was found is there in both, or in neither. -/
theorem found_mirrors {vs vs' : List Value} (hvs : Value.AllMirror g vs vs')
    {x x' : Option Value} (hx : Option.Rel (Value.Mirrors g) x x') :
    x.isSome = x'.isSome ∧ Value.AllMirror g (vs ++ x.toList) (vs' ++ x'.toList) := by
  cases hx with
  | some hv => exact ⟨rfl, List.rel_append hvs (.cons hv .nil)⟩
  | none => exact ⟨rfl, List.rel_append hvs .nil⟩

theorem partsOf_mirrors (m : h.Mirrors ρ g h') {v v' : Value} (hv : v.Mirrors g v') :
    Value.AllMirror g (h.partsOf v) (h'.partsOf v') := by
  cases hv with
  | atom a => exact .nil
  | method hv _ n => exact .nil
  | object e =>
    obtain ⟨o, o', ho, ho', hm⟩ := m.objects e
    rw [Heap.partsOf, Heap.partsOf, Heap.objectOf?, Heap.objectOf?, ho, ho']
    cases hm with
    | list hvs | tuple hvs => exact hvs
    | loop e p => exact .cons (.object e) .nil
    | dict hes =>
      clear ho ho'
      induction hes with
      | nil => exact .nil
      | cons he _ ih => exact .cons he.1 (.cons he.2 ih)

/-- The entries of a dictionary, with keys as they should be. -/
theorem entriesOf_mirrors (m : h.Mirrors ρ g h') {v v' : Value} (hv : v.Mirrors g v') :
    Value.EntriesMirror g (h.entriesOf v) (h'.entriesOf v') ∧ h.Keyed (h.entriesOf v) := by
  have hnone : Value.EntriesMirror g [] [] ∧ h.Keyed [] := ⟨.nil, nofun, .nil⟩
  cases hv with
  | atom a => exact hnone
  | method hv _ n => exact hnone
  | object e =>
    obtain ⟨o, o', ho, ho', hm⟩ := m.objects e
    rw [Heap.entriesOf, Heap.entriesOf, Heap.objectOf?, Heap.objectOf?, ho, ho']
    cases hm with
    | dict hes => exact ⟨hes, m.keyed _ _ _ e ho⟩
    | list _ | tuple _ | loop _ _ => exact hnone

/-- Two calls come to the same. -/
def Agree (ρ : Nat → Nat) (g : Pairing)
    (r r' : Except Failure Value × Heap × List Write) : Prop :=
  ∃ g', g.Extends g' ∧ r.2.1.Mirrors ρ g' r'.2.1 ∧
    Likewise (Value.Mirrors g') r.1 r'.1 ∧ Bindings.EntriesMirror g' r.2.2 r'.2.2

/-- Objects are made in both heaps before. -/
theorem Agree.add {g₁ : Pairing} {r r' : Except Failure Value × Heap × List Write}
    (a : Agree ρ g₁ r r') (hg : g.Extends g₁) : Agree ρ g r r' := by
  obtain ⟨g₂, hg₂, m, hr, hw⟩ := a
  exact ⟨g₂, hg.trans hg₂, m, hr, hw⟩

/-- Both calls make an object, and have it from then on. -/
theorem made_mirrors (m : h.Mirrors ρ g h') {vs vs' : List Value} (hvs : Value.AllMirror g vs vs')
    {o o' : Object} (ho : o.Mirrors g o') (hk : ∀ es, o = .dict es → h.Keyed es) :
    ∃ g', g.Extends g' ∧ (h.add o).2.Mirrors ρ g' (h'.add o').2 ∧
      Value.AllMirror g' (vs ++ [(h.add o).1]) (vs' ++ [(h'.add o').1]) := by
  have hext : g.Extends (g.join h.objects.size h'.objects.size) :=
    .join (m.eq_none (Nat.le_refl _))
  exact ⟨_, hext, m.add ho hk,
    List.rel_append (hvs.mono hext) (.cons (.object Pairing.join_self) .nil)⟩

/-- Induction on the recipe: both calls are told the same, so they take the same next step. -/
theorem perform_mirrors (d : Recipe) {vs vs' : List Value} {c c' : Option (Context Value)}
    (m : h.Mirrors ρ g h') (hvs : Value.AllMirror g vs vs')
    (hc : Option.Rel (Context.Mirrors g) c c') :
    Agree ρ g (d.perform vs h c) (d.perform vs' h' c') := by
  have hmono : ∀ {g₁ : Pairing}, g.Extends g₁ → Option.Rel (Context.Mirrors g₁) c c' := by
    intro g₁ hg
    cases hc with
    | some hx => exact .some (hx.mono hg)
    | none => exact .none
  induction d generalizing vs vs' h h' g c c' with
  | give p => exact ⟨g, .refl g, m, .ok (pick_mirrors hvs p), .nil⟩
  | raise e _ => exact ⟨g, .refl g, m, .error e, .nil⟩
  | read n next ih =>
    have hfound : Option.Rel (Value.Mirrors g) (c.bind (·.lookup? n)) (c'.bind (·.lookup? n)) := by
      cases hc with
      | some hx => exact hx.rel_lookup? n
      | none => exact .none
    obtain ⟨hsome, hall⟩ := found_mirrors hvs hfound
    rw [perform, perform, hsome]
    exact ih _ m hall hc hmono
  | names next ih =>
    have hnames : c.map (·.names) = c'.map (·.names) := by
      cases hc with
      | some hx => exact congrArg some hx.names_eq
      | none => rfl
    rw [perform, perform, hnames]
    exact ih _ m hvs hc hmono
  | write n p next ih =>
    have hset : Option.Rel (Context.Mirrors g) (c.map (·.set n (pick vs p)))
        (c'.map (·.set n (pick vs' p))) := by
      cases hc with
      | some hx => exact .some (hx.set n (pick_mirrors hvs p))
      | none => exact .none
    obtain ⟨g₁, hg, m₁, hr, hw⟩ := ih m hvs hset fun hg => by
      generalize c.map _ = x, c'.map _ = x' at hset
      cases hset with
      | some hx => exact .some (hx.mono hg)
      | none => exact .none
    exact ⟨g₁, hg, m₁, hr, .cons ⟨rfl, (pick_mirrors hvs p).mono hg⟩ hw⟩
  | view p next ih =>
    rw [perform, perform, m.view_eq (pick_mirrors hvs p)]
    exact ih _ m hvs hc hmono
  | part p n next ih =>
    have hparts := partsOf_mirrors m (pick_mirrors hvs p)
    obtain ⟨hsome, hall⟩ := found_mirrors hvs (Heap.Mirrors.rel_getElem hparts n)
    rw [perform, perform, hsome]
    exact ih _ m hall hc hmono
  | member p s next ih =>
    rw [perform, perform]
    have hmember := m.rel_member (pick_mirrors hvs p) s
    generalize h.member? (pick vs p) s = x, h'.member? (pick vs' p) s = x' at hmember
    cases hmember with
    | error f =>
      have hall := (found_mirrors hvs (.none : Option.Rel (Value.Mirrors g) none none)).2
      exact ih _ m hall hc hmono
    | ok hx =>
      obtain ⟨hsome, hall⟩ := found_mirrors hvs hx
      rw [Except.map, Except.map, hsome]
      exact ih _ m hall hc hmono
  | atom a next ih =>
    rw [perform, perform]
    exact ih m (List.rel_append hvs (.cons (.atom a) .nil)) hc hmono
  | list ps next ih =>
    obtain ⟨g₁, hg, m₁, hall⟩ := made_mirrors m hvs (.list (picked_mirrors hvs ps)) nofun
    exact (ih m₁ hall (hmono hg) fun hg' => hmono (hg.trans hg')).add hg
  | tuple ps next ih =>
    obtain ⟨g₁, hg, m₁, hall⟩ := made_mirrors m hvs (.tuple (picked_mirrors hvs ps)) nofun
    exact (ih m₁ hall (hmono hg) fun hg' => hmono (hg.trans hg')).add hg
  | entry d k p next ih =>
    obtain ⟨hes, hk⟩ := entriesOf_mirrors m (pick_mirrors hvs d)
    have hset : Value.EntriesMirror g (h.setKey (.atom k) (pick vs p) _)
        (h'.setKey (.atom k) (pick vs' p) _) :=
      Heap.Mirrors.setKey_mirrors hes k (pick_mirrors hvs p)
    obtain ⟨g₁, hg, m₁, hall⟩ := made_mirrors m hvs (.dict hset) fun es he =>
      Object.dict.inj he ▸ Heap.Mirrors.keyed_setKey hk k _
    exact (ih m₁ hall (hmono hg) fun hg' => hmono (hg.trans hg')).add hg

end Mirrors

/-! ### Running a recipe -/

/-- The value that was found. -/
def found : Except Failure Reply → Option Value
  | .ok (.value v) => some v
  | _ => none

/-- The names that were told. -/
def told : Except Failure Reply → List String
  | .ok (.names ns) => Name.texts ns
  | _ => []

/-- The recipe as a conduct, with certain values: it asks by the first of its handles. -/
def conduct : Recipe → List Value → Conduct
  | give p, vs => .finish (.ok (pick vs p))
  | raise e _, _ => .finish (.error e)
  | read n next, vs =>
    .access 0 (.lookup n) fun r => (next (found r).isSome).conduct (vs ++ (found r).toList)
  | names next, vs => .access 0 .names fun r => (next (told r)).conduct vs
  | write n p next, vs => .access 0 (.set n (pick vs p)) fun _ => next.conduct vs
  | view p next, vs => .look fun h => (next (h.view (pick vs p))).conduct vs
  | part p n next, vs =>
    .look fun h =>
      let found := (h.partsOf (pick vs p))[n]?
      (next found.isSome).conduct (vs ++ found.toList)
  | member p s next, vs =>
    .look fun h =>
      let found := h.member? (pick vs p) s
      (next (found.map Option.isSome)).conduct (vs ++ found.toOption.join.toList)
  | atom a next, vs => next.conduct (vs ++ [.atom a])
  | list ps next, vs =>
    .work (Datum.make (.list (ps.map (pick vs)))) fun r => next.conduct (vs ++ r.toOption.toList)
  | tuple ps next, vs =>
    .work (Datum.make (.tuple (ps.map (pick vs)))) fun r => next.conduct (vs ++ r.toOption.toList)
  | entry d k p next, vs =>
    .look fun h =>
      .work (Datum.make (.dict (h.setKey (.atom k) (pick vs p) (h.entriesOf (pick vs d)))))
        fun r => next.conduct (vs ++ r.toOption.toList)

/-- What a question is answered, in a context or without one. -/
def answer (q : Query) : Option (Context Value) → Except Failure Reply
  | some c => q.answer c
  | none => .error (.of Conduct.noSuchHandle)

/-- The handles of a call serve a recipe: there are none, or one that is live, on a cell that holds
the context `c`. -/
inductive Serves (own k : Nat) (w : World) : List Nat → Option Nat → Prop
  | none : Serves own k w [] none
  | lent {h c : Nat} (a : AtWork own k c [h] w.loans)
      (live : (w.loans.handleAt h).released = false) :
      Serves own k w [h] (some c)

end Recipe

/-- The context of a number, if there is one. -/
def World.lentContext (c : Option Nat) (w : World) : Option (Context Value) :=
  c.map w.loans.contextAt

/-- The world after writes to a context, if there is one. -/
def World.wrote (c : Option Nat) (ws : List Write) (w : World) : World :=
  match c with
  | none => w
  | some c => { w with loans := Loans.changeContext c (·.writeAll ws) w.loans }

theorem World.wrote_nil (c : Option Nat) (w : World) : w.wrote c [] = w := by
  cases c with
  | none => rfl
  | some c =>
    have hsame : Loans.changeContext c (·.writeAll []) w.loans = w.loans :=
      Loans.changeContext_eq_self fun _ => rfl
    rw [wrote, hsame]

theorem World.wrote_wrote (c : Option Nat) (ws vs : List Write) (w : World) :
    (w.wrote c ws).wrote c vs = w.wrote c (ws ++ vs) := by
  cases c with
  | none => rfl
  | some c =>
    rw [wrote, wrote, wrote, Loans.changeContext_changeContext]
    simp only [Context.writeAll_append]

theorem World.heap_wrote (c : Option Nat) (ws : List Write) (w : World) :
    (w.wrote c ws).heap = w.heap := by
  cases c <;> rfl

theorem World.lentContext_heap (c : Option Nat) (h : Heap) (w : World) :
    { w with heap := h }.lentContext c = w.lentContext c := by
  cases c <;> rfl

theorem World.wrote_heap (c : Option Nat) (ws : List Write) (h : Heap) (w : World) :
    { w with heap := h }.wrote c ws = { w.wrote c ws with heap := h } := by
  cases c <;> rfl

namespace Recipe

namespace Serves

variable {own k : Nat} {mine : List Nat} {c : Option Nat} {w : World}

theorem heap (a : Serves own k w mine c) (h : Heap) : Serves own k { w with heap := h } mine c := by
  cases a with
  | none => exact .none
  | lent a live => exact .lent a live

theorem wrote (a : Serves own k w mine c) (ws : List Write) :
    Serves own k (w.wrote c ws) mine c := by
  cases a with
  | none => exact .none
  | lent a live => exact .lent (a.changeContext _) live

theorem lentContext_wrote (a : Serves own k w mine c) (n : String) (v : Value) :
    (w.wrote c [(n, v)]).lentContext c = (w.lentContext c).map (·.set n v) := by
  cases a with
  | none => rfl
  | lent a live => exact congrArg some (Loans.contextAt_changeContext a.context_lt _)

/-- A question by the handle is answered by the context, and writes to it; without a handle it is
refused. -/
theorem exec_ask (a : Serves own k w mine c) (q : Query) :
    (Run.attempt (Conduct.reach mine 0 q.access)).exec w =
      (.ok (answer q (w.lentContext c)), w.wrote c q.writes) := by
  cases a with
  | none => rfl
  | @lent h c a live =>
    have hfree := a.free (List.mem_singleton_self h) live
    have hlock : (q.access h).exec w.loans =
        ((q.answer (w.loans.contextAt c)).mapError .failed,
          Loans.changeContext c (·.writeAll q.writes) w.loans) := by
      rw [Query.exec_access]
      exact Loans.exec_locking hfree (fun x => (q.answer x).mapError .failed)
        (fun _ y => y.writeAll q.writes) fun m _ => q.exec_inside c m
    have hreach : (Conduct.reach [h] 0 q.access).exec w =
        ((q.answer (w.loans.contextAt c)).mapError .failed, w.wrote (some c) q.writes) := by
      show (onLoans (q.access h)).exec w = _
      rw [onLoans, Run.exec_within, hlock]
      rfl
    rw [Run.exec_attempt, hreach]
    show _ = (Except.ok (q.answer (w.loans.contextAt c)), _)
    rcases q.answer (w.loans.contextAt c) with e | r <;> rfl

end Serves

theorem found_lookup (n : String) (c : Option (Context Value)) :
    found (answer (.lookup n) c) = c.bind (·.lookup? n) := by
  cases c with
  | none => rfl
  | some c =>
    rw [answer, Query.answer, Option.bind_some]
    rcases c.lookup? n with - | v <;> rfl

theorem told_names (c : Option (Context Value)) :
    told (answer .names c) = Name.texts ((c.map (·.names)).getD []) := by
  cases c <;> rfl

/-- Work that makes an object. -/
theorem exec_work_make (o : Object) (w : World) :
    (Run.attempt (onHeap (Datum.make o))).exec w =
      (.ok (.ok (w.heap.add o).1), { w with heap := (w.heap.add o).2 }) := rfl

/-- A recipe that is run does what it comes to: induction on the recipe. -/
theorem exec_conduct (d : Recipe) {own k : Nat} {mine : List Nat} {c : Option Nat} {w : World}
    (a : Serves own k w mine c) (vs : List Value) :
    ((d.conduct vs).run mine).exec w =
      ((d.perform vs w.heap (w.lentContext c)).1.mapError .failed,
        { w.wrote c (d.perform vs w.heap (w.lentContext c)).2.2 with
          heap := (d.perform vs w.heap (w.lentContext c)).2.1 }) := by
  induction d generalizing w vs with
  | give p =>
    rw [conduct, perform, Conduct.run, Run.exec_resume, World.wrote_nil]
  | raise e _ =>
    rw [conduct, perform, Conduct.run, Run.exec_resume, World.wrote_nil]
  | read n next ih =>
    have hask := a.exec_ask (.lookup n)
    rw [Query.writes, World.wrote_nil] at hask
    rw [conduct, perform, Conduct.run, Run.exec_bind_ok hask, found_lookup]
    exact ih _ a _
  | names next ih =>
    have hask := a.exec_ask .names
    rw [Query.writes, World.wrote_nil] at hask
    rw [conduct, perform, Conduct.run, Run.exec_bind_ok hask, told_names]
    exact ih _ a _
  | write n p next ih =>
    have hask := a.exec_ask (.set n (pick vs p))
    rw [conduct, perform, Conduct.run, Run.exec_bind_ok hask, Query.writes, ih (a.wrote _) vs,
      a.lentContext_wrote, World.heap_wrote, World.wrote_wrote]
    rfl
  | view p next ih =>
    rw [conduct, perform, Conduct.run, Run.exec_get_bind]
    exact ih _ a _
  | part p n next ih =>
    rw [conduct, perform, Conduct.run, Run.exec_get_bind]
    exact ih _ a _
  | member p s next ih =>
    rw [conduct, perform, Conduct.run, Run.exec_get_bind]
    exact ih _ a _
  | atom a' next ih =>
    rw [conduct, perform]
    exact ih a _
  | list ps next ih =>
    rw [conduct, perform, Conduct.run, Run.exec_bind_ok (exec_work_make ..), ih (a.heap _),
      World.lentContext_heap, World.wrote_heap]
    rfl
  | tuple ps next ih =>
    rw [conduct, perform, Conduct.run, Run.exec_bind_ok (exec_work_make ..), ih (a.heap _),
      World.lentContext_heap, World.wrote_heap]
    rfl
  | entry d k p next ih =>
    rw [conduct, perform, Conduct.run, Run.exec_get_bind, Conduct.run,
      Run.exec_bind_ok (exec_work_make ..), ih (a.heap _), World.lentContext_heap,
      World.wrote_heap]
    rfl

end Recipe

end Stencil
