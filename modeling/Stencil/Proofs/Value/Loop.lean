/-
Stencil/Proofs/Value/Loop.lean

A loop that is under way.  `RunsAt` says at which position the state of a loop
is, and over which list of how many items.  Making objects, and replacing
others, does not move it; going through it leaves it at the last item, and going
through anything else leaves it alone, so that it stays where it is just if it is
not gone through or is at the last item already (`RunsAt.itemsOf_iff`).  A filter
that does not go through it leaves it alone (`RunsAt.filter`).

What a loop tells of itself is then a matter of its position and the number of
its items (`loopFacts`).
-/
import Stencil.Proofs.Value.Drift
import Stencil.Value.Member

namespace Stencil

namespace Heap

variable {h h' : Heap} {i l p c : Nat}

/-- The object `i` is the state of a loop at the position `p`, over the list `l` of `c` items. -/
structure RunsAt (h : Heap) (i l p c : Nat) : Prop where
  state : h.get? i = some (.loop (some ⟨l, p⟩))
  list : ∃ xs, h.get? l = some (.list xs) ∧ xs.length = c

namespace RunsAt

theorem ne (runs : h.RunsAt i l p c) : i ≠ l := by
  rintro rfl
  obtain ⟨xs, e, -⟩ := runs.list
  cases runs.state.symm.trans e

theorem state_lt (runs : h.RunsAt i l p c) : i < h.objects.size := lt_size runs.state

theorem list_lt (runs : h.RunsAt i l p c) : l < h.objects.size := by
  obtain ⟨xs, e, -⟩ := runs.list
  exact lt_size e

theorem length_listItems (runs : h.RunsAt i l p c) : (h.listItems l).length = c := by
  obtain ⟨xs, e, hxs⟩ := runs.list
  rw [listItems, e]
  exact hxs

/-- Both objects are as they were. -/
theorem of_same (runs : h.RunsAt i l p c) (hi : h'.get? i = h.get? i) (hl : h'.get? l = h.get? l) :
    h'.RunsAt i l p c where
  state := hi.trans runs.state
  list := by
    rw [hl]
    exact runs.list

theorem add (runs : h.RunsAt i l p c) (o : Object) : (h.add o).2.RunsAt i l p c :=
  runs.of_same (Table.get?_add_of_lt o runs.state_lt) (Table.get?_add_of_lt o runs.list_lt)

/-- A loop begins. -/
theorem begins (h : Heap) (xs : List Value) :
    ((h.add (.list xs)).2.add (.loop (some ⟨h.objects.size, 0⟩))).2.RunsAt (h.objects.size + 1)
      h.objects.size 0 xs.length := by
  have hsize : (h.add (.list xs)).2.objects.size = h.objects.size + 1 := size_add ..
  refine ⟨?_, xs, ?_, rfl⟩
  · rw [get?_add, if_pos hsize.symm]
  · rw [get?_add, if_neg (by omega), get?_add, if_pos rfl]

/-- Another object is replaced. -/
theorem put {j : Nat} (runs : h.RunsAt i l p c) (hi : j ≠ i) (hl : j ≠ l) (o : Object) :
    (h.put j o).RunsAt i l p c :=
  runs.of_same (by rw [get?_put, if_neg hi]) (by rw [get?_put, if_neg hl])

/-- The loop is moved. -/
theorem turn (runs : h.RunsAt i l p c) (q : Nat) :
    (h.put i (.loop (some ⟨l, q⟩))).RunsAt i l q c where
  state := by rw [get?_put, if_pos rfl, runs.state, Option.map_some]
  list := by
    rw [get?_put, if_neg runs.ne]
    exact runs.list

/-- A loop that may be moved still runs over its list. -/
theorem drift (runs : h.RunsAt i l p c) (d : h.Drift h') : ∃ q, h'.RunsAt i l q c := by
  obtain ⟨q, e⟩ := d.loop runs.state
  obtain ⟨xs, el, hxs⟩ := runs.list
  obtain ⟨o, el', m⟩ := d l _ el
  cases m with
  | same => exact ⟨q, e, xs, el', hxs⟩

end RunsAt

/-! ### Going through items -/

/-- A loop is moved to an item, and then to those that follow. -/
theorem exec_visitLoop_cons (i l position : Nat) (v : Value) (rest : List Value) (h : Heap) :
    ((visitLoop i l (pure : Value → Run Heap Value) position (v :: rest)).exec h).2 =
      ((visitLoop i l (pure : Value → Run Heap Value) (position + 1) rest).exec
        (h.put i (.loop (some ⟨l, position⟩)))).2 := by
  rw [visitLoop, Run.exec_modify_bind, Run.exec_pure_bind, Run.exec_bind]
  split
  · next e =>
    rw [e]
    rfl
  · next e => rw [e]

namespace RunsAt

/-- Induction on the items that follow. -/
theorem visitLoop (runs : h.RunsAt i l p c) (xs : List Value) :
    ((visitLoop i l (pure : Value → Run Heap Value) (p + 1) xs).exec h).2.RunsAt i l (p + xs.length)
      c := by
  induction xs generalizing h p with
  | nil => exact runs
  | cons v rest ih =>
    have hrest := ih (runs.turn (p + 1))
    rwa [exec_visitLoop_cons, List.length_cons, Nat.add_comm rest.length, ← Nat.add_assoc]

/-- Going through a loop leaves it at its last item. -/
theorem itemsOf_self (runs : h.RunsAt i l p (c + 1)) :
    ((itemsOf (.object i)).exec h).2.RunsAt i l c (c + 1) := by
  obtain ⟨xs, e, hxs⟩ := runs.list
  obtain ⟨v, rest, rfl⟩ := List.exists_cons_of_length_eq_add_one hxs
  have hexec : ((itemsOf (.object i)).exec h).2 =
      ((Heap.visitLoop i l (pure : Value → Run Heap Value) 0 (v :: rest)).exec h).2 := by
    rw [itemsOf, forEach, Run.exec_get_bind]
    dsimp only
    rw [runs.state]
    dsimp only
    rw [listItems, e]
  obtain rfl : rest.length = c := Nat.succ.inj hxs
  have hrest := (runs.turn 0).visitLoop rest
  rw [Nat.zero_add rest.length] at hrest
  rwa [hexec, exec_visitLoop_cons]

end RunsAt

/-- An object that is there is as it was. -/
def SameAt (i : Nat) (h h' : Heap) : Prop := ∀ o, h.get? i = some o → h'.get? i = some o

instance (i : Nat) : IsPreorder Heap (SameAt i) where
  refl _ _ := id
  trans _ _ _ e e' o := e' o ∘ e o

theorem sameAt_add (i : Nat) (h : Heap) (o : Object) : SameAt i h (h.add o).2 :=
  fun _ e => (Table.get?_add_of_lt o (lt_size e)).trans e

theorem sameAt_put {j : Nat} (hne : j ≠ i) (o : Object) : SameAt i h (h.put j o) := by
  intro p e
  rw [get?_put, if_neg hne, e]

section Elsewhere

variable {β : Type} {f : Value → Run Heap β} (hf : ∀ v h, (f v).Keeps Eq h) {j : Nat} (hne : j ≠ i)
include hf hne

theorem sameAt_visitGenerator (xs : List Value) (h : Heap) :
    (visitGenerator j f xs).Keeps (SameAt i) h := by
  induction xs generalizing h with
  | nil => exact .pure trivial
  | cons v rest ih =>
    rw [visitGenerator]
    refine .modify_bind (sameAt_put hne _) (.looks_bind (hf v _) fun _ => ?_)
    exact .bind (ih _) fun _ _ _ _ => .pure trivial

theorem sameAt_visitLoop (l position : Nat) (xs : List Value) (h : Heap) :
    (visitLoop j l f position xs).Keeps (SameAt i) h := by
  induction xs generalizing h position with
  | nil => exact .pure trivial
  | cons v rest ih =>
    rw [visitLoop]
    refine .modify_bind (sameAt_put hne _) (.looks_bind (hf v _) fun _ => ?_)
    exact .bind (ih _ _) fun _ _ _ _ => .pure trivial

omit hne

/-- Going through something else leaves an object as it was. -/
theorem sameAt_forEach {v : Value} (hv : v ≠ .object i) (h : Heap) :
    (forEach v f).Keeps (SameAt i) h := by
  rw [forEach]
  apply Run.Leads.get_bind
  cases v with
  | atom a =>
    cases a with
    | str s => exact keeps_visit hf _ h
    | _ => exact .fail _
  | method v name => exact .fail _
  | object j =>
    have hne : j ≠ i := fun e => hv (congrArg Value.object e)
    dsimp only
    split
    · exact keeps_visit hf _ h
    · exact keeps_visit hf _ h
    · exact keeps_visit hf _ h
    · exact sameAt_visitGenerator hf hne _ h
    · exact sameAt_visitLoop hf hne _ _ _ h
    · exact .fail _
    · exact .fail _

end Elsewhere

namespace RunsAt

/-- What the loop runs over is a list, and lists do not change. -/
theorem of_drift (runs : h.RunsAt i l p c) (d : h.Drift h') (hsame : SameAt i h h') :
    h'.RunsAt i l p c := by
  obtain ⟨q, runs'⟩ := runs.drift d
  exact ⟨hsame _ runs.state, runs'.list⟩

/-- Going through the items of any value leaves a loop where it is; the loop itself, if it is at its
last item. -/
theorem itemsOf (runs : h.RunsAt i l p c) {v : Value} (hv : v = .object i → p + 1 = c) :
    ((Heap.itemsOf v).exec h).2.RunsAt i l p c := by
  by_cases he : v = .object i
  · subst he
    obtain rfl := hv rfl
    exact runs.itemsOf_self
  · exact runs.of_drift (keeps_itemsOf v h).state
      (sameAt_forEach (fun _ _ => .pure trivial) he h).state

/-- Only then does it stay where it is. -/
theorem itemsOf_iff (runs : h.RunsAt i l p c) (hp : p < c) (v : Value) :
    ((Heap.itemsOf v).exec h).2.RunsAt i l p c ↔ (v = .object i → p + 1 = c) := by
  refine ⟨fun runs' hv => ?_, runs.itemsOf⟩
  subst hv
  obtain ⟨c, rfl⟩ := Nat.exists_eq_add_one.mpr (Nat.zero_lt_of_lt hp)
  have hlast := Option.some.inj (runs'.state.symm.trans runs.itemsOf_self.state)
  exact congrArg (·.position + 1) (Option.some.inj (Object.loop.inj hlast))

/-- A filter that does not go through the loop leaves it where it is. -/
theorem filter (runs : h.RunsAt i l p c) {f : Filter} {args : List Value}
    (hf : ¬ f.GoesThrough args (.object i)) : ((f.apply args).exec h).2.RunsAt i l p c := by
  have hsame : (f.apply args).Keeps (SameAt i) h :=
    Filter.keeps_apply (sameAt_add i) (fun _ _ _ => id) f args fun v hv _ _ hg =>
      sameAt_forEach hg fun e => hf (e ▸ hv)
  exact runs.of_drift (f.drift_apply args h).state hsame.state

end RunsAt

end Heap

/-! ### What a loop tells -/

/-- What a loop over `n` items tells of itself in the round `k`, counted from zero. -/
def loopFacts (k n : Nat) : List (String × Value) :=
  [("index", .nat (k + 1)), ("index0", .nat k), ("first", .bool (k == 0)),
    ("last", .bool (k + 1 == n)), ("length", .nat n)]

/-- A loop tells where it is. -/
theorem Heap.RunsAt.member? {h : Heap} {i l k n : Nat} (runs : h.RunsAt i l k n)
    {fact : String × Value} (hfact : fact ∈ loopFacts k n) :
    h.member? (.object i) fact.1 = .ok (some fact.2) := by
  have hattribute : LoopState.attribute? h (.object i) ⟨l, k⟩ fact.1 = some fact.2 := by
    simp only [loopFacts, List.mem_cons, List.not_mem_nil, or_false] at hfact
    rcases hfact with rfl | rfl | rfl | rfl | rfl <;>
      simp only [LoopState.attribute?, runs.length_listItems]
  rw [Heap.member?, attribute?, runs.state]
  dsimp only
  rw [hattribute]
  rfl

end Stencil
