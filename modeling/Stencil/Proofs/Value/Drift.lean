/-
Stencil/Proofs/Value/Drift.lean

What a render does to values that are there.  It makes new ones, moves loops
to other items, and uses up generators; to all others it does nothing.  A heap
*drifts* when no more than that happens to it.  Filters do no more, whatever they
are applied to (`Filter.drift_apply`).

A drift can be seen in a value just if a loop that is reached from it was
moved, or a generator used (`Heap.Drift.sight_iff`).

A clone function may be foreign code.  What every clone leaves, a copy of a
context leaves (`Clone.Preserves.copyWith`).
-/
import Stencil.Filter
import Stencil.Proofs.Scope.Copy
import Stencil.Proofs.Value.Filling
import Stencil.Render.Reclaim

namespace Stencil

/-- What may become of an object. -/
inductive Object.Moves : Object → Object → Prop
  | same (o : Object) : Moves o o
  | loop (l : LoopState) (position : Nat) : Moves (loop (some l)) (loop (some { l with position }))
  | generator {xs ys : List Value} (h : ys <:+ xs) : Moves (generator xs) (generator ys)

namespace Object.Moves

variable {o o' o'' : Object}

theorem trans (m : Moves o o') (m' : Moves o' o'') : Moves o o'' := by
  cases m with
  | same => exact m'
  | loop l p =>
    cases m' with
    | same => exact .loop l p
    | loop _ q => exact .loop l q
  | generator h =>
    cases m' with
    | same => exact .generator h
    | generator h' => exact .generator (h'.trans h)

/-- An object that looks as before is as before. -/
theorem eq_of_shape (m : Moves o o') {i : Nat} (hshape : o'.shape i = o.shape i)
    (hlen : o'.parts.length = o.parts.length) : o' = o := by
  cases m with
  | same => rfl
  | loop l p =>
    have hp : p = l.position := by
      injection hshape with h
      exact Option.some.inj h
    rw [hp]
  | generator h => rw [h.eq_of_length hlen]

end Object.Moves

namespace Heap

variable {h h' h'' : Heap}

/-- Whatever is there stays, but loops may be moved and generators used up. -/
def Drift (h h' : Heap) : Prop :=
  ∀ i o, h.get? i = some o → ∃ o', h'.get? i = some o' ∧ o.Moves o'

namespace Drift

theorem refl (h : Heap) : h.Drift h := fun _ o e => ⟨o, e, .same o⟩

theorem trans (d : h.Drift h') (d' : h'.Drift h'') : h.Drift h'' := by
  intro i o e
  obtain ⟨o', e', m⟩ := d i o e
  obtain ⟨o'', e'', m'⟩ := d' i o' e'
  exact ⟨o'', e'', m.trans m'⟩

instance : IsPreorder Heap Drift where
  refl := refl
  trans _ _ _ := trans

/-- Rows that are there stay as they are. -/
theorem of_same (hs : ∀ i o, h.get? i = some o → h'.get? i = some o) : h.Drift h' :=
  fun i o e => ⟨o, hs i o e, .same o⟩

theorem add (h : Heap) (o : Object) : h.Drift (h.add o).2 :=
  of_same fun _ _ e => (Table.get?_add_of_lt _ (lt_size e)).trans e

theorem size_le (d : h.Drift h') : h.objects.size ≤ h'.objects.size := by
  refine Nat.not_lt.mp fun hlt => ?_
  obtain ⟨o, e⟩ := Table.exists_get? hlt
  obtain ⟨o', e', -⟩ := d _ o e
  exact Nat.lt_irrefl _ (lt_size e')

/-- One object moves. -/
theorem put {i : Nat} {o o' : Object} (e : h.get? i = some o) (m : o.Moves o') :
    h.Drift (h.put i o') := by
  intro j p ep
  rw [get?_put, ep]
  split
  · next same =>
    subst same
    obtain rfl := Option.some.inj (e.symm.trans ep)
    exact ⟨o', rfl, m⟩
  · exact ⟨p, rfl, .same p⟩

/-- A loop goes on over the same list. -/
theorem loop (d : h.Drift h') {i items p : Nat}
    (e : h.get? i = some (.loop (some ⟨items, p⟩))) :
    ∃ q, h'.get? i = some (.loop (some ⟨items, q⟩)) := by
  obtain ⟨o', e', m⟩ := d i _ e
  cases m with
  | same => exact ⟨p, e'⟩
  | loop _ q => exact ⟨q, e'⟩

/-- What is seen of a value stays the same just if nothing that is reached from it is moved: one
direction is induction on how an object is reached. -/
theorem sight_iff (d : h.Drift h') (v : Value) :
    h'.sight v = h.sight v ↔ ∀ i, h.Reaches v i → h'.get? i = h.get? i := by
  constructor
  · intro hs i r
    induction r with
    | self i =>
      rcases e : h.get? i with - | o
      · -- where there was nothing, nothing is seen now
        rcases e' : h'.get? i with - | o'
        · rfl
        · have h₁ := congrFun hs 1
          rw [sight, sight, glimpse_object e', glimpse, e] at h₁
          have hshape := (Glimpse.node.inj h₁).1
          cases o' <;> cases hshape
      · obtain ⟨o', e', m⟩ := d i o e
        obtain ⟨hshape, hparts⟩ := sight_object_inj e' e hs
        have hlen := congrArg List.length hparts
        rw [List.length_map, List.length_map] at hlen
        rw [e', m.eq_of_shape hshape hlen]
    | @part i j o v e hv r ih =>
      obtain ⟨o', e', m⟩ := d i o e
      obtain ⟨hshape, hparts⟩ := sight_object_inj e' e hs
      have hlen := congrArg List.length hparts
      rw [List.length_map, List.length_map] at hlen
      rw [m.eq_of_shape hshape hlen] at hparts
      exact ih (List.map_inj_left.mp hparts v hv)
    | cycle r ih => exact ih (sight_cycle_inj hs)
  · intro hsame
    funext n
    exact glimpse_congr hsame n

end Drift

/-! ### Iteration -/

section Iteration

variable {β : Type} {f : Value → Run Heap β}

theorem keeps_visit {R : Heap → Heap → Prop} [IsPreorder Heap R]
    (hf : ∀ v h, (f v).Keeps Eq h) (xs : List Value) (h : Heap) : (visit f xs).Keeps R h := by
  induction xs with
  | nil => exact .pure trivial
  | cons v rest ih =>
    rw [visit]
    exact .looks_bind (hf v h) fun _ => .bind ih fun _ _ _ _ => .pure trivial

/-- Induction on the items: those that are left are the last ones of those that were. -/
theorem keeps_visitGenerator (hf : ∀ v h, (f v).Keeps Eq h) {i : Nat} {xs ys : List Value}
    (e : h.get? i = some (.generator xs)) (hys : ys <:+ xs) :
    (visitGenerator i f ys).Keeps Drift h := by
  induction ys generalizing h xs with
  | nil => exact .pure trivial
  | cons v rest ih =>
    have hrest : rest <:+ xs := (List.suffix_cons v rest).trans hys
    have e' : (h.put i (.generator rest)).get? i = some (.generator rest) := by
      rw [get?_put, if_pos rfl, e, Option.map_some]
    rw [visitGenerator]
    refine .modify_bind (.put e (.generator hrest)) (.looks_bind (hf v _) fun _ => ?_)
    exact .bind (ih e' (List.suffix_refl rest)) fun _ _ _ _ => .pure trivial

theorem keeps_visitLoop (hf : ∀ v h, (f v).Keeps Eq h) {i items p : Nat}
    (e : h.get? i = some (.loop (some ⟨items, p⟩))) (position : Nat) (xs : List Value) :
    (visitLoop i items f position xs).Keeps Drift h := by
  induction xs generalizing h p position with
  | nil => exact .pure trivial
  | cons v rest ih =>
    have e' : (h.put i (.loop (some ⟨items, position⟩))).get? i
        = some (.loop (some ⟨items, position⟩)) := by
      rw [get?_put, if_pos rfl, e, Option.map_some]
    rw [visitLoop]
    refine .modify_bind (.put e (.loop ⟨items, p⟩ position)) (.looks_bind (hf v _) fun _ => ?_)
    exact .bind (ih e' (position + 1)) fun _ _ _ _ => .pure trivial

/-- Going through a value, and only looking at its items, uses up a generator or moves a loop. -/
theorem keeps_forEach (hf : ∀ v h, (f v).Keeps Eq h) (v : Value) (h : Heap) :
    (forEach v f).Keeps Drift h := by
  rw [forEach]
  apply Run.Leads.get_bind
  cases v with
  | atom a =>
    cases a with
    | str s => exact keeps_visit hf _ h
    | _ => exact .fail _
  | method v name => exact .fail _
  | object i =>
    dsimp only
    split
    · exact keeps_visit hf _ h
    · exact keeps_visit hf _ h
    · exact keeps_visit hf _ h
    · next e => exact keeps_visitGenerator hf e (List.suffix_refl _)
    · next e => exact keeps_visitLoop hf e 0 _
    · exact .fail _
    · exact .fail _

end Iteration

/-- Going through the items of a value uses up a generator or moves a loop. -/
theorem keeps_itemsOf (v : Value) (h : Heap) : (itemsOf v).Keeps Drift h :=
  keeps_forEach (fun _ _ => .pure trivial) v h

end Heap

/-! ### Filters -/

namespace Filter

/-- The filter goes through its first argument. -/
def GoesThrough (f : Filter) (args : List Value) (v : Value) : Prop :=
  (f = join ∨ f = asList) ∧ args.head? = some v

variable {R : Heap → Heap → Prop} [IsPreorder Heap R] {h : Heap}

theorem keeps_textOf (v : Value) (h : Heap) : (textOf v).Keeps Eq h := .get_bind (.ofExcept _)

theorem keeps_double (hadd : ∀ (h : Heap) o, R h (h.add o).2)
    (hunnumbers : ∀ (h : Heap) n, R h { h with unnumbers := n }) (v : Value) (h : Heap) :
    (double v).Keeps R h := by
  refine .get_bind ?_
  split
  · exact .pure trivial
  · exact .pure trivial
  · exact .set_bind (hunnumbers h _) (.pure trivial)
  · exact .pure trivial
  · exact .pure trivial
  · exact .set_bind (hadd h _) (.pure trivial)
  · exact .pure trivial
  · exact .set_bind (hadd h _) (.pure trivial)
  · exact .fail _

theorem keeps_joined {v : Value}
    (hgo : ∀ h : Heap, (Heap.forEach v textOf).Keeps R h) (separator : Value) (h : Heap) :
    (joined v separator).Keeps R h := by
  rw [joined.eq_def]
  split
  · exact .bind (hgo h) fun _ _ _ _ => .pure trivial
  · refine .get_bind (.bind (.ofExcept _) fun _ _ _ _ => ?_)
    exact .bind (.ofExcept _) fun _ _ _ _ => .fail _

theorem keeps_raised (kind message : Value) (h : Heap) : (raised kind message).Keeps R h := by
  refine .looks_bind (keeps_textOf kind h) fun kind => ?_
  split
  · exact .fail _
  · exact .get_bind (.bind (.ofExcept _) fun _ _ _ _ => .fail _)

/-- What filters do to a heap: they make objects, and may go through the first argument. -/
theorem keeps_apply (hadd : ∀ (h : Heap) o, R h (h.add o).2)
    (hunnumbers : ∀ (h : Heap) n, R h { h with unnumbers := n }) (f : Filter) (args : List Value)
    (hgo : ∀ v, f.GoesThrough args v → ∀ {β : Type} (g : Value → Run Heap β),
      (∀ v h, (g v).Keeps Eq h) → ∀ h : Heap, (Heap.forEach v g).Keeps R h) :
    (f.apply args).Keeps R h := by
  have happlyTo : ∀ v rest, args = v :: rest → (f.applyTo v rest).Keeps R h := by
    rintro v rest rfl
    cases f with
    | upper | lower | title | trim =>
      exact .looks_bind (keeps_textOf v h) fun _ => .pure trivial
    | length => exact .get_bind (.bind (.ofExcept _) fun _ _ _ _ => .pure trivial)
    | default | typeName => exact .get_bind (.pure trivial)
    | join => exact keeps_joined (hgo v ⟨.inl rfl, rfl⟩ textOf keeps_textOf) _ h
    | display => exact .get_bind (.bind (.ofExcept _) fun _ _ _ _ => .pure trivial)
    | twice => exact keeps_double hadd hunnumbers v h
    | half => exact .get_bind (.fail _)
    | fail => exact keeps_raised _ _ h
    | asList =>
      refine .bind (hgo v ⟨.inr rfl, rfl⟩ pure (fun _ _ => .pure trivial) h) fun _ h' _ _ => ?_
      exact .get_bind (.set_bind (hadd h' _) (.pure trivial))
  rw [apply.eq_def]
  split
  · exact .pure trivial
  · exact .fail _
  · split
    · exact .fail _
    · exact happlyTo _ _ rfl
  · exact happlyTo _ _ rfl

/-- A filter uses up a generator or moves a loop. -/
theorem drift_apply (f : Filter) (args : List Value) (h : Heap) :
    (f.apply args).Keeps Heap.Drift h :=
  keeps_apply .add (fun _ _ => .of_same fun _ _ e => e) f args fun v _ _ _ hg =>
    Heap.keeps_forEach hg v

end Filter

/-! ### Copies -/

namespace Copying

variable {n : Nat} {s s' : Copying} {copy : Value → Run Copying Value}

/-- Objects are made, and none of the first `n` is changed. -/
def Beyond (n : Nat) (s s' : Copying) : Prop :=
  s.heap.objects.size ≤ s'.heap.objects.size ∧ ∀ i, i < n → s'.heap.get? i = s.heap.get? i

instance (n : Nat) : IsPreorder Copying (Beyond n) where
  refl _ := ⟨Nat.le_refl _, fun _ _ => rfl⟩
  trans _ _ _ h h' := ⟨Nat.le_trans h.1 h'.1, fun i hi => (h'.2 i hi).trans (h.2 i hi)⟩

theorem Beyond.size_le (b : Beyond n s s') (hn : n ≤ s.heap.objects.size) :
    n ≤ s'.heap.objects.size := Nat.le_trans hn b.1

theorem Beyond.put {j : Nat} (hj : n ≤ j) (o : Object) :
    Beyond n s { s with heap := s.heap.put j o } where
  left := Nat.le_of_eq (Heap.size_put ..).symm
  right i hi := by
    show (s.heap.put j o).get? i = _
    rw [Heap.get?_put, if_neg (Nat.ne_of_gt (Nat.lt_of_lt_of_le hi hj))]

/-- What is made is beyond what was there. -/
theorem leads_begin (hn : n ≤ s.heap.objects.size) (i : Nat) (o : Object) :
    (begin i o).Leads (Beyond n) s fun _ j => n ≤ j := by
  refine .of_ok (exec_begin i o s) ⟨?_, fun k hk => ?_⟩ hn
  · exact Nat.le_of_lt (Nat.lt_of_lt_of_eq (Nat.lt_succ_self _) (Heap.size_add ..).symm)
  · rw [get?_begunAt, if_neg (Nat.ne_of_lt (Nat.lt_of_lt_of_le hk hn))]

/-- The first `n` objects are there. -/
def There (n : Nat) (s : Copying) : Prop := n ≤ s.heap.objects.size

theorem replaces_beyond {j : Nat} (hj : n ≤ j) : Replaces (Beyond n) (There n) j :=
  fun _ o hs => ⟨.put hj o, (Beyond.put hj o).size_le hs⟩

/-- A copy is begun beyond what was there, and then filled. -/
theorem keeps_begin (hs : There n s) (i : Nat) (o : Object) {fill : Nat → Run Copying Unit}
    (hfill : ∀ j (s' : Copying), n ≤ j → There n s' →
      (fill j).Leads (Beyond n) s' fun t _ => There n t) :
    (do let j ← begin i o; fill j; return .object j : Run Copying Value).Leads (Beyond n) s
      fun s' _ => There n s' := by
  refine .bind (leads_begin hs i o) fun j s' b hj => ?_
  exact .bind (hfill j s' hj (b.size_le hs)) fun _ _ _ h => .pure h

theorem keeps_copyObject (along : Along (Beyond n) (There n) copy) (i : Nat) (o : Option Object)
    (hs : There n s) : (copyObject copy i o).Leads (Beyond n) s fun s' _ => There n s' := by
  rcases o with - | o
  · exact .pure hs
  have hlast : ∀ {s : Copying} (o : Object), There n s →
      (do let j ← begin i o; return .object j : Run Copying Value).Leads (Beyond n) s
        fun s' _ => There n s' := fun o hs =>
    .bind (leads_begin hs i o) fun _ _ b _ => .pure (b.size_le hs)
  cases o with
  | list xs =>
    exact keeps_begin hs i (.list []) fun j s' hj h => leads_fillList along (replaces_beyond hj) xs h
  | dict es =>
    exact keeps_begin hs i (.dict []) fun j s' hj h => leads_fillDict along (replaces_beyond hj) es h
  | tuple xs =>
    rw [copyObject]
    refine .bind (leads_copyAll along xs hs) fun ys s' _ h => .get_bind ?_
    split
    · exact .pure h
    · split
      · exact .pure h
      · exact hlast _ h
  | thing t =>
    rw [copyObject_thing]
    exact keeps_begin hs i _ fun j s' hj h => leads_fillThing along (replaces_beyond hj) t h
  | loop l =>
    rcases l with - | l
    · exact hlast _ hs
    · rw [copyObject_loop]
      exact keeps_begin hs i _ fun j s' hj h => leads_fillLoop along (replaces_beyond hj) l h
  | generator xs => exact .fail _
  | sealed text => exact .fail _

/-- Induction on the depth. -/
theorem along_deepCopyIn (n depth : Nat) : Along (Beyond n) (There n) (deepCopyIn depth) := by
  induction depth with
  | zero =>
    intro v s hs
    cases v with
    | atom a => exact .pure hs
    | _ => exact .fail _
  | succ depth ih =>
    intro v s hs
    cases v with
    | atom a => exact .pure hs
    | method v name =>
      rw [deepCopyIn]
      split
      · exact .bind (ih v s hs) fun _ _ _ h => .pure h
      · exact .pure hs
    | object i =>
      rw [deepCopyIn]
      refine .get_bind ?_
      split
      · exact .pure hs
      · exact keeps_copyObject ih i _ hs

theorem along_deepCopy (n : Nat) : Along (Beyond n) (There n) deepCopy :=
  fun v s hs => .get_bind (along_deepCopyIn n _ v s hs)

/-- Whatever the rule for cloning, what was there stays as it was. -/
theorem along_apply (n : Nat) (rule : CloneRule) : Along (Beyond n) (There n) rule.apply := by
  intro v s hs
  have hmake : ∀ o, (make o).Leads (Beyond n) s fun s' _ => There n s' := fun o => by
    have hsize : s.heap.objects.size ≤ (s.heap.add o).2.objects.size :=
      Nat.le_trans (Nat.le_succ _) (Nat.le_of_eq (Heap.size_add ..).symm)
    refine .of_ok rfl ⟨hsize, fun i hi => ?_⟩ (Nat.le_trans hs hsize)
    exact Table.get?_add_of_lt o (Nat.lt_of_lt_of_le hi hs)
  cases rule with
  | deep => exact along_deepCopy n v s hs
  | identity => exact .pure hs
  | picky =>
    refine .get_bind ?_
    split
    · exact .fail _
    · exact hmake _
    · exact hmake _
    · exact .pure hs
  | logged => exact .modify_bind ⟨Nat.le_refl _, fun _ _ => rfl⟩ (along_deepCopy n v _ hs)

theorem drift_apply (rule : CloneRule) (v : Value) (s : Copying) :
    s.heap.Drift ((rule.apply v).exec s).2.heap :=
  .of_same fun i _ e =>
    ((along_apply _ rule v s (Nat.le_refl _)).state.2 i (Heap.lt_size e)).trans e

end Copying

/-! ### Copies of contexts -/

/-- A clone function leaves a property of the heap, whatever it is given and however it ends. -/
def Clone.Preserves (P : Heap → Prop) (clone : Clone) : Prop :=
  ∀ v (s : Copying), P s.heap → P ((clone v).exec s).2.heap

namespace Copying

variable {P : Heap → Prop} {clone : Clone} {s : Copying}

/-- A property of the heap is left. -/
def Leaves (P : Heap → Prop) (s s' : Copying) : Prop := P s.heap → P s'.heap

instance (P : Heap → Prop) : IsPreorder Copying (Leaves P) where
  refl _ := id
  trans _ _ _ h h' := h' ∘ h

theorem leaves_recordSharing (name : Name) (v : Value) (e : Failure) :
    (recordSharing name v e).Keeps (Leaves P) s := by
  refine .get_bind ?_
  rcases s.heap.text name.value with f | text
  · exact .of_error rfl (refl_of (Leaves P) s)
  · exact .of_exec rfl id fun _ _ => trivial

theorem replacing_leaves (p : clone.Preserves P) :
    Replacing clone recordSharing (fun _ => True) (Leaves P) fun _ _ _ => True where
  keeps _ _ _ _ _ _ := trivial
  clones name v s _ := by
    refine .catching ⟨p v s, fun _ _ _ => ⟨trivial, trivial⟩⟩ fun f s' _ => ?_
    exact .bind (leaves_recordSharing name v f) fun _ _ _ _ => .pure ⟨trivial, trivial⟩

end Copying

/-- A copy of a context leaves what its clones leave, however it ends. -/
theorem Clone.Preserves.copyWith {P : Heap → Prop} {clone : Clone} (p : clone.Preserves P)
    (c : Context Value) {s : Copying} (hP : P s.heap) :
    P ((c.copyWith clone recordSharing).exec s).2.heap :=
  ((Copying.replacing_leaves p).context c trivial).state hP

/-- Whatever the rule for cloning, the heap drifts. -/
theorem Copying.drift_copyWith (rule : CloneRule) (c : Context Value) (s : Copying) :
    s.heap.Drift ((c.copyWith rule.apply recordSharing).exec s).2.heap :=
  Clone.Preserves.copyWith (fun v s' d => d.trans (drift_apply rule v s')) c (refl_of Heap.Drift _)

end Stencil
