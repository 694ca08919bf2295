/-
Stencil/Proofs/Value/Graph.lean

Graphs of lists, dictionaries and tuples, with any sharing and any cycles.  A
tuple is made after its items, so a cycle goes through a list or a dictionary
(`Heap.Made`).

No deep copy of a graph fails.  On the way down a list or a dictionary is met
at most once, because it is in the memo before its parts are copied; between two
of them there are only tuples, and these have an end.  So the depth that is
needed is bounded by the lists and dictionaries that are not in the memo yet,
times the nesting of tuples (`Copying.manages_deepCopyIn`).
-/
import Stencil.Proofs.Value.Copy
import Stencil.Proofs.Value.Plain

namespace Stencil

/-! ### Graphs -/

/-- Whether an object is a list or a dictionary, which can be changed in place. -/
def Object.isMutable : Object → Bool
  | list _ | dict _ => true
  | tuple _ | generator _ | sealed _ | thing _ | loop _ => false

/-- An object without what it may change. -/
def Object.hollow (o : Object) : Object := if o.isMutable then .list [] else o

namespace Heap

variable {h : Heap} {i j : Nat} {v p : Value} {o : Object}

/-- The value is an atom, a list, a dictionary, or a tuple of such values. -/
inductive Made (h : Heap) : Value → Prop
  | atom (a : Atom) : Made h (.atom a)
  | mutable {i : Nat} {o : Object} (e : h.get? i = some o) (ho : o.isMutable = true) :
      Made h (.object i)
  | tuple {i : Nat} {xs : List Value} (e : h.get? i = some (.tuple xs))
      (hxs : ∀ v ∈ xs, Made h v) : Made h (.object i)

theorem Made.closed (m : h.Made v) : h.Closed v := by
  cases m with
  | atom a => exact trivial
  | mutable e _ | tuple e _ => exact lt_size e

/-- Everything that is reached from the value is a list, a dictionary or a tuple. -/
structure Graph (h : Heap) (v : Value) : Prop where
  made : h.Made v
  parts : ∀ i o, h.Reaches v i → h.get? i = some o → ∀ p ∈ o.parts, h.Made p

theorem Graph.part (g : h.Graph (.object i)) (e : h.get? i = some o) (hp : p ∈ o.parts) :
    h.Graph p where
  made := g.parts i o (.self i) e p hp
  parts j q r := g.parts j q (.part e hp r)

/-- The number is that of a list or a dictionary. -/
def Mutable (h : Heap) (i : Nat) : Prop := ∃ o, h.get? i = some o ∧ o.isMutable = true

/-! ### Tuples in tuples -/

/-- The heap with nothing in its lists and dictionaries. -/
def hollow (h : Heap) : Heap := ⟨⟨h.objects.rows.map Object.hollow⟩, h.unnumbers⟩

theorem get?_hollow (h : Heap) (i : Nat) : h.hollow.get? i = (h.get? i).map Object.hollow :=
  Array.getElem?_map ..

theorem size_hollow (h : Heap) : h.hollow.objects.size = h.objects.size := Array.size_map ..

/-- Without what is in lists and dictionaries, graphs are plain data. -/
theorem Made.plain (m : h.Made v) : h.hollow.Plain v := by
  induction m with
  | atom a => exact .atom a
  | @mutable i o e ho =>
    have e' : h.hollow.get? i = some (.list []) := by
      rw [get?_hollow, e, Option.map_some, Object.hollow, if_pos ho]
    exact .object e' rfl nofun nofun
  | @tuple i xs e _ ih =>
    have e' : h.hollow.get? i = some (.tuple xs) := by
      rw [get?_hollow, e]
      rfl
    exact .object e' rfl nofun ih

/-- How deep tuples are nested in an object. -/
noncomputable def nesting (h : Heap) (i : Nat) : Nat := h.hollow.rank i

theorem Made.nesting_lt (m : h.Made (.object i)) : h.nesting i < h.objects.size := by
  rw [← size_hollow]
  exact m.plain.rank_lt

/-- The items of a tuple are nested less deep. -/
theorem Made.nesting_item (m : h.Made (.object i)) {xs : List Value}
    (e : h.get? i = some (.tuple xs)) (hj : .object j ∈ xs) : h.nesting j < h.nesting i := by
  have e' : h.hollow.get? i = some (.tuple xs) := by
    rw [get?_hollow, e]
    rfl
  exact m.plain.rank_part e' hj

end Heap

/-! ### Copies that succeed -/

namespace Copying

variable {α β : Type} {h : Heap} {s s' : Copying} {m n : Nat}

/-- The originals are as they were. -/
structure Intact (h : Heap) (s : Copying) : Prop where
  size_le : h.objects.size ≤ s.heap.objects.size
  originals : ∀ i, i < h.objects.size → s.heap.get? i = h.get? i

theorem Underway.intact (u : Underway h s) : Intact h s := ⟨u.size_le, u.originals⟩

open Classical in
/-- The lists and dictionaries that the memo does not hold. -/
noncomputable def unmet (h : Heap) (s : Copying) : Finset Nat :=
  (Finset.range h.objects.size).filter fun i => h.Mutable i ∧ s.memo.lookup i = none

theorem mem_unmet {i : Nat} : i ∈ unmet h s ↔ h.Mutable i ∧ s.memo.lookup i = none := by
  classical
  rw [unmet, Finset.mem_filter, Finset.mem_range]
  exact and_iff_right_of_imp fun hi => hi.1.elim fun o ho => Heap.lt_size ho.1

theorem card_unmet_le (h : Heap) (s : Copying) : (unmet h s).card ≤ h.objects.size := by
  classical
  rw [unmet]
  exact (Finset.card_filter_le _ _).trans_eq (Finset.card_range _)

/-- A run succeeds from wherever at most `m` lists and dictionaries are not in the memo. -/
def Manages (h : Heap) (m : Nat) (act : Run Copying α) : Prop :=
  ∀ s, Intact h s → (unmet h s).card ≤ m →
    ∃ a s', act.exec s = (.ok a, s') ∧ Intact h s' ∧ (unmet h s').card ≤ m

namespace Manages

variable {act : Run Copying α}

theorem pure (a : α) : Manages h m (pure a) := fun s hs hm => ⟨a, s, rfl, hs, hm⟩

theorem bind {f : α → Run Copying β} (hact : Manages h m act) (hf : ∀ a, Manages h m (f a)) :
    Manages h m (act >>= f) := by
  intro s hs hm
  obtain ⟨a, s₁, e, hs₁, hm₁⟩ := hact s hs hm
  obtain ⟨b, s₂, e', hs₂, hm₂⟩ := hf a s₁ hs₁ hm₁
  exact ⟨b, s₂, (Run.exec_bind_ok e).trans e', hs₂, hm₂⟩

/-- A new object changes. -/
theorem put {j : Nat} (hj : h.objects.size ≤ j) (o : Copying → Object) :
    Manages h m (modify fun s => { s with heap := s.heap.put j (o s) }) := by
  refine fun s hs hm => ⟨⟨⟩, _, rfl, ⟨?_, fun i hi => ?_⟩, hm⟩
  · show _ ≤ (s.heap.put j (o s)).objects.size
    rw [Heap.size_put]
    exact hs.size_le
  · show (s.heap.put j (o s)).get? i = _
    rw [Heap.get?_put, if_neg (Nat.ne_of_gt (Nat.lt_of_lt_of_le hi hj)), hs.originals i hi]

end Manages

theorem Intact.begunAt (hs : Intact h s) (i : Nat) (o : Object) : Intact h (s.begunAt i o) where
  size_le := by
    show _ ≤ (s.heap.add o).2.objects.size
    rw [Heap.size_add]
    exact Nat.le_succ_of_le hs.size_le
  originals j hj := by
    rw [get?_begunAt, if_neg (Nat.ne_of_lt (Nat.lt_of_lt_of_le hj hs.size_le)), hs.originals j hj]

theorem unmet_begunAt (i : Nat) (o : Object) (s : Copying) :
    unmet h (s.begunAt i o) = (unmet h s).erase i := by
  ext j
  rw [Finset.mem_erase, mem_unmet, mem_unmet, lookup_begunAt]
  by_cases hj : j = i
  · simp [hj]
  · simp [hj]

/-! ### Parts -/

section Parts

variable {copy : Value → Run Copying Value}

theorem manages_copyAll {xs : List Value} (hxs : ∀ v ∈ xs, Manages h m (copy v)) :
    Manages h m (copyAll copy xs) := by
  induction xs with
  | nil => exact .pure []
  | cons v rest ih =>
    refine (hxs v (.head _)).bind fun w => ?_
    exact (ih fun x hx => hxs x (.tail _ hx)).bind fun ws => .pure _

theorem manages_fillList {j : Nat} (hj : h.objects.size ≤ j) {xs : List Value}
    (hxs : ∀ v ∈ xs, Manages h m (copy v)) : Manages h m (fillList copy j xs) := by
  induction xs with
  | nil => exact .pure ()
  | cons v rest ih =>
    refine (hxs v (.head _)).bind fun w => (Manages.put hj _).bind fun _ => ?_
    exact ih fun x hx => hxs x (.tail _ hx)

theorem manages_fillDict {j : Nat} (hj : h.objects.size ≤ j) {es : List (Value × Value)}
    (hes : ∀ e ∈ es, Manages h m (copy e.1) ∧ Manages h m (copy e.2)) :
    Manages h m (fillDict copy j es) := by
  induction es with
  | nil => exact .pure ()
  | cons e rest ih =>
    refine (hes e (.head _)).2.bind fun w => (hes e (.head _)).1.bind fun l => ?_
    exact (Manages.put hj _).bind fun _ => ih fun x hx => hes x (.tail _ hx)

end Parts

/-! ### Objects -/

/-- The depth that is enough to copy a value while at most `m` lists and dictionaries are not in the
memo. -/
noncomputable def enough (h : Heap) (m : Nat) : Value → Nat
  | .object i => m * (h.objects.size + 1) + h.nesting i + 1
  | .atom _ | .method _ _ => 0

theorem enough_le (h : Heap) (m : Nat) {v : Value} (hv : h.Made v) :
    enough h m v ≤ m * (h.objects.size + 1) + h.objects.size := by
  cases v with
  | object i =>
    have hlt := hv.nesting_lt
    rw [enough]
    omega
  | atom _ | method _ _ => exact Nat.zero_le _

section Objects

variable {copy : Value → Run Copying Value} {i : Nat} {o : Object}

/-- A list or a dictionary is in the memo when it is filled, and then one less is not. -/
theorem manages_begin (o : Object) (fill : Nat → Run Copying Unit) (hi : h.Mutable i)
    (hs : Intact h s) (hm : (unmet h s).card ≤ m) (hnone : s.memo.lookup i = none)
    (hfill : ∀ n j, m = n + 1 → h.objects.size ≤ j → Manages h n (fill j)) :
    ∃ w s', (do let j ← begin i o; fill j; return Value.object j : Run Copying Value).exec s
      = (.ok w, s') ∧ Intact h s' ∧ (unmet h s').card ≤ m := by
  have hmem : i ∈ unmet h s := mem_unmet.mpr ⟨hi, hnone⟩
  have hcard := Finset.card_erase_add_one hmem
  rw [← unmet_begunAt i o] at hcard
  obtain ⟨n, rfl⟩ : ∃ n, m = n + 1 := ⟨m - 1, by omega⟩
  obtain ⟨u, s', e, hs', hn⟩ := hfill n _ rfl hs.size_le _ (hs.begunAt i o) (by omega)
  refine ⟨.object s.heap.objects.size, s', ?_, hs', Nat.le_succ_of_le hn⟩
  rw [Run.exec_bind_ok (exec_begin i o s), Run.exec_bind_ok e]
  rfl

/-- Copying an object succeeds when copying its parts does. -/
theorem manages_copyObject (g : h.Graph (.object i)) (e : h.get? i = some o) (hs : Intact h s)
    (hm : (unmet h s).card ≤ m) (hnone : s.memo.lookup i = none)
    (hparts : ∀ k, (o.isMutable = true → k < m) → k ≤ m → ∀ p ∈ o.parts, Manages h k (copy p)) :
    ∃ w s', (copyObject copy i (some o)).exec s = (.ok w, s') ∧ Intact h s' ∧
      (unmet h s').card ≤ m := by
  cases g.made with
  | mutable e' ho =>
    obtain rfl := Option.some.inj (e.symm.trans e')
    cases o with
    | list xs =>
      refine manages_begin _ _ ⟨_, e, ho⟩ hs hm hnone fun n j hn hj => manages_fillList hj ?_
      exact hparts n (fun _ => hn ▸ Nat.lt_succ_self n) (hn ▸ Nat.le_succ n)
    | dict es =>
      refine manages_begin _ _ ⟨_, e, ho⟩ hs hm hnone fun n j hn hj => manages_fillDict hj ?_
      have hall := hparts n (fun _ => hn ▸ Nat.lt_succ_self n) (hn ▸ Nat.le_succ n)
      exact fun p hp => ⟨hall _ (Object.mem_flat.mpr ⟨p, hp, .inl rfl⟩),
        hall _ (Object.mem_flat.mpr ⟨p, hp, .inr rfl⟩)⟩
    | tuple _ | generator _ | «sealed» _ | thing _ | loop _ => cases ho
  | @tuple _ xs e' _ =>
    obtain rfl := Option.some.inj (e.symm.trans e')
    have hitems : ∀ p ∈ xs, Manages h m (copy p) := hparts m nofun le_rfl
    obtain ⟨ys, s₁, e₁, hs₁, hm₁⟩ := manages_copyAll hitems s hs hm
    rw [copyObject, Run.exec_bind_ok e₁, Run.exec_get_bind]
    rcases s₁.memo.lookup i with - | w
    · dsimp only
      split
      · exact ⟨_, s₁, rfl, hs₁, hm₁⟩
      · refine ⟨_, s₁.begunAt i (.tuple ys), rfl, hs₁.begunAt i _, ?_⟩
        rw [unmet_begunAt]
        exact (Finset.card_erase_le).trans hm₁
    · exact ⟨w, s₁, rfl, hs₁, hm₁⟩

/-- Induction on the depth. -/
theorem manages_deepCopyIn (depth m : Nat) {v : Value} (g : h.Graph v) (hd : enough h m v ≤ depth) :
    Manages h m (deepCopyIn depth v) := by
  induction depth generalizing m v with
  | zero =>
    cases v with
    | atom a => exact .pure _
    | object i => exact absurd hd (Nat.not_succ_le_zero _)
    | method _ _ => cases g.made
  | succ depth ih =>
    cases v with
    | atom a => exact .pure _
    | method _ _ => cases g.made
    | object i =>
      intro s hs hm
      rw [deepCopyIn, Run.exec_get_bind]
      rcases hnone : s.memo.lookup i with - | w
      · obtain ⟨o, e⟩ : ∃ o, h.get? i = some o := by
          cases g.made with
          | mutable e _ | tuple e _ => exact ⟨_, e⟩
        dsimp only
        rw [hs.originals i (Heap.lt_size e), e]
        refine manages_copyObject g e hs hm hnone fun k hlt hk p hp => ih k (g.part e hp) ?_
        rw [enough] at hd
        have hpart := enough_le h k (g.part e hp).made
        have hmul : k * (h.objects.size + 1) ≤ m * (h.objects.size + 1) := Nat.mul_le_mul_right _ hk
        cases g.made with
        | mutable e' ho =>
          -- one list or dictionary less is not in the memo
          obtain rfl := Option.some.inj (e.symm.trans e')
          have hless : (k + 1) * (h.objects.size + 1) ≤ m * (h.objects.size + 1) :=
            Nat.mul_le_mul_right _ (hlt ho)
          rw [Nat.succ_mul] at hless
          omega
        | tuple e' hxs =>
          -- the item is nested less deep
          obtain rfl := Option.some.inj (e.symm.trans e')
          cases p with
          | object j =>
            have hlow := Heap.Made.nesting_item (.tuple e hxs) e hp
            rw [enough]
            omega
          | atom _ | method _ _ => exact Nat.zero_le _
      · exact ⟨w, s, rfl, hs, hm⟩

end Objects

/-- No copy of a graph fails. -/
theorem exec_deepCopy_ok {v : Value} (g : h.Graph v) (hs : Intact h s) :
    ∃ w s', (deepCopy v).exec s = (.ok w, s') := by
  have hsize := hs.size_le
  have hmul : (h.objects.size + 1) * (h.objects.size + 1)
      ≤ (s.heap.objects.size + 1) * (s.heap.objects.size + 1) :=
    Nat.mul_le_mul (by omega) (by omega)
  have hd : enough h h.objects.size v ≤ s.heap.deepest := by
    have hle := enough_le h h.objects.size g.made
    rw [Nat.succ_mul] at hmul
    rw [Heap.deepest]
    omega
  obtain ⟨w, s', e, -⟩ := manages_deepCopyIn s.heap.deepest h.objects.size g hd s hs
    (card_unmet_le h s)
  refine ⟨w, s', ?_⟩
  rw [deepCopy, Run.exec_get_bind, e]

end Copying

end Stencil
