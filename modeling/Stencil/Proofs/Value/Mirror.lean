/-
Stencil/Proofs/Value/Mirror.lean

Two heaps with the same data.  Every object of the first heap that matters has a
*partner* in the second; several may have the same one, because there are copies
in the first heap and none in the second.  One heap *mirrors* the other if
partners are of the same kind and have partners for parts.

Data have an end: a part has a lower *rank* than what it is a part of.  Ranks
are those of the second heap.  An object that is made has its own number for
rank, so what was there at some moment is what ranks below some number, and
forgetting what is not leaves a mirror (`Heap.Mirrors.below`).
-/
import Stencil.Proofs.Value.Equality

namespace Stencil

/-- The partner in a second heap of each object of a first one that has one. -/
abbrev Pairing := Nat → Option Nat

namespace Pairing

variable {ρ : Nat → Nat} {g g' : Pairing} {m n i j : Nat}

/-- The partners that rank below `n`. -/
def below (ρ : Nat → Nat) (n : Nat) (g : Pairing) : Pairing :=
  fun i => (g i).filter fun j => decide (ρ j < n)

/-- One partner more. -/
def join (i j : Nat) (g : Pairing) : Pairing := fun k => if k = i then some j else g k

/-- All that have a partner have the same one in another pairing. -/
def Extends (g g' : Pairing) : Prop := ∀ i j, g i = some j → g' i = some j

theorem below_eq_some : g.below ρ n i = some j ↔ g i = some j ∧ ρ j < n := by
  rw [below, Option.filter_eq_some_iff, decide_eq_true_iff]

theorem join_self : g.join i j i = some j := if_pos rfl

theorem join_of_ne {k : Nat} (h : k ≠ i) : g.join i j k = g k := if_neg h

namespace Extends

theorem refl (g : Pairing) : g.Extends g := fun _ _ e => e

theorem trans {g'' : Pairing} (h : g.Extends g') (h' : g'.Extends g'') : g.Extends g'' :=
  fun i j e => h' i j (h i j e)

theorem join (h : g i = none) : g.Extends (g.join i j) := by
  intro k l e
  rw [join_of_ne fun hk => ?_, e]
  rw [hk, h] at e
  cases e

theorem below (h : g.Extends g') : (g.below ρ n).Extends (g'.below ρ n) := by
  intro i j e
  obtain ⟨e, hlt⟩ := below_eq_some.mp e
  exact below_eq_some.mpr ⟨h i j e, hlt⟩

end Extends

theorem below_extends : (g.below ρ n).Extends g := fun _ _ e => (below_eq_some.mp e).1

theorem below_below (h : m ≤ n) : (g.below ρ m).Extends ((g.below ρ n).below ρ m) := by
  intro i j e
  obtain ⟨e, hlt⟩ := below_eq_some.mp e
  exact below_eq_some.mpr ⟨below_eq_some.mpr ⟨e, Nat.lt_of_lt_of_le hlt h⟩, hlt⟩

end Pairing

/-! ### Values and objects -/

/-- Whether a value is a method. -/
def Value.isMethod : Value → Bool
  | method _ _ => true
  | atom _ | object _ => false

/-- Values that are the same up to the numbers of objects.  No method has methods of its own. -/
inductive Value.Mirrors (g : Pairing) : Value → Value → Prop
  | atom (a : Atom) : Mirrors g (.atom a) (.atom a)
  | object {i j : Nat} (e : g i = some j) : Mirrors g (.object i) (.object j)
  | method {v v' : Value} (h : Mirrors g v v') (own : v.isMethod = false) (name : String) :
      Mirrors g (.method v name) (.method v' name)

/-- Where another value mirrors it by what ranks below some number, so does this one. -/
theorem Value.Mirrors.ranked {ρ : Nat → Nat} {g g' : Pairing} {n : Nat} {v u v' : Value}
    (hv : v.Mirrors g v') (hu : u.Mirrors (g'.below ρ n) v') : v.Mirrors (g.below ρ n) v' := by
  induction hv generalizing u with
  | atom a => exact .atom a
  | object e =>
    cases hu with
    | object e' => exact .object (Pairing.below_eq_some.mpr ⟨e, (Pairing.below_eq_some.mp e').2⟩)
  | method _ own name ih =>
    cases hu with
    | method hu _ _ => exact .method (ih hu) own name

/-- Lists of such values. -/
abbrev Value.AllMirror (g : Pairing) : List Value → List Value → Prop :=
  List.Forall₂ (Value.Mirrors g)

/-- Entries of such keys and values. -/
abbrev Value.EntriesMirror (g : Pairing) :
    List (Value × Value) → List (Value × Value) → Prop :=
  List.Forall₂ fun e e' => e.1.Mirrors g e'.1 ∧ e.2.Mirrors g e'.2

/-- Data, or the state of a loop, with parts that are the same up to numbers. -/
inductive Object.Mirrors (g : Pairing) : Object → Object → Prop
  | list {xs ys : List Value} (h : Value.AllMirror g xs ys) : Mirrors g (.list xs) (.list ys)
  | tuple {xs ys : List Value} (h : Value.AllMirror g xs ys) : Mirrors g (.tuple xs) (.tuple ys)
  | dict {es fs : List (Value × Value)} (h : Value.EntriesMirror g es fs) :
      Mirrors g (.dict es) (.dict fs)
  | loop {i j : Nat} (e : g i = some j) (p : Nat) :
      Mirrors g (.loop (some ⟨i, p⟩)) (.loop (some ⟨j, p⟩))

section Mono

variable {g g' : Pairing}

theorem Value.Mirrors.mono (h : g.Extends g') {v v' : Value} (hv : v.Mirrors g v') :
    v.Mirrors g' v' := by
  induction hv with
  | atom a => exact .atom a
  | object e => exact .object (h _ _ e)
  | method _ own name ih => exact .method ih own name

theorem Value.AllMirror.mono (h : g.Extends g') {vs vs' : List Value}
    (hvs : Value.AllMirror g vs vs') : Value.AllMirror g' vs vs' := hvs.imp fun _ _ => .mono h

/-- Each of some values has one that it mirrors. -/
theorem Value.AllMirror.exists_of_mem {vs vs' : List Value} (hvs : Value.AllMirror g vs vs')
    {v : Value} (hv : v ∈ vs) : ∃ v', v.Mirrors g v' := by
  induction hvs with
  | nil => exact absurd hv List.not_mem_nil
  | cons h _ ih =>
    rcases List.mem_cons.mp hv with rfl | hv
    · exact ⟨_, h⟩
    · exact ih hv

/-- So has each of some entries. -/
theorem Value.EntriesMirror.exists_of_mem {es fs : List (Value × Value)}
    (hes : Value.EntriesMirror g es fs) {e : Value × Value} (he : e ∈ es) :
    ∃ f : Value × Value, e.1.Mirrors g f.1 ∧ e.2.Mirrors g f.2 := by
  induction hes with
  | nil => exact absurd he List.not_mem_nil
  | cons h _ ih =>
    rcases List.mem_cons.mp he with rfl | he
    · exact ⟨_, h⟩
    · exact ih he

theorem Value.EntriesMirror.mono (h : g.Extends g') {es fs : List (Value × Value)}
    (hes : Value.EntriesMirror g es fs) : Value.EntriesMirror g' es fs :=
  hes.imp fun _ _ he => ⟨he.1.mono h, he.2.mono h⟩

theorem Object.Mirrors.mono (h : g.Extends g') {o o' : Object} (ho : o.Mirrors g o') :
    o.Mirrors g' o' := by
  cases ho with
  | list hvs => exact .list (hvs.mono h)
  | tuple hvs => exact .tuple (hvs.mono h)
  | dict hes => exact .dict (hes.mono h)
  | loop e p => exact .loop (h _ _ e) p

end Mono

/-! ### Keys -/

namespace Heap

variable {h h' : Heap}

/-- The value is an atom or a tuple of such values. -/
inductive IsKey (h : Heap) : Value → Prop
  | atom (a : Atom) : IsKey h (.atom a)
  | tuple {i : Nat} {xs : List Value} (e : h.get? i = some (.tuple xs))
      (hxs : ∀ v ∈ xs, IsKey h v) : IsKey h (.object i)

/-- The value is a key in two heaps, made of the same tuples. -/
inductive CommonKey (h h' : Heap) : Value → Prop
  | atom (a : Atom) : CommonKey h h' (.atom a)
  | tuple {i : Nat} {xs : List Value} (e : h.get? i = some (.tuple xs))
      (e' : h'.get? i = some (.tuple xs)) (hxs : ∀ v ∈ xs, CommonKey h h' v) :
      CommonKey h h' (.object i)

theorem CommonKey.isKey {v : Value} (k : h.CommonKey h' v) : h'.IsKey v := by
  induction k with
  | atom a => exact .atom a
  | tuple _ e' _ ih => exact .tuple e' ih

/-- The tuples of one heap are there in another. -/
def TuplesStay (h h' : Heap) : Prop :=
  ∀ i xs, h.get? i = some (.tuple xs) → h'.get? i = some (.tuple xs)

theorem TuplesStay.add (h : Heap) (o : Object) : h.TuplesStay (h.add o).2 := by
  intro i xs e
  rw [get?_add, if_neg (Nat.ne_of_lt (lt_size e)), e]

theorem IsKey.common (t : h.TuplesStay h') {v : Value} (k : h.IsKey v) : h.CommonKey h' v := by
  induction k with
  | atom a => exact .atom a
  | tuple e _ ih => exact .tuple e (t _ _ e) ih

theorem isEmptyTuple_eq {v : Value} (k : h.CommonKey h' v) :
    h'.isEmptyTuple v = h.isEmptyTuple v := by
  cases k with
  | atom a => rfl
  | tuple e e' _ => rw [isEmptyTuple, isEmptyTuple, objectOf?, objectOf?, e, e']

/-- Lists are compared alike by what compares their items alike. -/
theorem equalLists_congr {equal equal' : Value → Value → Except Fault Bool} {xs ys : List Value}
    (heq : ∀ x ∈ xs, ∀ y ∈ ys, equal' x y = equal x y) :
    equalLists equal' xs ys = equalLists equal xs ys := by
  induction xs generalizing ys with
  | nil => cases ys <;> rfl
  | cons x xs ih =>
    cases ys with
    | nil => rfl
    | cons y ys =>
      rw [equalLists, equalLists, heq x (.head _) y (.head _),
        ih fun a ha b hb => heq a (.tail _ ha) b (.tail _ hb)]

/-- Common keys are compared alike: induction on the depth. -/
theorem sameOrEqual_eq (depth : Nat) {a b : Value} (ka : h.CommonKey h' a)
    (kb : h.CommonKey h' b) : h'.sameOrEqual depth a b = h.sameOrEqual depth a b := by
  have hsame : ∀ {a b}, h.CommonKey h' a → h.CommonKey h' b → h'.same a b = h.same a b := by
    intro a b ka kb
    rw [same, same, isEmptyTuple_eq ka, isEmptyTuple_eq kb]
  induction depth generalizing a b with
  | zero => rw [sameOrEqual, sameOrEqual, hsame ka kb]
  | succ depth ih =>
    unfold sameOrEqual
    rw [hsame ka kb]
    cases ka with
    | atom a => cases kb <;> rfl
    | tuple e e' hxs =>
      cases kb with
      | atom b => rfl
      | tuple f f' hys =>
        dsimp only
        rw [e, f, e', f']
        dsimp only
        rw [equalLists_congr fun x hx y hy => ih (hxs x hx) (hys y hy)]

/-- The keys of entries are keys, and no two of them are equal. -/
structure Keyed (h : Heap) (es : List (Value × Value)) : Prop where
  keys : ∀ e ∈ es, h.IsKey e.1
  apart : es.Pairwise fun e f => h.Apart e.1 f.1

theorem Keyed.of_common {es : List (Value × Value)} (k : h.Keyed es)
    (hes : ∀ e ∈ es, h.CommonKey h' e.1) : h'.Keyed es where
  keys e he := (hes e he).isKey
  apart := k.apart.imp_of_mem fun {e f} he hf hef depth hd =>
    hef depth (sameOrEqual_eq depth (hes e he) (hes f hf) ▸ hd)

theorem Keyed.mono (t : h.TuplesStay h') {es : List (Value × Value)} (k : h.Keyed es) :
    h'.Keyed es := k.of_common fun e he => (k.keys e he).common t

end Heap

/-! ### Heaps -/

/-- The heap `h` mirrors the heap `h'`. -/
structure Heap.Mirrors (ρ : Nat → Nat) (g : Pairing) (h h' : Heap) : Prop where
  /-- Partners are there, and their parts are partners of a lower rank. -/
  row : ∀ i j, g i = some j → ∃ o o', h.get? i = some o ∧ h'.get? j = some o' ∧
    o.Mirrors (g.below ρ (ρ j)) o'
  keyed : ∀ i j es, g i = some j → h.get? i = some (.dict es) → h.Keyed es
  rank_lt : ∀ i j, g i = some j → ρ j < h'.objects.size
  /-- What is not there yet will rank above all that is there. -/
  rank_new : ∀ j, h'.objects.size ≤ j → ρ j = j
  size_le : h'.objects.size ≤ h.objects.size
  unnumbers : h.unnumbers = h'.unnumbers

namespace Heap.Mirrors

variable {ρ : Nat → Nat} {g g' : Pairing} {h h' k k' : Heap} {i j n : Nat}

theorem lt (m : h.Mirrors ρ g h') (e : g i = some j) : i < h.objects.size := by
  obtain ⟨o, o', ho, -⟩ := m.row i j e
  exact lt_size ho

theorem partner_lt (m : h.Mirrors ρ g h') (e : g i = some j) : j < h'.objects.size := by
  obtain ⟨o, o', -, ho', -⟩ := m.row i j e
  exact lt_size ho'

theorem eq_none (m : h.Mirrors ρ g h') (hi : h.objects.size ≤ i) : g i = none := by
  rcases e : g i with - | j
  · rfl
  · exact absurd (m.lt e) (Nat.not_lt.mpr hi)

/-- All partners rank below the number of the next object. -/
theorem extends_below (m : h.Mirrors ρ g h') (hn : h'.objects.size ≤ n) :
    g.Extends (g.below ρ n) := fun i j e =>
  Pairing.below_eq_some.mpr ⟨e, Nat.lt_of_lt_of_le (m.rank_lt i j e) hn⟩

/-- What does not rank below some number can be forgotten. -/
theorem below (m : h.Mirrors ρ g h') (n : Nat) : h.Mirrors ρ (g.below ρ n) h' where
  row i j e := by
    obtain ⟨e, hlt⟩ := Pairing.below_eq_some.mp e
    obtain ⟨o, o', ho, ho', hm⟩ := m.row i j e
    exact ⟨o, o', ho, ho', hm.mono (Pairing.below_below (Nat.le_of_lt hlt))⟩
  keyed i j es e := m.keyed i j es (Pairing.below_extends i j e)
  rank_lt i j e := m.rank_lt i j (Pairing.below_extends i j e)
  rank_new := m.rank_new
  size_le := m.size_le
  unnumbers := m.unnumbers

/-- A key that has a partner is one wherever the objects with partners are the same. -/
theorem commonKey (m : h.Mirrors ρ g h') (hs : ∀ i j, g i = some j → k.get? i = h.get? i)
    {v v' : Value} (hv : v.Mirrors g v') (key : h.IsKey v) : h.CommonKey k v := by
  induction key generalizing v' with
  | atom a => exact .atom a
  | @tuple i xs ei _ ih =>
    cases hv with
    | object e =>
      obtain ⟨o, o', ho, -, hm⟩ := m.row _ _ e
      obtain rfl := Option.some.inj (ei.symm.trans ho)
      cases hm with
      | tuple hxs =>
        refine .tuple ei ((hs _ _ e).trans ei) fun x hx => ?_
        obtain ⟨x', hx'⟩ := Value.AllMirror.exists_of_mem hxs hx
        exact ih x hx (hx'.mono Pairing.below_extends)

/-- The heaps change where there are no partners. -/
theorem change (m : h.Mirrors ρ g h') (hs : ∀ i j, g i = some j → k.get? i = h.get? i)
    (hs' : ∀ i j, g i = some j → k'.get? j = h'.get? j)
    (hnew : h'.objects.size ≤ k'.objects.size) (hle : k'.objects.size ≤ k.objects.size)
    (hn : k.unnumbers = k'.unnumbers) : k.Mirrors ρ g k' where
  row i j e := by
    rw [hs i j e, hs' i j e]
    exact m.row i j e
  keyed i j es e hk := by
    have ho : h.get? i = some (.dict es) := (hs i j e).symm.trans hk
    have keyed := m.keyed i j es e ho
    refine keyed.of_common fun p hp => ?_
    obtain ⟨o, o', ho', -, hm⟩ := m.row i j e
    obtain rfl := Option.some.inj (ho.symm.trans ho')
    cases hm with
    | dict hes =>
      obtain ⟨q, hq⟩ := Value.EntriesMirror.exists_of_mem hes hp
      exact m.commonKey hs (hq.1.mono Pairing.below_extends) (keyed.keys p hp)
  rank_lt i j e := Nat.lt_of_lt_of_le (m.rank_lt i j e) hnew
  rank_new j hj := m.rank_new j (Nat.le_trans hnew hj)
  size_le := hle
  unnumbers := hn

/-- The partner of an object that had none. -/
theorem join (m : h.Mirrors ρ g h') (hi : g i = none) {o o' : Object} (ho : h.get? i = some o)
    (ho' : h'.get? j = some o') (hj : ρ j < h'.objects.size)
    (hm : o.Mirrors (g.below ρ (ρ j)) o') (hk : ∀ es, o = .dict es → h.Keyed es) :
    h.Mirrors ρ (g.join i j) h' where
  row l p e := by
    have hext : (g.below ρ (ρ p)).Extends ((g.join i j).below ρ (ρ p)) :=
      (Pairing.Extends.join hi).below
    by_cases hl : l = i
    · subst hl
      obtain rfl := Option.some.inj (Pairing.join_self.symm.trans e)
      exact ⟨o, o', ho, ho', hm.mono hext⟩
    · rw [Pairing.join_of_ne hl] at e
      obtain ⟨q, q', hq, hq', hmq⟩ := m.row l p e
      exact ⟨q, q', hq, hq', hmq.mono hext⟩
  keyed l p es e hl := by
    by_cases hli : l = i
    · subst hli
      exact hk es (Option.some.inj (ho.symm.trans hl))
    · exact m.keyed l p es ((Pairing.join_of_ne hli).symm.trans e) hl
  rank_lt l p e := by
    by_cases hl : l = i
    · subst hl
      obtain rfl := Option.some.inj (Pairing.join_self.symm.trans e)
      exact hj
    · exact m.rank_lt l p ((Pairing.join_of_ne hl).symm.trans e)
  rank_new := m.rank_new
  size_le := m.size_le
  unnumbers := m.unnumbers

/-- An object more in the first heap. -/
theorem add_left (m : h.Mirrors ρ g h') (o : Object) : (h.add o).2.Mirrors ρ g h' := by
  refine m.change (fun i j e => ?_) (fun _ _ _ => rfl) (Nat.le_refl _) ?_ m.unnumbers
  · rw [get?_add, if_neg (Nat.ne_of_lt (m.lt e))]
  · rw [size_add]
    exact Nat.le_succ_of_le m.size_le

/-- An object of the first heap changes that has no partner. -/
theorem put_left (m : h.Mirrors ρ g h') (hi : g i = none) (o : Object) :
    (h.put i o).Mirrors ρ g h' := by
  refine m.change (fun l j e => ?_) (fun _ _ _ => rfl) (Nat.le_refl _) ?_ m.unnumbers
  · rw [get?_put, if_neg]
    rintro rfl
    rw [hi] at e
    cases e
  · rw [size_put]
    exact m.size_le

/-- An object more in both heaps. -/
theorem add (m : h.Mirrors ρ g h') {o o' : Object} (hm : o.Mirrors g o')
    (hk : ∀ es, o = .dict es → h.Keyed es) :
    (h.add o).2.Mirrors ρ (g.join h.objects.size h'.objects.size) (h'.add o').2 := by
  have hrank : ρ h'.objects.size = h'.objects.size := m.rank_new _ (Nat.le_refl _)
  have hadd : (h.add o).2.Mirrors ρ g (h'.add o').2 := by
    refine m.change (fun i j e => ?_) (fun i j e => ?_) ?_ ?_ m.unnumbers
    · rw [get?_add, if_neg (Nat.ne_of_lt (m.lt e))]
    · rw [get?_add, if_neg (Nat.ne_of_lt (m.partner_lt e))]
    · rw [size_add]
      exact Nat.le_succ _
    · rw [size_add, size_add]
      exact Nat.succ_le_succ m.size_le
  refine hadd.join (m.eq_none (Nat.le_refl _)) (Table.get?_add_new ..) (Table.get?_add_new ..) ?_ ?_
    fun es ho => (hk es ho).mono (.add h o)
  · rw [hrank, size_add]
    exact Nat.lt_succ_self _
  · rw [hrank]
    exact hm.mono (m.extends_below (Nat.le_refl _))

end Heap.Mirrors

end Stencil
