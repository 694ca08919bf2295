/-
Stencil/Proofs/Value/Plain.lean

Plain data: atoms, and lists, tuples and dictionaries of plain data.  No object
is inside itself there, so there is a rank for objects that goes down from an
object to its parts: the number of objects inside it (`Heap.rank`).  Hence every
heap mirrors itself, as far as plain data goes (`Heap.mirrors_plain`).
-/
import Mathlib.Data.Finset.Card
import Stencil.Proofs.Value.Mirror
import Stencil.Proofs.Value.Sight

namespace Stencil

/-- Whether an object is a list, a tuple or a dictionary. -/
def Object.isData : Object → Bool
  | list _ | tuple _ | dict _ => true
  | generator _ | sealed _ | thing _ | loop _ => false

namespace Heap

variable {h : Heap} {i j k : Nat} {v : Value}

/-- The value is an atom, or an object with plain data for parts. -/
inductive Plain (h : Heap) : Value → Prop
  | atom (a : Atom) : Plain h (.atom a)
  | object {i : Nat} {o : Object} (e : h.get? i = some o) (data : o.isData = true)
      (keyed : ∀ es, o = .dict es → h.Keyed es) (parts : ∀ v ∈ o.parts, Plain h v) :
      Plain h (.object i)

/-- The object `j` is reached from a part of the object `i`. -/
def Within (h : Heap) (i j : Nat) : Prop :=
  ∃ o, h.get? i = some o ∧ ∃ v ∈ o.parts, h.Reaches v j

theorem Within.trans (a : h.Within i j) (b : h.Within j k) : h.Within i k := by
  obtain ⟨o, e, v, hv, r⟩ := a
  refine ⟨o, e, v, hv, ?_⟩
  clear e hv
  induction r with
  | self j =>
    obtain ⟨o', e', v', hv', r'⟩ := b
    exact .part e' hv' r'
  | part e' hv' _ ih => exact .part e' hv' (ih b)
  | cycle _ ih => exact .cycle (ih b)

/-- Nothing in plain data is inside itself: induction on the data. -/
theorem Plain.not_within (p : h.Plain v) (r : h.Reaches v j) : ¬ h.Within j j := by
  induction p generalizing j with
  | atom a => cases r
  | object e _ _ _ ih =>
    cases r with
    | self i =>
      rintro ⟨p, e', v, hv, r⟩
      have hpart := hv
      rw [← Option.some.inj (e.symm.trans e')] at hpart
      exact ih v hpart r ⟨p, e', v, hv, r⟩
    | part e' hv r =>
      obtain rfl := Option.some.inj (e.symm.trans e')
      exact ih _ hv r

/-! ### Ranks -/

open Classical in
/-- The number of objects inside an object; its own number, when it is not there. -/
noncomputable def rank (h : Heap) (i : Nat) : Nat :=
  if i < h.objects.size then ((Finset.range h.objects.size).filter (h.Within i)).card else i

theorem Plain.lt_size (p : h.Plain (.object i)) : i < h.objects.size := by
  cases p with
  | object e => exact Heap.lt_size e

theorem Plain.rank_lt (p : h.Plain (.object i)) : h.rank i < h.objects.size := by
  classical
  have hsub : (Finset.range h.objects.size).filter (h.Within i) ⊂ Finset.range h.objects.size :=
    Finset.filter_ssubset.mpr ⟨i, Finset.mem_range.mpr p.lt_size, p.not_within (.self i)⟩
  have hcard := Finset.card_lt_card hsub
  rw [Finset.card_range] at hcard
  rw [rank, if_pos p.lt_size]
  exact hcard

/-- A part has a lower rank. -/
theorem Plain.rank_part (p : h.Plain (.object i)) {o : Object} (e : h.get? i = some o)
    (hj : .object j ∈ o.parts) : h.rank j < h.rank i := by
  classical
  have hwithin : h.Within i j := ⟨o, e, _, hj, .self j⟩
  have hpart : h.Plain (.object j) := by
    cases p with
    | object e' _ _ parts =>
      obtain rfl := Option.some.inj (e.symm.trans e')
      exact parts _ hj
  rw [rank, rank, if_pos p.lt_size, if_pos hpart.lt_size]
  refine Finset.card_lt_card (Finset.ssubset_iff_of_subset ?_ |>.mpr ⟨j, ?_, ?_⟩)
  · exact Finset.monotone_filter_right _ fun k _ hk => hwithin.trans hk
  · exact Finset.mem_filter.mpr ⟨Finset.mem_range.mpr hpart.lt_size, hwithin⟩
  · exact fun hk => hpart.not_within (.self j) (Finset.mem_filter.mp hk).2

/-! ### A heap and itself -/

open Classical in
/-- Every object that is plain data is its own partner. -/
noncomputable def itself (h : Heap) : Pairing :=
  fun i => if h.Plain (.object i) then some i else none

theorem itself_eq_some : h.itself i = some j ↔ h.Plain (.object i) ∧ i = j := by
  rw [itself]
  split <;> simp [*]

theorem Plain.mirrors (p : h.Plain v) : v.Mirrors h.itself v := by
  cases p with
  | atom a => exact .atom a
  | object e data keyed parts =>
    exact .object (itself_eq_some.mpr ⟨.object e data keyed parts, rfl⟩)

/-- The parts of plain data rank lower. -/
theorem Plain.mirrors_part (p : h.Plain (.object i)) {o : Object} (e : h.get? i = some o)
    (hv : v ∈ o.parts) : v.Mirrors (h.itself.below h.rank (h.rank i)) v := by
  have hpart : h.Plain v := by
    cases p with
    | object e' _ _ parts =>
      obtain rfl := Option.some.inj (e.symm.trans e')
      exact parts v hv
  cases hpart with
  | atom a => exact .atom a
  | object e' data keyed parts =>
    refine .object (Pairing.below_eq_some.mpr ⟨?_, p.rank_part e hv⟩)
    exact itself_eq_some.mpr ⟨.object e' data keyed parts, rfl⟩

/-- A heap mirrors itself, as far as plain data goes. -/
theorem mirrors_plain (h : Heap) : h.Mirrors h.rank h.itself h where
  row i j e := by
    obtain ⟨p, rfl⟩ := itself_eq_some.mp e
    have hparts : ∀ {o v}, h.get? i = some o → v ∈ o.parts →
        v.Mirrors (h.itself.below h.rank (h.rank i)) v := p.mirrors_part
    cases p with
    | @object _ o e' data keyed parts =>
      refine ⟨o, o, e', e', ?_⟩
      have hsame : ∀ v ∈ o.parts, v.Mirrors (h.itself.below h.rank (h.rank i)) v :=
        fun v hv => hparts e' hv
      cases o with
      | list xs => exact .list (List.forall₂_same.mpr hsame)
      | tuple xs => exact .tuple (List.forall₂_same.mpr hsame)
      | dict es =>
        refine .dict (List.forall₂_same.mpr fun p hp => ?_)
        exact ⟨hsame _ (Object.mem_flat.mpr ⟨p, hp, .inl rfl⟩),
          hsame _ (Object.mem_flat.mpr ⟨p, hp, .inr rfl⟩)⟩
      | generator _ | sealed _ | thing _ | loop _ => cases data
  keyed i j es e ho := by
    obtain ⟨p, rfl⟩ := itself_eq_some.mp e
    cases p with
    | object e' _ keyed _ => exact keyed es (Option.some.inj (e'.symm.trans ho))
  rank_lt i j e := by
    obtain ⟨p, rfl⟩ := itself_eq_some.mp e
    exact p.rank_lt
  rank_new j hj := by
    rw [rank, if_neg (Nat.not_lt.mpr hj)]
  size_le := Nat.le_refl _
  unnumbers := rfl

end Heap

end Stencil
