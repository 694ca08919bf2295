/-
Stencil/Proofs/Value/Equality.lean

How values are equal.  Two values that are not one and the same are equal by one
of four rules (`Heap.EqualStep`), each with its own premises; so a proof by
induction on the depth of a comparison has four cases.

Keys of a dictionary are values that may be keys, and no two of them are equal;
a heap of which this holds, and in which all parts are there, is *sound*.
-/
import Mathlib.Data.List.Forall2
import Stencil.Proofs.Value.Sight
import Stencil.Value.Equality

namespace Stencil

namespace Heap

variable {h : Heap}

/-! ### The rules of equality -/

theorem equalLists_iff {equal : Value → Value → Except Fault Bool} {xs ys : List Value} :
    equalLists equal xs ys = .ok true ↔ List.Forall₂ (fun a b => equal a b = .ok true) xs ys := by
  induction xs generalizing ys with
  | nil =>
    cases ys with
    | nil => exact ⟨fun _ => .nil, fun _ => rfl⟩
    | cons b bs => exact ⟨fun e => (nomatch e), fun f => (nomatch f)⟩
  | cons a as ih =>
    cases ys with
    | nil => exact ⟨fun e => (nomatch e), fun f => (nomatch f)⟩
    | cons b bs =>
      rw [equalLists, List.forall₂_cons, ← ih]
      rcases equal a b with f | (- | -) <;> simp

theorem isEmptyTuple_object {i : Nat} :
    h.isEmptyTuple (.object i) = true ↔ h.get? i = some (.tuple []) := by
  rw [isEmptyTuple, objectOf?]
  split
  · next e => exact ⟨fun _ => e, fun _ => rfl⟩
  · next hne => exact ⟨fun e => (Bool.false_ne_true e).elim, fun e => (hne e).elim⟩

theorem sameOrEqual_of_same {a b : Value} (hs : h.same a b = true) (depth : Nat) :
    h.sameOrEqual depth a b = .ok true := by
  cases depth <;> unfold sameOrEqual <;> rw [if_pos hs]

/-- How two values can be equal. -/
inductive EqualStep (h : Heap) (depth : Nat) : Value → Value → Prop
  | atom {a b : Atom} (e : a.beqValue b = true) : EqualStep h depth (.atom a) (.atom b)
  | list {i j : Nat} {xs ys : List Value} (ei : h.get? i = some (.list xs))
      (ej : h.get? j = some (.list ys)) (len : xs.length = ys.length)
      (e : equalLists (h.sameOrEqual depth) xs ys = .ok true) :
      EqualStep h depth (.object i) (.object j)
  | tuple {i j : Nat} {xs ys : List Value} (ei : h.get? i = some (.tuple xs))
      (ej : h.get? j = some (.tuple ys))
      (e : equalLists (h.sameOrEqual depth) xs ys = .ok true) :
      EqualStep h depth (.object i) (.object j)
  | dict {i j : Nat} {es fs : List (Value × Value)} (ei : h.get? i = some (.dict es))
      (ej : h.get? j = some (.dict fs)) (len : es.length = fs.length)
      (e : equalEntries (h.sameOrEqual depth) fs es = .ok true) :
      EqualStep h depth (.object i) (.object j)

theorem sameOrEqual_succ_iff {depth : Nat} {a b : Value} (hne : ¬ h.same a b = true) :
    h.sameOrEqual (depth + 1) a b = .ok true ↔ EqualStep h depth a b := by
  unfold sameOrEqual
  rw [if_neg hne]
  constructor
  · intro e
    split at e
    · exact .atom (Except.ok.inj e)
    · split at e
      · next ei ej =>
        split at e
        · next len => exact .list ei ej len e
        · cases e
      · next ei ej => exact .tuple ei ej e
      · next ei ej =>
        split at e
        · next len => exact .dict ei ej len e
        · cases e
      · cases e
    · cases e
  · intro e
    cases e with
    | atom e => exact congrArg Except.ok e
    | list ei ej len e =>
      dsimp only
      rw [ei, ej]
      dsimp only
      rw [if_pos len, e]
    | tuple ei ej e =>
      dsimp only
      rw [ei, ej]
      exact e
    | dict ei ej len e =>
      dsimp only
      rw [ei, ej]
      dsimp only
      rw [if_pos len, e]

/-! ### Keys -/

/-- A value that may be a key. -/
def Hashable (h : Heap) (v : Value) : Prop := ∀ depth, h.unhashable? depth v = none

/-- Two values that are not equal, however deep they are compared. -/
def Apart (h : Heap) (a b : Value) : Prop := ∀ depth, h.sameOrEqual depth a b ≠ .ok true

theorem Hashable.not_list {h : Heap} {i : Nat} {xs : List Value} (k : h.Hashable (.object i)) :
    h.get? i ≠ some (.list xs) := by
  intro e
  have h₁ := k 1
  rw [unhashable?, objectOf?, e] at h₁
  cases h₁

theorem Hashable.not_dict {h : Heap} {i : Nat} {es : List (Value × Value)}
    (k : h.Hashable (.object i)) : h.get? i ≠ some (.dict es) := by
  intro e
  have h₁ := k 1
  rw [unhashable?, objectOf?, e] at h₁
  cases h₁

/-- The items of a tuple that may be a key may be keys. -/
theorem Hashable.items {h : Heap} {i : Nat} {xs : List Value} (k : h.Hashable (.object i))
    (e : h.get? i = some (.tuple xs)) : ∀ v ∈ xs, h.Hashable v := by
  intro v hv depth
  have h₁ := k (depth + 1)
  rw [unhashable?, objectOf?, e] at h₁
  exact List.findSome?_eq_none_iff.mp h₁ v hv

/-- A new key comes last. -/
theorem setKey_eq_append {h : Heap} {key value : Value} {es : List (Value × Value)}
    (hes : ∀ e ∈ es, h.Apart e.1 key) : h.setKey key value es = es ++ [(key, value)] := by
  induction es with
  | nil => rfl
  | cons e rest ih =>
    have hne : ¬ (h.equalItems e.1 key).toOption = some true := by
      intro heq
      rcases hr : h.equalItems e.1 key with f | b
      · rw [hr] at heq
        cases heq
      · rw [hr] at heq
        obtain rfl := Option.some.inj heq
        exact hes e (List.mem_cons_self ..) _ hr
    rw [setKey, if_neg hne, ih fun f hf => hes f (List.mem_cons_of_mem _ hf)]
    rfl

/-- All objects are there, and the keys of a dictionary may be keys and are no two equal. -/
structure Sound (h : Heap) : Prop where
  closed : ∀ i o, h.get? i = some o → ∀ v ∈ o.parts, h.Closed v
  hashable : ∀ i es, h.get? i = some (.dict es) → ∀ e ∈ es, h.Hashable e.1
  apart : ∀ i es, h.get? i = some (.dict es) → es.Pairwise fun e f => h.Apart e.1 f.1

end Heap

end Stencil
