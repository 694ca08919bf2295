/-
Stencil/Proofs/Value/Sight.lean

What can be seen of a value.  An object has a shape and parts; looking at the
parts, and at theirs, as deep as one likes, gives the *sight* of the value: its
glimpses of every depth.  Two values of the same sight are equal element by
element.  Objects that nothing can copy, generators and sealed values, are seen
by their number, so for them the same sight means the very same object.

An object is *reached* from a value when it is the value or a part of a part of
it.  Of the methods only that of a loop has its receiver for a part: the others
belong to their value, and are seen as what they are.
-/
import Stencil.Value

namespace Stencil

/-! ### Shapes and parts -/

/-- An object without its parts. -/
inductive Shape where
  | list
  | tuple
  | dict
  | generator (number : Nat)
  | sealed (number : Nat) (text : String)
  | thing (name : Option String) (attributes : List String) (items : Option Nat)
      (raising : List (String × Fault))
  | loop (position : Option Nat)
  /-- The method of a loop. -/
  | cycle
  /-- What no object is there for. -/
  | missing (number : Nat)

namespace Object

/-- Keys and values of entries, one after the other. -/
def flat (entries : List (Value × Value)) : List Value := entries.flatMap fun e => [e.1, e.2]

/-- The parts of an object, in order. -/
def parts : Object → List Value
  | list xs | tuple xs | generator xs => xs
  | dict es => flat es
  | sealed _ => []
  | thing t => flat (t.items.getD []) ++ t.attributes.map (·.2)
  | loop (some l) => [.object l.items]
  | loop none => []

/-- The shape of an object of a number. -/
def shape (i : Nat) : Object → Shape
  | list _ => .list
  | tuple _ => .tuple
  | dict _ => .dict
  | generator _ => .generator i
  | sealed text => .sealed i text
  | thing t => .thing t.name (t.attributes.map (·.1)) (t.items.map (·.length)) t.raising
  | loop l => .loop (l.map (·.position))

theorem shape_eq_tuple {i j : Nat} {o : Object} {xs : List Value}
    (e : o.shape i = (tuple xs).shape j) : ∃ ys, o = tuple ys := by
  cases o with
  | tuple ys => exact ⟨ys, rfl⟩
  | _ => cases e

theorem eq_list_of_typeName {o : Object} {xs : List Value}
    (e : (list xs).typeName = o.typeName) : ∃ ys, o = list ys := by
  cases o with
  | list ys => exact ⟨ys, rfl⟩
  | thing t => rcases ht : t.items.isSome <;> simp [typeName, ht] at e
  | _ => simp [typeName] at e

theorem eq_tuple_of_typeName {o : Object} {xs : List Value}
    (e : (tuple xs).typeName = o.typeName) : ∃ ys, o = tuple ys := by
  cases o with
  | tuple ys => exact ⟨ys, rfl⟩
  | thing t => rcases ht : t.items.isSome <;> simp [typeName, ht] at e
  | _ => simp [typeName] at e

theorem eq_dict_of_typeName {o : Object} {es : List (Value × Value)}
    (e : (dict es).typeName = o.typeName) : ∃ fs, o = dict fs := by
  cases o with
  | dict fs => exact ⟨fs, rfl⟩
  | thing t => rcases ht : t.items.isSome <;> simp [typeName, ht] at e
  | _ => simp [typeName] at e

theorem length_flat (es : List (Value × Value)) : (flat es).length = 2 * es.length := by
  induction es with
  | nil => rfl
  | cons e rest ih =>
    show (flat rest).length + 1 + 1 = 2 * (rest.length + 1)
    omega

theorem flat_map (f : Value → Value) (es : List (Value × Value)) :
    flat (es.map fun e => (f e.1, f e.2)) = (flat es).map f := by
  induction es with
  | nil => rfl
  | cons e rest ih =>
    show f e.1 :: f e.2 :: flat (rest.map _) = f e.1 :: f e.2 :: (flat rest).map f
    rw [ih]

theorem mem_flat {es : List (Value × Value)} {v : Value} :
    v ∈ flat es ↔ ∃ e ∈ es, v = e.1 ∨ v = e.2 := by
  simp [flat]

end Object

/-- A thing with all parts replaced. -/
def Thing.mapParts (t : Thing) (f : Value → Value) : Thing :=
  { t with
    attributes := t.attributes.map fun a => (a.1, f a.2)
    items := t.items.map fun es => es.map fun e => (f e.1, f e.2) }

namespace Thing

variable (t : Thing) (f : Value → Value)

theorem typeName_mapParts : (Object.thing (t.mapParts f)).typeName = (Object.thing t).typeName := by
  rw [Object.typeName, Object.typeName, mapParts, Option.isSome_map]

theorem shape_mapParts (i j : Nat) :
    (Object.thing (t.mapParts f)).shape j = (Object.thing t).shape i := by
  simp only [Object.shape, mapParts, List.map_map, Option.map_map, Function.comp_def,
    List.length_map]

theorem parts_mapParts : (Object.thing (t.mapParts f)).parts = (Object.thing t).parts.map f := by
  have hitems : Object.flat ((t.mapParts f).items.getD [])
      = (Object.flat (t.items.getD [])).map f := by
    rw [mapParts]
    cases t.items with
    | none => rfl
    | some es => exact Object.flat_map f es
  rw [Object.parts, Object.parts, List.map_append, hitems, mapParts, List.map_map, List.map_map]
  rfl

end Thing

/-! ### Sights -/

/-- What is seen of a value down to some depth. -/
inductive Glimpse where
  /-- Too deep to be seen. -/
  | hidden
  | atom (a : Atom)
  | method (receiver : Value) (name : String)
  | node (shape : Shape) (parts : List Glimpse)

namespace Heap

variable {h h' : Heap}

theorem get?_put (h : Heap) (i j : Nat) (o : Object) :
    (h.put i o).get? j = if i = j then (h.get? j).map fun _ => o else h.get? j :=
  Table.get?_put ..

@[simp] theorem size_put (h : Heap) (i : Nat) (o : Object) :
    (h.put i o).objects.size = h.objects.size := Table.size_put ..

theorem get?_add (h : Heap) (o : Object) (i : Nat) :
    (h.add o).2.get? i = if i = h.objects.size then some o else h.get? i := Table.get?_add ..

@[simp] theorem size_add (h : Heap) (o : Object) :
    (h.add o).2.objects.size = h.objects.size + 1 := Table.size_add ..

theorem lt_size {h : Heap} {i : Nat} {o : Object} (e : h.get? i = some o) : i < h.objects.size :=
  Table.lt_size e

/-- What is seen of a value, `depth` objects deep. -/
def glimpse (h : Heap) : (depth : Nat) → Value → Glimpse
  | _, .atom a => .atom a
  | 0, _ => .hidden
  | depth + 1, .method v name =>
    if name = "cycle" then .node .cycle [h.glimpse depth v] else .method v name
  | depth + 1, .object i =>
    match h.get? i with
    | some o => .node (o.shape i) (o.parts.map (h.glimpse depth))
    | none => .node (.missing i) []

/-- What is seen of a value, as deep as one looks. -/
def sight (h : Heap) (v : Value) : Nat → Glimpse := fun depth => h.glimpse depth v

@[simp] theorem glimpse_atom (h : Heap) (d : Nat) (a : Atom) : h.glimpse d (.atom a) = .atom a := by
  cases d <;> rfl

theorem glimpse_object {i : Nat} {o : Object} (e : h.get? i = some o) (d : Nat) :
    h.glimpse (d + 1) (.object i) = .node (o.shape i) (o.parts.map (h.glimpse d)) := by
  rw [glimpse, e]

theorem glimpse_cycle (h : Heap) (d : Nat) (v : Value) :
    h.glimpse (d + 1) (.method v "cycle") = .node .cycle [h.glimpse d v] := by
  rw [glimpse, if_pos rfl]

theorem glimpse_method (h : Heap) (d : Nat) (v : Value) {name : String} (hn : name ≠ "cycle") :
    h.glimpse (d + 1) (.method v name) = .method v name := by
  rw [glimpse, if_neg hn]

/-- Objects of the same sight have the same shape, and parts of the same sight. -/
theorem sight_object_inj {i j : Nat} {o o' : Object} (e : h.get? i = some o)
    (e' : h'.get? j = some o') (hs : h.sight (.object i) = h'.sight (.object j)) :
    o.shape i = o'.shape j ∧ o.parts.map h.sight = o'.parts.map h'.sight := by
  have hd : ∀ d, o.shape i = o'.shape j ∧
      o.parts.map (h.glimpse d) = o'.parts.map (h'.glimpse d) := by
    intro d
    have h₁ : h.glimpse (d + 1) (.object i) = h'.glimpse (d + 1) (.object j) := congrFun hs (d + 1)
    rw [glimpse_object e, glimpse_object e'] at h₁
    exact Glimpse.node.inj h₁
  refine ⟨(hd 0).1, List.ext_getElem ?_ fun n h₁ h₂ => ?_⟩
  · simpa using congrArg List.length (hd 0).2
  · rw [List.getElem_map, List.getElem_map]
    funext d
    have hn := congrArg (·[n]?) (hd d).2
    rw [List.length_map] at h₁ h₂
    simpa [sight, h₁, h₂] using hn

theorem sight_cycle_inj {v w : Value}
    (hs : h.sight (.method v "cycle") = h'.sight (.method w "cycle")) : h.sight v = h'.sight w := by
  funext d
  have h₁ : h.glimpse (d + 1) (.method v "cycle") = h'.glimpse (d + 1) (.method w "cycle") :=
    congrFun hs (d + 1)
  rw [glimpse_cycle, glimpse_cycle] at h₁
  exact List.head_eq_of_cons_eq (Glimpse.node.inj h₁).2

/-! ### What is reached -/

/-- The object `j` is reached from a value. -/
inductive Reaches (h : Heap) : Value → Nat → Prop
  | self (i : Nat) : Reaches h (.object i) i
  | part {i j : Nat} {o : Object} {v : Value} (e : h.get? i = some o) (hv : v ∈ o.parts)
      (r : Reaches h v j) : Reaches h (.object i) j
  | cycle {v : Value} {j : Nat} (r : Reaches h v j) : Reaches h (.method v "cycle") j

/-- The value is an object that is there, or belongs to one. -/
def Closed (h : Heap) : Value → Prop
  | .atom _ => True
  | .object i => i < h.objects.size
  | .method v _ => Closed h v

/-- Heaps that agree on what is reached from a value give it the same sight. -/
theorem glimpse_congr {v : Value} (heq : ∀ i, h.Reaches v i → h'.get? i = h.get? i) (d : Nat) :
    h'.glimpse d v = h.glimpse d v := by
  induction d generalizing v with
  | zero => cases v <;> rfl
  | succ d ih =>
    cases v with
    | atom a => rfl
    | method v name =>
      by_cases hn : name = "cycle"
      · subst hn
        rw [glimpse_cycle, glimpse_cycle, ih fun i r => heq i (.cycle r)]
      · rw [glimpse_method h' d v hn, glimpse_method h d v hn]
    | object i =>
      rw [glimpse, glimpse, heq i (.self i)]
      rcases e : h.get? i with - | o
      · rfl
      · have hparts : o.parts.map (h'.glimpse d) = o.parts.map (h.glimpse d) :=
          List.map_congr_left fun v hv => ih fun j r => heq j (.part e hv r)
        dsimp only
        rw [hparts]

end Heap

end Stencil
