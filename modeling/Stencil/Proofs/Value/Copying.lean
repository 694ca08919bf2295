/-
Stencil/Proofs/Value/Copying.lean

The state of a deep copy.  The originals stay as they are.  Every entry of the
memo leads to an object of its own, which is the copy that was begun of the
original: it is of the same type, and a copied tuple is finished at once.

An entry is *done* when the copy has the shape of the original, and its parts
are the images of the original's parts; it is *cut* when parts are missing.
The image of a value is what the memo holds for it, if anything; a value is
*settled* when no later copy can change that.

A run of a copy is described by a step from the state before to the state
after (`Copying.Step`): what it adds to the memo is done, or cut if it fails.
-/
import Stencil.Proofs.Run
import Stencil.Proofs.Value.Equality
import Stencil.Value.Copy

namespace Stencil

namespace Copying

variable {h : Heap} {memo : List (Nat × Value)}

/-! ### Images -/

/-- What the memo holds for a value; a value that it does not hold is its own image. -/
def image (memo : List (Nat × Value)) : Value → Value
  | .atom a => .atom a
  | .method v name => if name = "cycle" then .method (image memo v) name else .method v name
  | .object i => (memo.lookup i).getD (.object i)

/-- Values that are their own copies. -/
inductive Fixed (h : Heap) : Value → Prop
  | atom (a : Atom) : Fixed h (.atom a)
  | method (v : Value) {name : String} (hn : name ≠ "cycle") : Fixed h (.method v name)
  | cycle {v : Value} (hv : Fixed h v) : Fixed h (.method v "cycle")
  | tuple {i : Nat} {xs : List Value} (e : h.get? i = some (.tuple xs))
      (hxs : ∀ v ∈ xs, Fixed h v) : Fixed h (.object i)

/-- Whether the copy of a value is known for good. -/
def Settled (h : Heap) (memo : List (Nat × Value)) : Value → Prop
  | .atom _ => True
  | .method v name => name = "cycle" → Settled h memo v
  | .object i => memo.lookup i ≠ none ∨ Fixed h (.object i)

theorem Fixed.settled {v : Value} (hf : Fixed h v) : Settled h memo v := by
  induction hf with
  | atom a => exact trivial
  | method v hn => exact fun hcycle => absurd hcycle hn
  | cycle hv ih => exact fun _ => ih
  | tuple e hxs => exact .inr (.tuple e hxs)

theorem image_method (memo : List (Nat × Value)) (v : Value) (name : String) :
    ∃ w, image memo (.method v name) = .method w name := by
  rw [image]
  split
  · exact ⟨_, rfl⟩
  · exact ⟨_, rfl⟩

/-- The copy `j` of the object `i` is finished. -/
def Done (h : Heap) (s : Copying) (i j : Nat) : Prop :=
  ∃ o o', h.get? i = some o ∧ s.heap.get? j = some o' ∧ o'.shape j = o.shape i ∧
    o'.parts = o.parts.map (image s.memo) ∧ ∀ v ∈ o.parts, Settled h s.memo v

/-- Parts are missing in the copy `j` of the object `i`. -/
def Cut (h : Heap) (s : Copying) (i j : Nat) : Prop :=
  ∃ o o', h.get? i = some o ∧ s.heap.get? j = some o' ∧ o'.parts.length < o.parts.length

/-! ### States -/

/-- A state of a copy of values of the heap `h`. -/
structure Underway (h : Heap) (s : Copying) : Prop where
  size_le : h.objects.size ≤ s.heap.objects.size
  originals : ∀ i, i < h.objects.size → s.heap.get? i = h.get? i
  entry : ∀ i v, s.memo.lookup i = some v → ∃ j, v = .object j ∧ h.objects.size ≤ j
  begun : ∀ i j, s.memo.lookup i = some (.object j) → ¬ Fixed h (.object i) ∧
    ∃ o o', h.get? i = some o ∧ s.heap.get? j = some o' ∧ o'.typeName = o.typeName ∧
      ∀ xs, o = .tuple xs → Done h s i j
  inj : ∀ i i' v, s.memo.lookup i = some v → s.memo.lookup i' = some v → i = i'

/-- At the beginning the memo is empty. -/
theorem Underway.start (h : Heap) : Underway h ⟨h, [], [], []⟩ where
  size_le := Nat.le_refl _
  originals _ _ := rfl
  entry _ _ e := nomatch e
  begun _ _ e := nomatch e
  inj _ _ _ e := nomatch e

namespace Underway

variable {s : Copying} (u : Underway h s)
include u

theorem lookup_eq_none {i : Nat} (hf : Fixed h (.object i)) : s.memo.lookup i = none := by
  rcases e : s.memo.lookup i with - | v
  · rfl
  · obtain ⟨j, rfl, -⟩ := u.entry i v e
    exact absurd hf (u.begun i j e).1

/-- A value that is its own copy is its own image. -/
theorem image_fixed {v : Value} (hf : Fixed h v) : image s.memo v = v := by
  induction hf with
  | atom a => rfl
  | method v hn => rw [image, if_neg hn]
  | cycle hv ih => rw [image, if_pos rfl, ih]
  | tuple e hxs => rw [image, u.lookup_eq_none (.tuple e hxs), Option.getD_none]

/-- A settled value that is its own image is its own copy. -/
theorem fixed_of_image {v : Value} (hc : h.Closed v) (hs : Settled h s.memo v)
    (hv : image s.memo v = v) : Fixed h v := by
  induction v with
  | atom a => exact .atom a
  | method v name ih =>
    by_cases hn : name = "cycle"
    · subst hn
      rw [image, if_pos rfl, Value.method.injEq] at hv
      exact .cycle (ih hc (hs rfl) hv.1)
    · exact .method v hn
  | object i =>
    rcases hs with hmem | hf
    · -- an image in the memo is a new object
      obtain ⟨v, e⟩ := Option.ne_none_iff_exists'.mp hmem
      obtain ⟨j, rfl, hj⟩ := u.entry i v e
      rw [image, e, Option.getD_some, Value.object.injEq] at hv
      exact absurd hj (Nat.not_le.mpr (hv ▸ hc))
    · exact hf

/-- An image is new or its own. -/
theorem image_object (i : Nat) :
    (s.memo.lookup i = none ∧ image s.memo (.object i) = .object i) ∨
      ∃ j, s.memo.lookup i = some (.object j) ∧ image s.memo (.object i) = .object j ∧
        h.objects.size ≤ j := by
  rw [image]
  rcases e : s.memo.lookup i with - | v
  · exact .inl ⟨rfl, rfl⟩
  · obtain ⟨j, rfl, hj⟩ := u.entry i v e
    exact .inr ⟨j, rfl, rfl, hj⟩

/-- Different values have different images. -/
theorem image_inj {v w : Value} (hv : h.Closed v) (hw : h.Closed w)
    (e : image s.memo v = image s.memo w) : v = w := by
  induction v generalizing w with
  | atom a =>
    cases w with
    | atom b => exact e
    | method w name =>
      rw [image, image] at e
      split at e <;> cases e
    | object i =>
      rcases u.image_object i with ⟨-, hi⟩ | ⟨j, -, hi, -⟩ <;> rw [hi] at e <;> cases e
  | method v name ih =>
    cases w with
    | atom b =>
      rw [image, image] at e
      split at e <;> cases e
    | method w name' =>
      rw [image, image] at e
      split at e <;> split at e <;> rw [Value.method.injEq] at e
      · rw [ih hv (w := w) hw e.1, e.2]
      · next hn hn' => exact absurd (e.2 ▸ hn) hn'
      · next hn hn' => exact absurd (e.2 ▸ hn') hn
      · rw [e.1, e.2]
    | object i =>
      rcases u.image_object i with ⟨-, hi⟩ | ⟨j, -, hi, -⟩ <;> rw [hi, image] at e <;>
        split at e <;> cases e
  | object i =>
    rcases u.image_object i with ⟨hi, ei⟩ | ⟨j, hi, ei, hj⟩ <;> rw [ei] at e
    · cases w with
      | atom b => cases e
      | method w name =>
        rw [image] at e
        split at e <;> cases e
      | object i' =>
        rcases u.image_object i' with ⟨-, ei'⟩ | ⟨j', -, ei', hj'⟩ <;> rw [ei'] at e
        · exact e
        · obtain rfl := Value.object.inj e
          exact absurd hj' (Nat.not_le.mpr hv)
    · cases w with
      | atom b => cases e
      | method w name =>
        rw [image] at e
        split at e <;> cases e
      | object i' =>
        rcases u.image_object i' with ⟨-, ei'⟩ | ⟨j', hi', ei', hj'⟩ <;> rw [ei'] at e
        · obtain rfl := Value.object.inj e
          exact absurd hj (Nat.not_le.mpr hw)
        · obtain rfl := Value.object.inj e
          rw [u.inj i i' _ hi hi']

/-- What the image of a settled object is: of the same type, and for a tuple the images of its
items. -/
theorem get?_image {i : Nat} {o : Object} (e : h.get? i = some o)
    (hs : Settled h s.memo (.object i)) :
    ∃ j o', image s.memo (.object i) = .object j ∧ s.heap.get? j = some o' ∧
      o'.typeName = o.typeName ∧
      ∀ xs, o = .tuple xs → o' = .tuple (xs.map (image s.memo)) ∧
        ∀ v ∈ xs, Settled h s.memo v := by
  rcases hs with hmem | hf
  · obtain ⟨v, hi⟩ := Option.ne_none_iff_exists'.mp hmem
    obtain ⟨j, rfl, -⟩ := u.entry i v hi
    obtain ⟨-, p, o', ep, eo', htype, htuple⟩ := u.begun i j hi
    obtain rfl := Option.some.inj (e.symm.trans ep)
    refine ⟨j, o', by rw [image, hi, Option.getD_some], eo', htype, ?_⟩
    rintro xs rfl
    obtain ⟨q, q', eq, eq', hshape, hparts, hsettled⟩ := htuple xs rfl
    obtain rfl := Option.some.inj (e.symm.trans eq)
    obtain rfl := Option.some.inj (eo'.symm.trans eq')
    obtain ⟨ys, rfl⟩ := Object.shape_eq_tuple hshape
    exact ⟨congrArg Object.tuple hparts, hsettled⟩
  · refine ⟨i, o, by rw [u.image_fixed hf], ?_, rfl, ?_⟩
    · rw [u.originals i (Heap.lt_size e), e]
    · rintro xs rfl
      cases hf with
      | tuple e' hxs =>
        obtain rfl := Object.tuple.inj (Option.some.inj (e.symm.trans e'))
        have hmap : xs.map (image s.memo) = xs :=
          (List.map_congr_left fun v hv => u.image_fixed (hxs v hv)).trans (List.map_id' xs)
        rw [hmap]
        exact ⟨rfl, fun v hv => (hxs v hv).settled⟩

/-! ### Keys -/

theorem isEmptyTuple_of_image {v : Value} (hv : h.Closed v) (sv : Settled h s.memo v)
    (e : s.heap.isEmptyTuple (image s.memo v) = true) : h.isEmptyTuple v = true := by
  cases v with
  | atom a => cases e
  | method v name =>
    rw [image] at e
    split at e <;> cases e
  | object i =>
    obtain ⟨o, ho⟩ := Table.exists_get? hv
    obtain ⟨j, o', hi, ho', htype, htuple⟩ := u.get?_image ho sv
    rw [hi] at e
    obtain rfl := Option.some.inj (ho'.symm.trans (Heap.isEmptyTuple_object.mp e))
    obtain ⟨xs, rfl⟩ := Object.eq_tuple_of_typeName htype
    obtain ⟨hmap, -⟩ := htuple xs rfl
    obtain rfl := List.map_eq_nil_iff.mp (Object.tuple.inj hmap).symm
    exact Heap.isEmptyTuple_object.mpr ho

/-- Images are one and the same only if their values are. -/
theorem same_of_image {v w : Value} (hv : h.Closed v) (hw : h.Closed w)
    (sv : Settled h s.memo v) (sw : Settled h s.memo w)
    (e : s.heap.same (image s.memo v) (image s.memo w) = true) : h.same v w = true := by
  rw [Heap.same, Bool.or_eq_true, beq_iff_eq, Bool.and_eq_true] at e ⊢
  rcases e with e | ⟨e, e'⟩
  · exact .inl (u.image_inj hv hw e)
  · exact .inr ⟨u.isEmptyTuple_of_image hv sv e, u.isEmptyTuple_of_image hw sw e'⟩

/-- Keys have equal images only if they are equal: they are compared by number, or are tuples of
such, which are copied whole. -/
theorem equal_of_image (sound : h.Sound) {v w : Value} (hv : h.Closed v) (hw : h.Closed w)
    (kv : h.Hashable v) (kw : h.Hashable w) (sv : Settled h s.memo v) (sw : Settled h s.memo w)
    {depth : Nat}
    (e : s.heap.sameOrEqual depth (image s.memo v) (image s.memo w) = .ok true) :
    h.sameOrEqual depth v w = .ok true := by
  induction depth generalizing v w with
  | zero =>
    rw [Heap.sameOrEqual] at e
    split at e
    · next hsame => exact Heap.sameOrEqual_of_same (u.same_of_image hv hw sv sw hsame) 0
    · cases e
  | succ depth ih =>
    by_cases hne : h.same v w = true
    · exact Heap.sameOrEqual_of_same hne _
    · rw [Heap.sameOrEqual_succ_iff (mt (u.same_of_image hv hw sv sw) hne)] at e
      rw [Heap.sameOrEqual_succ_iff hne]
      cases v with
      | method v name =>
        obtain ⟨v', hi⟩ := image_method s.memo v name
        rw [hi] at e
        cases e
      | atom a =>
        cases w with
        | atom b =>
          cases e with
          | atom e => exact .atom e
        | method w name =>
          obtain ⟨w', hi⟩ := image_method s.memo w name
          rw [hi] at e
          cases e
        | object j =>
          obtain ⟨p, hp⟩ := Table.exists_get? hw
          obtain ⟨j', -, hj, -⟩ := u.get?_image hp sw
          rw [hj] at e
          cases e
      | object i =>
        obtain ⟨o, ho⟩ := Table.exists_get? hv
        obtain ⟨i', o', hi, ho', htype, htuple⟩ := u.get?_image ho sv
        rw [hi] at e
        cases w with
        | atom b => cases e
        | method w name =>
          obtain ⟨w', hi⟩ := image_method s.memo w name
          rw [hi] at e
          cases e
        | object j =>
          obtain ⟨p, hp⟩ := Table.exists_get? hw
          obtain ⟨j', p', hj, hp', htype', htuple'⟩ := u.get?_image hp sw
          rw [hj] at e
          cases e with
          | list ei =>
            obtain rfl := Option.some.inj (ho'.symm.trans ei)
            obtain ⟨xs, rfl⟩ := Object.eq_list_of_typeName htype
            exact absurd ho kv.not_list
          | dict ei =>
            obtain rfl := Option.some.inj (ho'.symm.trans ei)
            obtain ⟨es, rfl⟩ := Object.eq_dict_of_typeName htype
            exact absurd ho kv.not_dict
          | tuple ei ej e =>
            obtain rfl := Option.some.inj (ho'.symm.trans ei)
            obtain rfl := Option.some.inj (hp'.symm.trans ej)
            obtain ⟨xs, rfl⟩ := Object.eq_tuple_of_typeName htype
            obtain ⟨ys, rfl⟩ := Object.eq_tuple_of_typeName htype'
            obtain ⟨hxs, sxs⟩ := htuple xs rfl
            obtain ⟨hys, sys⟩ := htuple' ys rfl
            obtain rfl := Object.tuple.inj hxs
            obtain rfl := Object.tuple.inj hys
            refine .tuple ho hp (Heap.equalLists_iff.mpr ?_)
            rw [Heap.equalLists_iff, List.forall₂_map_left_iff, List.forall₂_map_right_iff,
              List.forall₂_iff_zip] at e
            refine List.forall₂_iff_zip.mpr ⟨e.1, fun {a b} hab => ?_⟩
            obtain ⟨ha, hb⟩ := List.of_mem_zip hab
            exact ih (sound.closed i _ ho a ha) (sound.closed j _ hp b hb) (kv.items ho a ha)
              (kw.items hp b hb) (sxs a ha) (sys b hb) (e.2 hab)

theorem apart_image (sound : h.Sound) {v w : Value} (hv : h.Closed v) (hw : h.Closed w)
    (kv : h.Hashable v) (kw : h.Hashable w) (sv : Settled h s.memo v) (sw : Settled h s.memo w)
    (a : h.Apart v w) : s.heap.Apart (image s.memo v) (image s.memo w) :=
  fun depth e => a depth (u.equal_of_image sound hv hw kv kw sv sw e)

end Underway

/-! ### Steps -/

/-- What a part of a copy adds to the memo is done when the part succeeds (`complete`), and done or
cut when it fails; it changes no object that is there but `own`, which is being filled. -/
structure Step (h : Heap) (own : Option Nat) (complete : Prop) (s s' : Copying) : Prop where
  underway : Underway h s'
  size_le : s.heap.objects.size ≤ s'.heap.objects.size
  same : ∀ j, j < s.heap.objects.size → own ≠ some j → s'.heap.get? j = s.heap.get? j
  memo : ∀ i v, s.memo.lookup i = some v → s'.memo.lookup i = some v
  fresh : ∀ i j, s.memo.lookup i = none → s'.memo.lookup i = some (.object j) →
    s.heap.objects.size ≤ j ∧ (Done h s' i j ∨ ¬ complete ∧ Cut h s' i j)

section Steps

variable {s s' s'' : Copying} {own : Option Nat} {complete : Prop}

theorem Settled.mono {v : Value} (hs : Settled h s.memo v)
    (hm : ∀ i v, s.memo.lookup i = some v → s'.memo.lookup i = some v) :
    Settled h s'.memo v := by
  induction v with
  | atom a => exact trivial
  | method v name ih => exact fun hn => ih (hs hn)
  | object i =>
    rcases hs with hmem | hf
    · obtain ⟨v, e⟩ := Option.ne_none_iff_exists'.mp hmem
      refine .inl ?_
      rw [hm i v e]
      exact Option.some_ne_none v
    · exact .inr hf

/-- Later additions to the memo do not matter to what is settled. -/
theorem image_mono (hf : ∀ i, Fixed h (.object i) → s'.memo.lookup i = none) {v : Value}
    (hs : Settled h s.memo v)
    (hm : ∀ i v, s.memo.lookup i = some v → s'.memo.lookup i = some v) :
    image s'.memo v = image s.memo v := by
  induction v with
  | atom a => rfl
  | method v name ih =>
    rw [image, image]
    split
    · next hn => rw [ih (hs hn)]
    · rfl
  | object i =>
    rcases e : s.memo.lookup i with - | v
    · -- not in the memo, so its own copy
      have hfixed : Fixed h (.object i) := hs.resolve_left (not_not.mpr e)
      rw [image, image, e, hf i hfixed]
    · rw [image, image, hm i v e, e]

namespace Step

theorem refl (u : Underway h s) : Step h own complete s s where
  underway := u
  size_le := Nat.le_refl _
  same _ _ _ := rfl
  memo _ _ e := e
  fresh i j e e' := by
    rw [e] at e'
    cases e'

theorem settled (st : Step h own complete s s') {v : Value} (hs : Settled h s.memo v) :
    Settled h s'.memo v := hs.mono st.memo

theorem image_eq (st : Step h own complete s s') {v : Value}
    (hs : Settled h s.memo v) : image s'.memo v = image s.memo v :=
  image_mono (fun _ hf => st.underway.lookup_eq_none hf) hs st.memo

theorem map_image_eq (st : Step h own complete s s') {vs : List Value}
    (hs : ∀ v ∈ vs, Settled h s.memo v) :
    vs.map (image s'.memo) = vs.map (image s.memo) :=
  List.map_congr_left fun v hv => st.image_eq (hs v hv)

/-- What is done stays done. -/
theorem done (st : Step h own complete s s') {i j : Nat} (hj : own ≠ some j)
    (d : Done h s i j) : Done h s' i j := by
  obtain ⟨o, o', e, e', hshape, hparts, hsettled⟩ := d
  refine ⟨o, o', e, ?_, hshape, ?_, fun v hv => st.settled (hsettled v hv)⟩
  · rw [st.same j (Heap.lt_size e') hj, e']
  · rw [hparts, st.map_image_eq hsettled]

/-- What is cut stays cut. -/
theorem cut (st : Step h own complete s s') {i j : Nat} (hj : own ≠ some j) (d : Cut h s i j) :
    Cut h s' i j := by
  obtain ⟨o, o', e, e', hparts⟩ := d
  exact ⟨o, o', e, by rw [st.same j (Heap.lt_size e') hj, e'], hparts⟩

/-- Of two steps one after the other. -/
theorem trans {first last : Prop} (st : Step h own first s s') (st' : Step h own last s' s'')
    (hfirst : complete → first) (hlast : complete → last)
    (hown : ∀ j, own = some j → j < s.heap.objects.size) : Step h own complete s s'' where
  underway := st'.underway
  size_le := Nat.le_trans st.size_le st'.size_le
  same j hj hne := by
    rw [st'.same j (Nat.lt_of_lt_of_le hj st.size_le) hne, st.same j hj hne]
  memo i v e := st'.memo i v (st.memo i v e)
  fresh i j e e'' := by
    rcases e' : s'.memo.lookup i with - | v
    · obtain ⟨hj, hd | ⟨hnot, hcut⟩⟩ := st'.fresh i j e' e''
      · exact ⟨Nat.le_trans st.size_le hj, .inl hd⟩
      · exact ⟨Nat.le_trans st.size_le hj, .inr ⟨mt hlast hnot, hcut⟩⟩
    · -- added by the first step, and left alone by the second
      obtain rfl := Option.some.inj ((st'.memo i v e').symm.trans e'')
      obtain ⟨hj, hd⟩ := st.fresh i j e e'
      have hne : own ≠ some j := fun ho => absurd (hown j ho) (Nat.not_lt.mpr hj)
      rcases hd with hd | ⟨hnot, hcut⟩
      · exact ⟨hj, .inl (st'.done hne hd)⟩
      · exact ⟨hj, .inr ⟨mt hfirst hnot, st'.cut hne hcut⟩⟩

/-- A step that fills nothing may be part of filling an object. -/
theorem within (st : Step h none complete s s') : Step h own complete s s' where
  underway := st.underway
  size_le := st.size_le
  same j hj _ := st.same j hj nofun
  memo := st.memo
  fresh := st.fresh

end Step

/-! ### Objects that are begun, and that are filled -/

/-- The state when the copy of an object is begun. -/
def begunAt (i : Nat) (o : Object) (s : Copying) : Copying :=
  { s with
    heap := (s.heap.add o).2
    memo := (i, .object s.heap.objects.size) :: s.memo }

@[simp] theorem exec_begin (i : Nat) (o : Object) (s : Copying) :
    (begin i o).exec s = (.ok s.heap.objects.size, s.begunAt i o) := rfl

theorem lookup_begunAt (i i' : Nat) (o : Object) (s : Copying) :
    (s.begunAt i o).memo.lookup i' =
      if i' = i then some (.object s.heap.objects.size) else s.memo.lookup i' := by
  rw [begunAt, List.lookup_cons]
  by_cases hi : i' = i
  · rw [if_pos hi, hi, beq_self_eq_true]
  · rw [if_neg hi, beq_false_of_ne hi]

theorem get?_begunAt (i j : Nat) (o : Object) (s : Copying) :
    (s.begunAt i o).heap.get? j = if j = s.heap.objects.size then some o else s.heap.get? j :=
  Heap.get?_add ..

/-- What is known of a copy that is to be begun. -/
structure Fresh (h : Heap) (s : Copying) (i : Nat) (o o' : Object) : Prop where
  original : h.get? i = some o
  unknown : s.memo.lookup i = none
  notFixed : ¬ Fixed h (.object i)
  type : o'.typeName = o.typeName
  tuple : ∀ xs, o = .tuple xs → o' = .tuple (xs.map (image s.memo)) ∧
    ∀ v ∈ xs, Settled h s.memo v

namespace Fresh

variable {i : Nat} {o o' : Object} (f : Fresh h s i o o')
include f

theorem memo_begunAt : ∀ i' v, s.memo.lookup i' = some v →
    (s.begunAt i o').memo.lookup i' = some v := by
  intro i' v e
  rw [lookup_begunAt, if_neg fun hi => ?_, e]
  rw [hi, f.unknown] at e
  cases e

theorem fixed_begunAt (u : Underway h s) : ∀ i', Fixed h (.object i') →
    (s.begunAt i o').memo.lookup i' = none := by
  intro i' hf
  have hne : i' ≠ i := fun hi => f.notFixed (hi ▸ hf)
  rw [lookup_begunAt, if_neg hne, u.lookup_eq_none hf]

theorem done_begunAt (u : Underway h s) {i' j : Nat} (d : Done h s i' j) :
    Done h (s.begunAt i o') i' j := by
  obtain ⟨p, p', e, e', hshape, hparts, hsettled⟩ := d
  refine ⟨p, p', e, ?_, hshape, ?_, fun v hv => (hsettled v hv).mono f.memo_begunAt⟩
  · rw [get?_begunAt, if_neg (Nat.ne_of_lt (Heap.lt_size e')), e']
  · rw [hparts]
    exact List.map_congr_left fun v hv =>
      (image_mono (f.fixed_begunAt u) (hsettled v hv) f.memo_begunAt).symm

theorem underway (u : Underway h s) : Underway h (s.begunAt i o') where
  size_le := by
    show _ ≤ (s.heap.add o').2.objects.size
    rw [Heap.size_add]
    exact Nat.le_succ_of_le u.size_le
  originals i' hi := by
    rw [get?_begunAt, if_neg (Nat.ne_of_lt (Nat.lt_of_lt_of_le hi u.size_le)), u.originals i' hi]
  entry i' v e := by
    rw [lookup_begunAt] at e
    split at e
    · exact ⟨_, (Option.some.inj e).symm, u.size_le⟩
    · exact u.entry i' v e
  begun i' j e := by
    rw [lookup_begunAt] at e
    split at e
    · next hi =>
      obtain rfl := Value.object.inj (Option.some.inj e)
      subst hi
      refine ⟨f.notFixed, o, o', f.original, ?_, f.type, fun xs ho => ?_⟩
      · rw [get?_begunAt, if_pos rfl]
      · obtain ⟨rfl, hsettled⟩ := f.tuple xs ho
        subst ho
        refine ⟨_, _, f.original, by rw [get?_begunAt, if_pos rfl], rfl, ?_,
          fun v hv => (hsettled v hv).mono f.memo_begunAt⟩
        exact List.map_congr_left fun v hv =>
          (image_mono (f.fixed_begunAt u) (hsettled v hv) f.memo_begunAt).symm
    · obtain ⟨hf, p, p', ep, ep', htype, htuple⟩ := u.begun i' j e
      refine ⟨hf, p, p', ep, ?_, htype, fun xs hp => f.done_begunAt u (htuple xs hp)⟩
      rw [get?_begunAt, if_neg (Nat.ne_of_lt (Heap.lt_size ep')), ep']
  inj i₁ i₂ v e₁ e₂ := by
    rw [lookup_begunAt] at e₁ e₂
    -- the new object is no copy of another
    have hnew : ∀ i', s.memo.lookup i' ≠ some (.object s.heap.objects.size) := by
      intro i' e
      obtain ⟨-, p, p', -, ep', -⟩ := u.begun i' _ e
      exact Nat.lt_irrefl _ (Heap.lt_size ep')
    split at e₁ <;> split at e₂
    · next h₁ h₂ => rw [h₁, h₂]
    · exact absurd (e₂.trans e₁.symm) (hnew i₂)
    · exact absurd (e₁.trans e₂.symm) (hnew i₁)
    · exact u.inj i₁ i₂ v e₁ e₂

/-- Beginning a copy and filling it is a step. -/
theorem step (st : Step h (some s.heap.objects.size) complete (s.begunAt i o') s'')
    (hd : Done h s'' i s.heap.objects.size ∨ ¬ complete ∧ Cut h s'' i s.heap.objects.size) :
    Step h none complete s s'' where
  underway := st.underway
  size_le := by
    have hle := st.size_le
    rw [begunAt, Heap.size_add] at hle
    exact Nat.le_of_succ_le hle
  same j hj _ := by
    rw [st.same j (by rw [begunAt, Heap.size_add]; exact Nat.lt_succ_of_lt hj)
      (fun he => Nat.ne_of_gt hj (Option.some.inj he)), get?_begunAt, if_neg (Nat.ne_of_lt hj)]
  memo i' v e := st.memo i' v (f.memo_begunAt i' v e)
  fresh i' j e e'' := by
    by_cases hi : i' = i
    · have hnew : (s.begunAt i o').memo.lookup i' = some (.object s.heap.objects.size) := by
        rw [lookup_begunAt, if_pos hi]
      obtain rfl := Value.object.inj (Option.some.inj ((st.memo i' _ hnew).symm.trans e''))
      subst hi
      exact ⟨Nat.le_refl _, hd⟩
    · have hold : (s.begunAt i o').memo.lookup i' = none := by
        rw [lookup_begunAt, if_neg hi, e]
      obtain ⟨hj, hd'⟩ := st.fresh i' j hold e''
      rw [begunAt, Heap.size_add] at hj
      exact ⟨Nat.le_of_succ_le hj, hd'⟩

end Fresh

/-- Filling the copy of an object that is no tuple. -/
theorem Underway.put (u : Underway h s) {i j : Nat} {o : Object} (o' : Object)
    (hi : s.memo.lookup i = some (.object j)) (e : h.get? i = some o)
    (htuple : ∀ xs, o ≠ .tuple xs) (htype : o'.typeName = o.typeName) :
    Step h (some j) True s { s with heap := s.heap.put j o' } := by
  obtain ⟨v, hv, hj⟩ := u.entry i _ hi
  obtain rfl := Value.object.inj hv
  obtain ⟨-, -, p', -, ep', -⟩ := u.begun i j hi
  have hother : ∀ j', j ≠ j' → (s.heap.put j o').get? j' = s.heap.get? j' := fun j' hne => by
    rw [Heap.get?_put, if_neg hne]
  have u' : Underway h { s with heap := s.heap.put j o' } := by
    refine ⟨?_, fun i' hi' => ?_, u.entry, fun i' j' e' => ?_, u.inj⟩
    · rw [Heap.size_put]
      exact u.size_le
    · rw [hother i' (Nat.ne_of_gt (Nat.lt_of_lt_of_le hi' hj)), u.originals i' hi']
    · obtain ⟨hf, q, q', eq, eq', hq, hdone⟩ := u.begun i' j' e'
      by_cases hne : j = j'
      · subst hne
        obtain rfl := u.inj i i' _ hi e'
        obtain rfl := Option.some.inj (e.symm.trans eq)
        refine ⟨hf, o, o', e, ?_, htype, fun xs ho => absurd ho (htuple xs)⟩
        rw [Heap.get?_put, if_pos rfl, ep']
        rfl
      · refine ⟨hf, q, q', eq, (hother j' hne).trans eq', hq, fun xs ho => ?_⟩
        obtain ⟨a, b, ea, eb, hshape, hparts, hsettled⟩ := hdone xs ho
        exact ⟨a, b, ea, (hother j' hne).trans eb, hshape, hparts, hsettled⟩
  refine ⟨u', ?_, fun j' _ hne => hother j' fun h' => hne (congrArg some h'), fun _ _ e => e,
    fun i' j' e e' => ?_⟩
  · exact Nat.le_of_eq (Heap.size_put ..).symm
  · cases e.symm.trans e'

end Steps

end Copying

end Stencil
