/-
Stencil/Proofs/Value/Renumber.lean

Copies as new numbers.  When every entry of the memo is done (`Copying.Whole`),
the copy of a graph is the graph with other numbers for its objects: for each
object that is reached, what is found under the new number is the object with
new numbers in it (`Whole.get?_numberOf`).  So the copy reaches just what the
original does, up to the numbers, and along the same paths.

Different objects get different numbers, and lists and dictionaries get numbers
that were not there before; only a tuple of values that are their own copies
keeps its number.
-/
import Stencil.Proofs.Scope.Faithful
import Stencil.Proofs.Value.Graph

namespace Stencil

/-! ### New numbers -/

/-- The value with another number for the object that it is or belongs to. -/
def Value.renumber (f : Nat → Nat) : Value → Value
  | atom a => atom a
  | object i => object (f i)
  | method v name => method (v.renumber f) name

/-- The object with other numbers for the objects in it. -/
def Object.renumber (f : Nat → Nat) : Object → Object
  | list xs => list (xs.map (·.renumber f))
  | tuple xs => tuple (xs.map (·.renumber f))
  | dict es => dict (es.map fun e => (e.1.renumber f, e.2.renumber f))
  | generator xs => generator (xs.map (·.renumber f))
  | sealed text => sealed text
  | thing t => thing (t.mapParts (·.renumber f))
  | loop state => loop (state.map fun l => { l with items := f l.items })

namespace Object

variable (f : Nat → Nat)

theorem parts_renumber (o : Object) : (o.renumber f).parts = o.parts.map (·.renumber f) := by
  cases o with
  | list _ | tuple _ | generator _ | «sealed» _ => rfl
  | dict es => exact flat_map _ es
  | thing t => exact t.parts_mapParts _
  | loop l => cases l <;> rfl

@[simp] theorem isMutable_renumber (o : Object) : (o.renumber f).isMutable = o.isMutable := by
  cases o <;> rfl

/-- Entries are known by their keys and values in order. -/
theorem flat_inj {es fs : List (Value × Value)} (h : flat es = flat fs) : es = fs := by
  induction es generalizing fs with
  | nil =>
    cases fs with
    | nil => rfl
    | cons e rest => cases h
  | cons e rest ih =>
    cases fs with
    | nil => cases h
    | cons e' rest' =>
      have hcons : e.1 :: e.2 :: flat rest = e'.1 :: e'.2 :: flat rest' := h
      obtain ⟨hkey, htail⟩ := List.cons.inj hcons
      obtain ⟨hvalue, hrest⟩ := List.cons.inj htail
      rw [ih hrest, Prod.ext hkey hvalue]

/-- Data with the shape of some data and their parts under new numbers are these data with new
numbers. -/
theorem eq_renumber {i j : Nat} {o o' : Object} (data : o.isData = true)
    (hshape : o'.shape j = o.shape i) (hparts : o'.parts = o.parts.map (·.renumber f)) :
    o' = o.renumber f := by
  cases o with
  | list xs =>
    cases o' with
    | list ys => exact congrArg list hparts
    | _ => cases hshape
  | tuple xs =>
    cases o' with
    | tuple ys => exact congrArg tuple hparts
    | _ => cases hshape
  | dict es =>
    cases o' with
    | dict fs => exact congrArg dict (flat_inj (hparts.trans (flat_map _ es).symm))
    | _ => cases hshape
  | generator _ | «sealed» _ | thing _ | loop _ => cases data

end Object

namespace Heap

variable {h : Heap} {i : Nat} {v : Value} {o : Object}

theorem Made.isMethod (m : h.Made v) : v.isMethod = false := by
  cases m <;> rfl

theorem Made.isData (m : h.Made (.object i)) (e : h.get? i = some o) : o.isData = true := by
  cases m with
  | mutable e' ho =>
    obtain rfl := Option.some.inj (e.symm.trans e')
    cases o with
    | list _ | dict _ => rfl
    | tuple _ | generator _ | «sealed» _ | thing _ | loop _ => cases ho
  | tuple e' _ =>
    obtain rfl := Option.some.inj (e.symm.trans e')
    rfl

/-- What is reached from a graph is one. -/
theorem Graph.reached (g : h.Graph v) (r : h.Reaches v i) : h.Graph (.object i) := by
  induction r with
  | self i => exact g
  | part e hp _ ih => exact ih (g.part e hp)
  | cycle _ _ => cases g.made

/-- The value at the end of a path: at each object the path says which part comes next. -/
def follow (h : Heap) : Value → List Nat → Option Value
  | v, [] => some v
  | .object i, n :: path => do
    let o ← h.get? i
    let p ← o.parts[n]?
    h.follow p path
  | .atom _, _ :: _ | .method _ _, _ :: _ => none

/-- What is reached is at the end of a path. -/
theorem reaches_of_follow {path : List Nat} (e : h.follow v path = some (.object i)) :
    h.Reaches v i := by
  induction path generalizing v with
  | nil =>
    obtain rfl := Option.some.inj e
    exact .self i
  | cons n path ih =>
    cases v with
    | object j =>
      rw [follow] at e
      obtain ⟨o, ho, e⟩ := Option.bind_eq_some_iff.mp e
      obtain ⟨p, hp, e⟩ := Option.bind_eq_some_iff.mp e
      exact .part ho (List.mem_of_getElem? hp) (ih e)
    | atom _ | method _ _ => cases e

end Heap

/-! ### Copies -/

namespace Copying

variable {h : Heap} {s s' : Copying} {i j : Nat} {v : Value} {o : Object}

/-- The number of the copy of an object, or its own. -/
def numberOf (memo : List (Nat × Value)) (i : Nat) : Nat :=
  match memo.lookup i with
  | some (.object j) => j
  | _ => i

theorem Underway.image_eq_renumber (u : Underway h s) (hv : v.isMethod = false) :
    image s.memo v = v.renumber (numberOf s.memo) := by
  cases v with
  | atom a => rfl
  | method _ _ => cases hv
  | object i =>
    rw [image, Value.renumber, numberOf]
    rcases e : s.memo.lookup i with - | w
    · rfl
    · obtain ⟨j, rfl, -⟩ := u.entry i w e
      rfl

/-- All copies that were begun are done. -/
structure Whole (h : Heap) (s : Copying) : Prop where
  underway : Underway h s
  entry : ∀ i j, s.memo.lookup i = some (.object j) → Done h s i j

namespace Whole

theorem start (h : Heap) : Whole h ⟨h, [], [], []⟩ := ⟨.start h, nofun⟩

theorem step (w : Whole h s) (st : Step h none True s s') : Whole h s' where
  underway := st.underway
  entry i j e' := by
    rcases e : s.memo.lookup i with - | v
    · obtain ⟨-, hd | ⟨hnot, -⟩⟩ := st.fresh i j e e'
      · exact hd
      · exact absurd trivial hnot
    · obtain rfl := Option.some.inj ((st.memo i v e).symm.trans e')
      exact st.done nofun (w.entry i j e)

variable (w : Whole h s)
include w

/-- Under the new number of an object there is the object with new numbers, and its parts are
settled too. -/
theorem get?_numberOf (g : h.Graph (.object i)) (hs : Settled h s.memo (.object i))
    (e : h.get? i = some o) :
    s.heap.get? (numberOf s.memo i) = some (o.renumber (numberOf s.memo)) ∧
      ∀ p ∈ o.parts, Settled h s.memo p := by
  have hparts : o.parts.map (image s.memo) = o.parts.map (·.renumber (numberOf s.memo)) :=
    List.map_congr_left fun p hp => w.underway.image_eq_renumber (g.part e hp).made.isMethod
  have hdata := g.made.isData e
  rcases hi : s.memo.lookup i with - | v
  · -- not in the memo, so its own copy, and so are its parts
    rcases hs with hmem | hf
    · exact absurd hi hmem
    have hnumber : numberOf s.memo i = i := by rw [numberOf, hi]
    cases hf with
    | @tuple _ xs e' hxs =>
      obtain rfl := Option.some.inj (e.symm.trans e')
      have hself : xs.map (image s.memo) = xs :=
        (List.map_congr_left fun p hp => w.underway.image_fixed (hxs p hp)).trans (List.map_id' _)
      have hsame : Object.tuple xs = (Object.tuple xs).renumber (numberOf s.memo) :=
        congrArg Object.tuple (hself.symm.trans hparts)
      refine ⟨?_, fun p hp => (hxs p hp).settled⟩
      rw [hnumber, w.underway.originals i (Heap.lt_size e), e, ← hsame]
  · obtain ⟨j, rfl, -⟩ := w.underway.entry i v hi
    have hnumber : numberOf s.memo i = j := by rw [numberOf, hi]
    obtain ⟨q, o', eq, e', hshape, himage, hsettled⟩ := w.entry i j hi
    obtain rfl := Option.some.inj (e.symm.trans eq)
    rw [hnumber, e', Object.eq_renumber _ hdata hshape (himage.trans hparts)]
    exact ⟨rfl, hsettled⟩

/-- What is reached is settled. -/
theorem settled_of_reaches (g : h.Graph v) (hs : Settled h s.memo v) (r : h.Reaches v i) :
    Settled h s.memo (.object i) := by
  induction r with
  | self i => exact hs
  | part e hp _ ih => exact ih (g.part e hp) ((w.get?_numberOf g hs e).2 _ hp)
  | cycle _ _ => cases g.made

/-- The copy reaches what the original reaches. -/
theorem reaches_renumber (g : h.Graph v) (hs : Settled h s.memo v) (r : h.Reaches v i) :
    s.heap.Reaches (v.renumber (numberOf s.memo)) (numberOf s.memo i) := by
  induction r with
  | self i => exact .self _
  | @part i j o p e hp _ ih =>
    obtain ⟨e', hsettled⟩ := w.get?_numberOf g hs e
    refine .part e' ?_ (ih (g.part e hp) (hsettled p hp))
    rw [Object.parts_renumber]
    exact List.mem_map_of_mem hp
  | cycle _ _ => cases g.made

/-- The copy reaches nothing else: induction on how it does. -/
theorem exists_of_reaches (g : h.Graph v) (hs : Settled h s.memo v)
    (r : s.heap.Reaches (v.renumber (numberOf s.memo)) j) :
    ∃ i, h.Reaches v i ∧ numberOf s.memo i = j := by
  generalize e : v.renumber (numberOf s.memo) = u at r
  induction r generalizing v with
  | self j =>
    cases v with
    | object i => exact ⟨i, .self i, Value.object.inj e⟩
    | atom _ | method _ _ => cases e
  | @part j k o' p' e' hp' _ ih =>
    cases v with
    | object i =>
      obtain rfl := Value.object.inj e
      obtain ⟨o, ho⟩ : ∃ o, h.get? i = some o := by
        cases g.made with
        | mutable ho _ | tuple ho _ => exact ⟨_, ho⟩
      obtain ⟨hcopy, hsettled⟩ := w.get?_numberOf g hs ho
      obtain rfl := Option.some.inj (e'.symm.trans hcopy)
      rw [Object.parts_renumber] at hp'
      obtain ⟨p, hp, rfl⟩ := List.mem_map.mp hp'
      obtain ⟨l, r, hl⟩ := ih (g.part ho hp) (hsettled p hp) rfl
      exact ⟨l, .part ho hp r, hl⟩
    | atom _ | method _ _ => cases e
  | cycle _ _ =>
    cases v with
    | method _ _ => cases g.made
    | atom _ | object _ => cases e

/-- Along a path the copy has what the original has: induction on the path. -/
theorem follow_renumber (g : h.Graph v) (hs : Settled h s.memo v) (path : List Nat) :
    s.heap.follow (v.renumber (numberOf s.memo)) path =
      (h.follow v path).map (·.renumber (numberOf s.memo)) := by
  induction path generalizing v with
  | nil => rfl
  | cons n path ih =>
    cases v with
    | atom _ | method _ _ => rfl
    | object i =>
      obtain ⟨o, e⟩ : ∃ o, h.get? i = some o := by
        cases g.made with
        | mutable e _ | tuple e _ => exact ⟨_, e⟩
      obtain ⟨e', hsettled⟩ := w.get?_numberOf g hs e
      have hfollow : ∀ (o o' : Object) (h : Heap) (i : Nat), h.get? i = some o →
          h.follow (.object i) (n :: path) = o.parts[n]?.bind fun p => h.follow p path := by
        intro o o' h i e
        rw [Heap.follow, e]
        rfl
      rw [Value.renumber, hfollow _ o _ _ e', hfollow _ o _ _ e, Object.parts_renumber,
        List.getElem?_map]
      rcases hp : o.parts[n]? with - | p
      · rfl
      · have hmem := List.mem_of_getElem? hp
        exact ih (g.part e hmem) (hsettled p hmem)

/-- Different objects have different new numbers. -/
theorem numberOf_inj {k : Nat} (hj : j < h.objects.size) (hk : k < h.objects.size)
    (e : numberOf s.memo j = numberOf s.memo k) : j = k := by
  have himage : image s.memo (.object j) = image s.memo (.object k) := by
    rw [w.underway.image_eq_renumber rfl, w.underway.image_eq_renumber rfl, Value.renumber,
      Value.renumber, e]
  exact Value.object.inj (w.underway.image_inj hj hk himage)

/-- Lists and dictionaries get new numbers. -/
theorem le_numberOf (hs : Settled h s.memo (.object i)) (hi : h.Mutable i) :
    h.objects.size ≤ numberOf s.memo i := by
  rcases hs with hmem | hf
  · obtain ⟨v, e⟩ := Option.ne_none_iff_exists'.mp hmem
    obtain ⟨j, rfl, hj⟩ := w.underway.entry i v e
    rw [numberOf, e]
    exact hj
  · obtain ⟨o, e, ho⟩ := hi
    cases hf with
    | tuple e' _ =>
      obtain rfl := Option.some.inj (e.symm.trans e')
      cases ho

end Whole

end Copying

end Stencil
